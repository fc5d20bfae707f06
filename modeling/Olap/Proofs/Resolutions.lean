/-
Hierarchies that are looked up again. A hierarchy that a dimension answers is handed on to cuts, to
listings and to tables, either itself or by its name, and is looked up there once more. It is found again
because the hierarchies of a dimension have different names, and it does not matter how it was found
before. What has no name stands for the default hierarchy when it is looked up by its name, so that only
the hierarchy itself is an answer to the question for it, unless it is the default one.
-/

import Mathlib
import Olap.Aggregation
import Olap.Proofs.Cuts
import Olap.Proofs.Hierarchies
import Olap.Proofs.Paths

namespace Olap

namespace Cut

/-- The cut along another hierarchy. -/
def along : Cut → Option String → Cut
  | point dimension _ path, hierarchy => point dimension hierarchy path
  | range dimension _ low high, hierarchy => range dimension hierarchy low high
  | set dimension _ paths, hierarchy => set dimension hierarchy paths
  | bare dimension _, hierarchy => bare dimension hierarchy

variable {c : Cut} {fields : Fields Part} {title : String} {again : Description} {name : Option String}

@[simp]
theorem dimension_along (c : Cut) (name : Option String) : (c.along name).dimension = c.dimension := by
  cases c <;> rfl

@[simp]
theorem hierarchy_along (c : Cut) (name : Option String) : (c.along name).hierarchy = name := by
  cases c <;> rfl

theorem givenIn_set_hierarchy {key : String} (other : "hierarchy" ≠ key) :
    givenIn [key] (Record.set fields "hierarchy" again) = givenIn [key] fields := by
  rw [givenIn_one, givenIn_one, Record.get?_set_of_ne _ _ other]

theorem checkDimension_set_hierarchy {dimension : String}
    (named : (requireField fields ["dimension"] checkDimension).result = .ok dimension) :
    (requireField (Record.set fields "hierarchy" again) ["dimension"] checkDimension).result =
      .ok dimension := by
  rw [requireField_ok] at named ⊢
  rwa [Record.get?_set_of_ne _ _ (by decide)]

theorem checkField_set_hierarchy {β : Type} {key : String} {default b : β}
    {check : Description → Check β} (other : "hierarchy" ≠ key)
    (checked : (checkField fields [key] default check).result = .ok b) :
    (checkField (Record.set fields "hierarchy" again) [key] default check).result = .ok b :=
  (checkField_ok_congr (givenIn_set_hierarchy other)).mpr checked

theorem checkHierarchy_set_hierarchy (named : (checkHierarchy again).result = .ok name) :
    (checkField (Record.set fields "hierarchy" again) ["hierarchy"] none checkHierarchy).result =
      .ok name := by
  refine checkField_ok_iff.mpr (Or.inr ⟨again, ?_, named⟩)
  rw [givenIn_one, Record.get?_set_self]

theorem leftOver_set_hierarchy (names : List String) (known : "hierarchy" ∈ names)
    (none : leftOver (names.map ([·])) fields = []) :
    leftOver (names.map ([·])) (Record.set fields "hierarchy" again) = [] := by
  rw [leftOver_singles] at none ⊢
  intro key member
  rcases Record.mem_keys_set.mp member with before | rfl
  · exact none before
  · exact known

/-- To a cut, a hierarchy is its name. -/
theorem checkHierarchy_of_mem {h : Hierarchy}
    (either : again ∈ [.object (.hierarchy h), .ofOption h.name]) :
    (checkHierarchy again).result = .ok h.name := by
  have stands : again.hierarchyName = .ofOption h.name := by
    rcases List.mem_pair.mp either with rfl | rfl
    · rfl
    · cases h.name <;> rfl
  unfold checkHierarchy
  rw [stands]
  exact Coerce.optional_text_of_isNamed (by rw [isNamed_ofOption_eq, beq_self_eq_true])

/-- A cut of any kind can be made along another hierarchy, and is the same cut apart from that. -/
theorem ofTitle_along (made : ofTitle title fields = .ok c)
    (named : (checkHierarchy again).result = .ok name) :
    ofTitle title (Record.set fields "hierarchy" again) = .ok (c.along name) := by
  unfold ofTitle at made ⊢
  split at made
  · rename_i isPoint
    rw [if_pos isPoint]
    obtain ⟨dimension, _, path, rfl, dimensioned, -, placed, none⟩ := pointOfFields_ok.1 made
    exact pointOfFields_ok.2 ⟨dimension, name, path, rfl, checkDimension_set_hierarchy dimensioned,
      checkHierarchy_set_hierarchy named, checkField_set_hierarchy (by decide) placed,
      leftOver_set_hierarchy ["dimension", "hierarchy", "path"] (by decide) none⟩
  · rename_i notPoint
    rw [if_neg notPoint]
    split at made
    · rename_i isRange
      rw [if_pos isRange]
      obtain ⟨dimension, _, low, high, rfl, dimensioned, -, least, greatest, none⟩ :=
        rangeOfFields_ok.1 made
      exact rangeOfFields_ok.2 ⟨dimension, name, low, high, rfl,
        checkDimension_set_hierarchy dimensioned, checkHierarchy_set_hierarchy named,
        checkField_set_hierarchy (by decide) least, checkField_set_hierarchy (by decide) greatest,
        leftOver_set_hierarchy ["dimension", "hierarchy", "from_key", "to_key"] (by decide) none⟩
    · rename_i notRange
      rw [if_neg notRange]
      split at made
      · rename_i isSet
        rw [if_pos isSet]
        obtain ⟨dimension, _, paths, rfl, dimensioned, -, placed, none⟩ := setOfFields_ok.1 made
        exact setOfFields_ok.2 ⟨dimension, name, paths, rfl, checkDimension_set_hierarchy dimensioned,
          checkHierarchy_set_hierarchy named, checkField_set_hierarchy (by decide) placed,
          leftOver_set_hierarchy ["dimension", "hierarchy", "paths"] (by decide) none⟩
      · rename_i notSet
        rw [if_neg notSet]
        obtain ⟨dimension, _, rfl, dimensioned, -, none⟩ := bareOfFields_ok.1 made
        exact bareOfFields_ok.2 ⟨dimension, name, rfl, checkDimension_set_hierarchy dimensioned,
          checkHierarchy_set_hierarchy named,
          leftOver_set_hierarchy ["dimension", "hierarchy"] (by decide) none⟩

end Cut

namespace Dimension

variable {d : Dimension} {h : Hierarchy} {given wanted again : Description}

/-! ### Looking up -/

/-- A dimension of any description is made of a draft. -/
theorem exists_draft_of_ofDescription (made : ofDescription given [] = .ok d) :
    ∃ draft, ofDraft draft = .ok d := by
  obtain ⟨fields, built, -⟩ := exists_fields_of_ofDescription made
  obtain ⟨draft, -, completed⟩ := ofFields_ok.1 built
  exact ⟨draft, completed⟩

/-- A hierarchy is found by itself, with or without a name. -/
theorem hierarchy_self {draft : Draft} (made : ofDraft draft = .ok d) (declared : h ∈ d.hierarchies) :
    d.hierarchy (.object (.hierarchy h)) = .ok h := by
  have looked : d.hierarchies.find? (isNamed ·.name (.ofOption h.name)) = some h := by
    simp only [isNamed_ofOption_eq]
    exact find?_of_mem_of_nodup (nodup_hierarchyNames made) declared
  unfold hierarchy
  dsimp only [Description.hierarchyName, Description.hierarchy?, Option.elim_some]
  rw [looked]

/-- What is asked about a hierarchy is answered alike, whichever of two descriptions it is asked for by. -/
structure AnswersAlike (d : Dimension) (wanted again : Description) : Prop where
  hierarchy : d.hierarchy again = d.hierarchy wanted
  attributes : d.allAttributes again = d.allAttributes wanted
  values : ∀ (c : Compiler) dimension path cuts o, c.cube.dimensionOf dimension = .ok d →
    c.values dimension path cuts o again = c.values dimension path cuts o wanted
  detail : ∀ (c : Compiler) dimension path cuts, c.cube.dimensionOf dimension = .ok d →
    c.detail dimension path cuts again = c.detail dimension path cuts wanted
  tableRows : ∀ (a : Aggregation) cube dimension, a.cube = some cube →
    cube.dimensionOf dimension = .ok d → a.tableRows dimension again = a.tableRows dimension wanted

/-- Nothing is asked about a hierarchy but what it is looked up for. -/
theorem answersAlike_of_hierarchy (same : d.hierarchy again = d.hierarchy wanted) :
    d.AnswersAlike wanted again where
  hierarchy := same
  attributes := by
    unfold allAttributes
    rw [same]
  values c dimension path cuts o held := by
    unfold Compiler.values
    rw [held]
    dsimp only [bind, Except.bind]
    rw [same]
  detail c dimension path cuts held := by
    unfold Compiler.detail
    rw [held]
    dsimp only [bind, Except.bind]
    rw [same]
  tableRows a cube dimension bound held := by
    unfold Aggregation.tableRows
    rw [bound]
    dsimp only
    rw [held]
    dsimp only [bind, Except.bind]
    rw [same]

/-- A cut is resolved by looking up its dimension and its hierarchy. -/
theorem resolve_eq {c : Cut} {cube : Cube} (held : cube.dimension c.dimension = .ok d)
    (found : d.hierarchy (.ofOption c.hierarchy) = .ok h) : c.resolve cube = .ok (d, h) :=
  Result.bind_ok.2 ⟨d, held, Result.bind_ok.2 ⟨h, found, rfl⟩⟩

/-- A hierarchy that a dimension has, however it was found, is found again by itself, for a listing, for
the details of a member and for the rows of a table as well. A cut takes it for its name. By its name it is
found again too, by a cut as well, if it has a name or is the default hierarchy. -/
theorem hierarchy_found_again (made : ofDescription given [] = .ok d)
    (found : d.hierarchy wanted = .ok h) (declared : h ∈ d.hierarchies) :
    d.AnswersAlike wanted (.object (.hierarchy h)) ∧
      (∀ title fields c, Cut.ofTitle title fields = .ok c →
        ∀ again ∈ [.object (.hierarchy h), .ofOption h.name],
          Cut.ofTitle title (Record.set fields "hierarchy" again) = .ok (c.along h.name)) ∧
      ((h.name = none → d.defaultHierarchy = .ok h) →
        d.AnswersAlike wanted (.ofOption h.name) ∧
          ∀ (c : Cut) cube, cube.dimension c.dimension = .ok d →
            (c.along h.name).resolve cube = .ok (d, h)) := by
  obtain ⟨draft, completed⟩ := exists_draft_of_ofDescription made
  refine ⟨?_, ?_, fun settled => ?_⟩
  · exact answersAlike_of_hierarchy ((hierarchy_self completed declared).trans found.symm)
  · intro title fields c cut again either
    exact Cut.ofTitle_along cut (Cut.checkHierarchy_of_mem either)
  · have byName := hierarchy_of_mem completed declared settled
    refine ⟨answersAlike_of_hierarchy (byName.trans found.symm), fun c cube held => ?_⟩
    refine resolve_eq ?_ ?_
    · rwa [Cut.dimension_along]
    · rwa [Cut.hierarchy_along]

/-- Places with a hierarchy without a name and another one, which is the default. -/
def routes : Value :=
  .record [("name", .text "place"), ("levels", .list [.text "country", .text "city"]),
    ("hierarchies", .list [.record [("levels", .list [.text "country"])],
      .record [("name", .text "map"), ("levels", .list [.text "country", .text "city"])]]),
    ("default_hierarchy_name", .text "map")]

/-- The default hierarchy of places is found by its name, and a cut of places is made along it. -/
theorem hierarchy_found_again_routes :
    ∃ d h, ofDescription routes.lift [] = .ok d ∧ d.hierarchy .null = .ok h ∧ h ∈ d.hierarchies ∧
      h.name = some "map" ∧ d.hierarchy (.text "map") = .ok h ∧
      Cut.ofTitle "PointCut" [("dimension", .text "place"), ("hierarchy", .object (.hierarchy h))] =
        .ok (.point "place" (some "map") []) ∧
      (Cut.point "place" (some "map") []).resolve { (default : Cube) with dimensions := [d] } =
        .ok (d, h) := by
  obtain ⟨d, made⟩ : ∃ d, ofDescription routes.lift [] = .ok d := ⟨_, rfl⟩
  obtain ⟨h, found, declared, named⟩ :
      ∃ h, d.hierarchy .null = .ok h ∧ h ∈ d.hierarchies ∧ h.name = some "map" := by
    cases made
    exact ⟨_, rfl, List.mem_cons_of_mem _ (List.mem_singleton_self _), rfl⟩
  obtain ⟨-, cuts, settled⟩ := hierarchy_found_again made found declared
  obtain ⟨alike, resolves⟩ := settled fun none => nomatch named.symm.trans none
  rw [named] at cuts alike resolves
  have held : ({ (default : Cube) with dimensions := [d] } : Cube).dimension "place" = .ok d := by
    cases made
    rfl
  refine ⟨d, h, made, found, declared, named, alike.hierarchy.trans found, ?_,
    resolves (.point "place" none []) _ held⟩
  exact cuts "PointCut" [("dimension", .text "place")] _ rfl _ List.mem_cons_self

/-- A place that is its city only. -/
def cityOnly : Value := .record [("name", .text "place"), ("levels", .list [.text "city"])]

/-- A hierarchy without a name is not found by it while another one is the default. The hierarchy that is
made of the only level of a dimension is not found at all, by itself or by its name. -/
theorem exists_hierarchy_not_found_again :
    (∃ d x h, ofDescription routes.lift [] = .ok d ∧
      d.hierarchy (.object (.hierarchy x)) = .ok h ∧ h ∈ d.hierarchies ∧ h.name = none ∧
      d.hierarchy (.ofOption h.name) ≠ .ok h) ∧
    ∃ d h, ofDescription cityOnly.lift [] = .ok d ∧ d.hierarchy .null = .ok h ∧ h.name = some "city" ∧
      d.hierarchy (.object (.hierarchy h)) = fail (.hierarchyNotInDimension (.text "city") "place") ∧
      d.hierarchy (.ofOption h.name) = fail (.hierarchyNotInDimension (.text "city") "place") := by
  constructor
  · obtain ⟨d, made⟩ : ∃ d, ofDescription routes.lift [] = .ok d := ⟨_, rfl⟩
    obtain ⟨x, other, nameless, named, inside, chosen⟩ : ∃ x other : Hierarchy, x.name = none ∧
        other.name = some "map" ∧ x ∈ d.hierarchies ∧ d.hierarchy .null = .ok other := by
      cases made
      exact ⟨_, _, rfl, rfl, List.mem_cons_self, rfl⟩
    obtain ⟨draft, completed⟩ := exists_draft_of_ofDescription made
    refine ⟨d, x, x, made, hierarchy_self completed inside, inside, nameless, fun same => ?_⟩
    rw [nameless] at same
    cases chosen.symm.trans same
    cases nameless.symm.trans named
  · obtain ⟨d, made⟩ : ∃ d, ofDescription cityOnly.lift [] = .ok d := ⟨_, rfl⟩
    cases made
    exact ⟨_, _, rfl, rfl, rfl, rfl, rfl⟩

end Dimension

end Olap
