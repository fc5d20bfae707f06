/-
Paths along a hierarchy. A listing looks up its dimension and its hierarchy as they are given, and a
cut only keeps their names. Both have the same hierarchy in mind, unless the hierarchy has no name
and is not the default one. Then the conditions of a path are the same for both, and one more value
at the end of the path is one more equality, on the column of the key of the next level.
-/

import Olap.Proofs.Points
import Olap.Proofs.Selections

namespace Olap

/-! ### Looking up -/

theorem Cube.name_of_dimension {c : Cube} {name : String} {d : Dimension}
    (held : c.dimension name = .ok d) : d.name = name := by
  unfold dimension at held
  split at held
  · cases held
  · split at held
    · rename_i found looked
      cases held
      exact beq_iff_eq.mp (List.find?_some (p := fun d : Dimension => d.name == name) looked)
    · cases held

theorem Cube.isEmpty_name_of_dimension {c : Cube} {name : String} {d : Dimension}
    (held : c.dimension name = .ok d) : name.isEmpty = false := by
  unfold dimension at held
  split at held
  · cases held
  · rename_i filled
    simpa using filled

/-- A dimension is looked up by its name, or by an object that stands for the name. -/
theorem Cube.dimensionOf_ok {c : Cube} {wanted : Description} {d : Dimension}
    (held : c.dimensionOf wanted = .ok d) :
    c.dimension d.name = .ok d ∧ wanted.dimensionName.isTruthy = true ∧
      wanted.dimensionName.text? = some d.name := by
  unfold dimensionOf at held
  dsimp only at held
  split at held
  · cases held
  · rename_i truthy
    split at held
    · rename_i name named
      obtain rfl := name_of_dimension held
      exact ⟨held, by simpa using truthy, named⟩
    · cases held

/-- What a dimension is looked up by is a name of it to a cut. -/
theorem Cut.checkDimension_of_dimensionOf {c : Cube} {wanted : Description} {d : Dimension}
    (held : c.dimensionOf wanted = .ok d) : (checkDimension wanted).result = .ok d.name := by
  obtain ⟨-, truthy, named⟩ := Cube.dimensionOf_ok held
  unfold Description.dimensionName at truthy named
  unfold checkDimension
  cases given : Description.dimension? wanted with
  | some dimension =>
    rw [given] at named
    exact congrArg Except.ok (Option.some.inj named)
  | none =>
    rw [given, Option.elim_none] at named truthy
    rw [if_pos truthy]
    unfold Coerce.text
    rw [named]
    rfl

/-- What finds an object by its name is checked to be this name. -/
theorem Coerce.optional_text_of_isNamed {own : Option String} {wanted : Description}
    (named : isNamed own wanted = true) : (optional text wanted).result = .ok own := by
  cases wanted with
  | null =>
    rw [isNamed, Option.isNone_iff_eq_none] at named
    rw [named]
    rfl
  | text s | direction d =>
    simp only [isNamed, Datum.text?, beq_iff_eq] at named
    rw [named]
    rfl
  | _ => cases named

/-- What a hierarchy is looked up by is a name of it to a cut, when the default hierarchy is meant by
no name. -/
theorem Dimension.exists_checkHierarchy {d : Dimension} {wanted : Description} {h : Hierarchy}
    (found : d.hierarchy wanted = .ok h) (settled : h.name = none → d.defaultHierarchy = .ok h) :
    ∃ name, (Cut.checkHierarchy wanted).result = .ok name ∧ d.hierarchy (.ofOption name) = .ok h := by
  by_cases bare : wanted = .null
  · subst bare
    exact ⟨none, rfl, found⟩
  · have looked : d.hierarchies.find? (isNamed ·.name wanted.hierarchyName) = some h := by
      unfold hierarchy at found
      split at found
      · exact absurd rfl bare
      · split at found
        · rename_i known
          cases found
          exact known
        · cases found
    have named : isNamed h.name wanted.hierarchyName = true :=
      List.find?_some (p := fun h : Hierarchy => isNamed h.name wanted.hierarchyName) looked
    refine ⟨h.name, Coerce.optional_text_of_isNamed named, ?_⟩
    cases own : h.name with
    | none => exact settled own
    | some name =>
      rw [own] at named
      have lookedToo : d.hierarchies.find? (isNamed ·.name (Description.hierarchyName (.text name))) =
          some h := by
        rw [← looked]
        exact congrArg (List.find? · d.hierarchies) (funext fun other => isNamed_ofOption named other.name)
      show d.hierarchy (.text name) = .ok h
      unfold hierarchy
      dsimp only
      rw [lookedToo]

/-! ### Conditions of paths -/

namespace Compiler

variable {c : Compiler}

/-- Every path has conditions when every level has a key. -/
theorem exists_pathConditions {levels : List Level}
    (keyed : ∀ level ∈ levels, ∃ key, level.keyAttribute = .ok key) (path : List Value) :
    ∃ conditions, c.pathConditions levels path = .ok conditions := by
  induction levels generalizing path with
  | nil => exact ⟨[], rfl⟩
  | cons level rest inductionHypothesis =>
    cases path with
    | nil => exact ⟨[], rfl⟩
    | cons value path =>
      obtain ⟨key, found⟩ := keyed level List.mem_cons_self
      obtain ⟨others, below⟩ :=
        inductionHypothesis (fun other member => keyed other (List.mem_cons_of_mem _ member)) path
      unfold pathConditions
      split
      · exact ⟨others, below⟩
      · exact ⟨_, Result.bind_ok.2 ⟨key, found, Result.bind_ok.2 ⟨others, below, rfl⟩⟩⟩

/-- One more value is one more equality, on the column of the key of its level. -/
theorem pathConditions_append_value {levels : List Level} {path : List Value} {level : Level}
    {key : Attribute} {value : Value} {conditions : List Predicate}
    (compiled : c.pathConditions levels path = .ok conditions)
    (below : levels[path.length]? = some level) (keyed : level.keyAttribute = .ok key)
    (closed : value ≠ .wildcard) :
    c.pathConditions levels (path ++ [value]) =
      .ok (conditions ++ [.equals (c.column key) value]) := by
  induction levels generalizing path conditions with
  | nil => cases below
  | cons first rest inductionHypothesis =>
    cases path with
    | nil =>
      cases compiled
      obtain rfl := Option.some.inj below
      have none : c.pathConditions rest [] = .ok [] := by cases rest <;> rfl
      rw [List.nil_append, pathConditions]
      · exact Result.bind_ok.2 ⟨key, keyed, Result.bind_ok.2 ⟨[], none, rfl⟩⟩
      · exact closed
    | cons head path =>
      rw [List.cons_append]
      unfold pathConditions at compiled ⊢
      split at compiled
      · exact inductionHypothesis compiled below
      · obtain ⟨own, found, compiled⟩ := Result.bind_ok.1 compiled
        obtain ⟨others, later, compiled⟩ := Result.bind_ok.1 compiled
        cases compiled
        exact Result.bind_ok.2 ⟨own, found, Result.bind_ok.2
          ⟨_, inductionHypothesis later below, rfl⟩⟩

end Compiler

/-! ### One level deeper -/

namespace Browser

variable {σ : Type} {b : Browser σ} {table : Table}

/-- A path that does not reach the end of a hierarchy, in which every level has a key. The dimension
and the hierarchy are looked up; right below the path there is a level with a key. -/
structure Descends (b : Browser σ) (dimension hierarchy : Description) (path : List Value)
    (d : Dimension) (h : Hierarchy) (level : Level) (key : Attribute) : Prop where
  held : b.cube.dimensionOf dimension = .ok d
  found : d.hierarchy hierarchy = .ok h
  keyed : ∀ level ∈ h.levels, ∃ key, level.keyAttribute = .ok key
  below : h.levels[path.length]? = some level
  keyOfLevel : level.keyAttribute = .ok key

variable {dimension hierarchy : Description} {path : List Value} {d : Dimension} {h : Hierarchy}
  {level : Level} {key : Attribute}

/-- How the values of a path are written makes no difference to where it leads. -/
theorem Descends.normalized (down : b.Descends dimension hierarchy path d h level key) :
    b.Descends dimension hierarchy (path.map pathElement) d h level key :=
  ⟨down.held, down.found, down.keyed, by rw [List.length_map]; exact down.below, down.keyOfLevel⟩

theorem Descends.length_lt (down : b.Descends dimension hierarchy path d h level key) :
    path.length < h.levels.length :=
  (List.getElem?_eq_some_iff.mp down.below).1

/-- The slices cut at paths along the hierarchy: they have one more cut, which keeps a name of the
hierarchy. -/
theorem Descends.exists_cutByPoint (down : b.Descends dimension hierarchy path d h level key)
    (settled : h.name = none → d.defaultHierarchy = .ok h) :
    ∃ name, (∀ path, Cut.resolve (.point d.name name path) b.cube = .ok (d, h)) ∧
      ∀ (slice : Slice) (path : List Value),
        slice.cutByPoint dimension (Datum.lift (.list path)) hierarchy =
          .ok (Slice.ofCuts slice.cube
            (slice.cuts ++ [.point d.name name (path.map pathElement)])) := by
  obtain ⟨known, -⟩ := Cube.dimensionOf_ok down.held
  have named := Cut.checkDimension_of_dimensionOf down.held
  obtain ⟨name, chosen, looked⟩ := Dimension.exists_checkHierarchy down.found settled
  refine ⟨name, fun path => Result.bind_ok.2 ⟨d, known, Result.bind_ok.2 ⟨h, looked, rfl⟩⟩,
    fun slice path => Result.map_ok.2 ⟨_, Cut.byPoint_ok named chosen ?_, rfl⟩⟩
  rw [show Description.toValue (Datum.lift _) = _ from Datum.plain_lift _ _]
  rfl

/-- The facts of a slice that is cut at a path along a hierarchy. -/
theorem factsIn_append_point {cuts : List Cut} {facts : List Row} {name : Option String}
    (restricted : b.factsIn table cuts = .ok facts)
    (resolved : Cut.resolve (.point d.name name path) b.cube = .ok (d, h))
    (fits : path.length ≤ h.levels.length) {conditions : List Predicate}
    (compiled : b.compiler.pathConditions h.levels path = .ok conditions) :
    b.factsIn table (cuts ++ [.point d.name name path]) =
      .ok (facts.filter fun fact => conditions.all (Predicate.holds table.columns fact)) := by
  obtain ⟨others, before, rfl⟩ := Result.map_ok.1 restricted
  have last := (Compiler.cutPredicates_point (c := b.compiler) resolved fits).trans compiled
  exact Result.map_ok.2 ⟨_, Compiler.predicates_append before last, selectRows_append _ _ _ _⟩

/-- The facts of a slice that is cut one level deeper are those that have the value in the column of
the key of this level. -/
theorem Descends.factsIn_deeper (down : b.Descends dimension hierarchy path d h level key)
    {cuts : List Cut} {facts : List Row} {name : Option String} {conditions : List Predicate}
    (restricted : b.factsIn table cuts = .ok facts)
    (resolved : ∀ path, Cut.resolve (.point d.name name path) b.cube = .ok (d, h))
    (compiled : b.compiler.pathConditions h.levels path = .ok conditions) {value : Value}
    (stored : Cell.IsStored (Record.get? table.columns (b.compiler.column key)) value) :
    b.factsIn table (cuts ++ [.point d.name name (path ++ [value])]) =
      .ok ((facts.filter fun fact => conditions.all (Predicate.holds table.columns fact)).filter
        fun fact => Cell.same value (fact.cell (b.compiler.column key))) := by
  have deeper := Compiler.pathConditions_append_value compiled down.below down.keyOfLevel
    stored.ne_wildcard
  have fits : (path ++ [value]).length ≤ h.levels.length := by
    rw [List.length_append, List.length_singleton]
    exact down.length_lt
  rw [factsIn_append_point restricted (resolved _) fits deeper, List.filter_filter]
  refine congrArg Except.ok (List.filter_congr fun fact _ => ?_)
  rw [List.all_append, List.all_cons, List.all_nil, Bool.and_true, Predicate.holds_equals stored,
    Bool.and_comm]

end Browser

end Olap
