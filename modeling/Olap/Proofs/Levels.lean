/-
The levels of hierarchies. A hierarchy is given levels by name when it becomes part of a dimension, and
from then on it has the dimension's own levels. So the levels of a hierarchy are found in the dimension
by their names, with the attributes that they have in the hierarchy. The hierarchies of a dimension are
found by their names as well, except for one without a name: no name finds it, and without a name the
default is found.
-/

import Mathlib
import Olap.Proofs.Drafts
import Olap.Proofs.Fields

namespace Olap

theorem allOf_map_ok {α β γ : Type} {f : α → Result β} {items : List γ} {make : γ → α}
    {result : γ → β} (each : ∀ item ∈ items, f (make item) = .ok (result item)) :
    allOf f (items.map make) = .ok (items.map result) := by
  induction items with
  | nil => rfl
  | cons item rest inductionHypothesis =>
    exact allOf_cons_ok.2 ⟨_, _, each item List.mem_cons_self,
      inductionHypothesis fun other member => each other (List.mem_cons_of_mem _ member), rfl⟩

theorem allOf_of_each {α β : Type} {f : α → Result β} {items : List α} {g : α → β}
    (each : ∀ item ∈ items, f item = .ok (g item)) : allOf f items = .ok (items.map g) :=
  (congrArg (allOf f) (List.map_id items)).symm.trans (allOf_map_ok each)

theorem exists_of_mem_allOf {α β : Type} {f : α → Result β} {items : List α} {found : List β}
    (all : allOf f items = .ok found) {b : β} (member : b ∈ found) :
    ∃ item ∈ items, f item = .ok b := by
  induction items generalizing found with
  | nil =>
    cases all
    cases member
  | cons item rest inductionHypothesis =>
    obtain ⟨first, others, head, tail, rfl⟩ := allOf_cons_ok.1 all
    rcases List.mem_cons.mp member with rfl | later
    · exact ⟨item, List.mem_cons_self, head⟩
    · obtain ⟨other, otherMember, same⟩ := inductionHypothesis tail later
      exact ⟨other, List.mem_cons_of_mem _ otherMember, same⟩

/-- What is kept of every item is kept of all of them. -/
theorem map_eq_of_allOf {α β γ : Type} {f : α → Result β} (before : α → γ) (after : β → γ)
    (keeps : ∀ item b, f item = .ok b → after b = before item) {items : List α} {found : List β}
    (all : allOf f items = .ok found) : found.map after = items.map before := by
  induction items generalizing found with
  | nil =>
    cases all
    rfl
  | cons item rest inductionHypothesis =>
    obtain ⟨first, others, head, tail, rfl⟩ := allOf_cons_ok.1 all
    rw [List.map_cons, List.map_cons, keeps item first head, inductionHypothesis tail]

theorem nodup_of_hasRepeats {names : List (Option String)} (once : hasRepeats names = false) :
    names.Nodup := by
  induction names with
  | nil => exact List.nodup_nil
  | cons name rest inductionHypothesis =>
    rw [hasRepeats, Bool.or_eq_false_iff] at once
    exact List.nodup_cons.mpr ⟨by simpa using once.1, inductionHypothesis once.2⟩

/-! ### Keys of levels -/

namespace Level

theorem attributeNamed_mem {level : Level} {name : Description} {a : Attribute}
    (found : level.attributeNamed name = .ok a) : a ∈ level.attributes := by
  unfold attributeNamed at found
  split at found
  · rename_i looked
    cases found
    exact List.mem_of_find?_eq_some looked
  · cases found

theorem attributeNamed_name {level : Level} {name : String} {a : Attribute}
    (found : level.attributeNamed (.text name) = .ok a) : a.name = some name := by
  unfold attributeNamed at found
  split at found
  · rename_i looked
    cases found
    have named := List.find?_some looked
    exact beq_iff_eq.mp named
  · cases found

theorem keyAttribute_mem {level : Level} {key : Attribute} (keyed : level.keyAttribute = .ok key) :
    key ∈ level.attributes := attributeNamed_mem keyed

/-- The keys of levels are among their attributes. -/
theorem keys_subset {levels : List Level} {keys : List Attribute}
    (keyed : allOf keyAttribute levels = .ok keys) :
    ∀ key ∈ keys, key ∈ levels.flatMap (·.attributes) := by
  intro key member
  obtain ⟨level, levelMember, found⟩ := exists_of_mem_allOf keyed member
  exact List.mem_flatMap.mpr ⟨level, levelMember, keyAttribute_mem found⟩

theorem length_keys {levels : List Level} {keys : List Attribute}
    (keyed : allOf keyAttribute levels = .ok keys) : keys.length = levels.length := by
  have same := map_eq_of_allOf (fun _ => ()) (fun _ => ()) (fun _ _ _ => rfl) keyed
  simpa using congrArg List.length same

end Level

namespace Hierarchy

variable {dimension : String} {own : List Level} {h : Hierarchy}

/-! ### Hierarchies of a dimension -/

theorem find?_of_mem_resolve {levels found : List Level}
    (resolved : h.resolve dimension own levels = .ok found) {level : Level}
    (member : level ∈ found) : own.find? (·.name == level.name) = some level := by
  induction levels generalizing found with
  | nil =>
    cases resolved
    cases member
  | cons first rest inductionHypothesis =>
    unfold resolve at resolved
    cases looked : own.find? (·.name == first.name) with
    | none =>
      rw [looked] at resolved
      cases resolved
    | some known =>
      rw [looked] at resolved
      obtain ⟨others, below, rfl⟩ := Result.map_ok.1 resolved
      rcases List.mem_cons.mp member with rfl | later
      · have same := List.find?_some looked
        rw [beq_iff_eq] at same
        rw [same]
        exact looked
      · exact inductionHypothesis below later

/-- A hierarchy keeps its name when it is given to a dimension, and gets levels of the dimension. -/
theorem attach_ok {attached : Hierarchy} (made : attach dimension own h = .ok attached) :
    attached.name = h.name ∧
      ∀ level ∈ attached.levels, own.find? (·.name == level.name) = some level := by
  obtain ⟨levels, resolved, rfl⟩ := Result.map_ok.1 made
  exact ⟨rfl, fun level member => find?_of_mem_resolve resolved member⟩

end Hierarchy

namespace Dimension

variable {draft : Draft} {d : Dimension} {h : Hierarchy}

/-- The levels of a hierarchy of a dimension are found in the dimension by their names. -/
theorem find?_of_mem_levels (made : ofDraft draft = .ok d) (declared : h ∈ d.hierarchies)
    {level : Level} (member : level ∈ h.levels) :
    d.levels.find? (·.name == level.name) = some level := by
  obtain ⟨-, -, -, -, -, all, -, -⟩ := ofDraft_ok.1 made
  obtain ⟨other, -, attached⟩ := exists_of_mem_allOf all declared
  exact (Hierarchy.attach_ok attached).2 level member

/-- The hierarchies of a dimension have different names. -/
theorem nodup_hierarchyNames (made : ofDraft draft = .ok d) :
    (d.hierarchies.map (·.name)).Nodup := by
  obtain ⟨-, -, unrepeated, -, -, all, -, -⟩ := ofDraft_ok.1 made
  rw [map_eq_of_allOf _ _ (fun _ _ attached => (Hierarchy.attach_ok attached).1) all]
  exact nodup_of_hasRepeats unrepeated

/-- A hierarchy of a dimension is found by its name; without a name it has to be the default. -/
theorem hierarchy_of_mem (made : ofDraft draft = .ok d) (declared : h ∈ d.hierarchies)
    (settled : h.name = none → d.defaultHierarchy = .ok h) :
    d.hierarchy (.ofOption h.name) = .ok h := by
  have looked := find?_of_mem_of_nodup (nodup_hierarchyNames made) declared
  cases named : h.name with
  | none => exact settled named
  | some name =>
    rw [named] at looked
    show d.hierarchy (.text name) = .ok h
    unfold hierarchy
    dsimp only
    rw [show d.hierarchies.find? (isNamed ·.name (Description.hierarchyName (.text name))) =
      some h from looked]

/-- A level is answered by its name, and even without one. -/
theorem level_ofOption {level : Level}
    (first : d.levels.find? (·.name == level.name) = some level) :
    d.level (.ofOption level.name) = .ok level := by
  have named (own : Option String) :
      isNamed own (Description.levelName (.ofOption level.name)) = (own == level.name) := by
    cases level.name with
    | none => cases own <;> rfl
    | some => rfl
  unfold Dimension.level
  simp only [named, first]

/-- The attributes of levels of a dimension are found by the names of the levels. -/
theorem levelAttributes_eq {levels : List Level} {names : List String}
    (own : ∀ level ∈ levels, d.levels.find? (·.name == level.name) = some level)
    (named : levels.map (·.name) = names.map some) :
    Compiler.levelAttributes d names = .ok (levels.flatMap (·.attributes)) := by
  induction names generalizing levels with
  | nil =>
    rw [List.map_nil, List.map_eq_nil_iff] at named
    rw [named]
    rfl
  | cons name rest inductionHypothesis =>
    cases levels with
    | nil => cases named
    | cons level others =>
      obtain ⟨same, below⟩ := List.cons.inj named
      have looked := level_ofOption (own level List.mem_cons_self)
      rw [show level.name = some name from same] at looked
      unfold Compiler.levelAttributes
      rw [show d.level (.text name) = .ok level from looked]
      refine Result.bind_ok.2 ⟨level, rfl, Result.bind_ok.2 ⟨_, inductionHypothesis
        (fun other among => own other (List.mem_cons_of_mem _ among)) below, ?_⟩⟩
      rw [List.flatMap_cons]
      rfl

end Dimension

end Olap
