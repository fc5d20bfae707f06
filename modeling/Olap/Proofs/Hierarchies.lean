/-
Hierarchies of a dimension that is made of data. What a hierarchy is relied on for is seen to in three
places: levels get their defaults and are checked when they are made, a hierarchy is checked when it is
made, and the dimension puts its own levels in the place of those that the hierarchy was described with.
A dimension without hierarchies is its only level, of which a hierarchy is made when it is asked for. All
of it together is said here of any hierarchy that a dimension answers, and that nothing fails which is
computed of one.
-/

import Mathlib
import Olap.Proofs.Sound

namespace Olap

namespace Level

/-- The key of a settled level is the attribute of the name. -/
theorem IsSettled.exists_key {level : Level} (settled : level.IsSettled) :
    ∃ key ∈ level.attributes, level.keyAttribute = .ok key ∧ key.name = some level.key := by
  obtain ⟨key, found⟩ := settled.exists_keyAttribute
  exact ⟨key, keyAttribute_mem found, found, attributeNamed_name found⟩

theorem IsSettled.exists_label {level : Level} (settled : level.IsSettled) :
    ∃ label ∈ level.attributes,
      level.labelAttributeOf = .ok label ∧ label.name = some level.labelAttribute := by
  obtain ⟨label, found⟩ := settled.exists_labelAttribute
  exact ⟨label, attributeNamed_mem found, found, attributeNamed_name found⟩

end Level

namespace Dimension

variable {d : Dimension} {h : Hierarchy} {level : Level}

/-- A hierarchy of a dimension whose levels are the levels that the dimension has under their names, each
with a key and a label. Attributes are referred to by the names of the dimension and their own. -/
structure Arranges (d : Dimension) (h : Hierarchy) : Prop where
  filled : h.levels ≠ []
  distinct : h.levelNames.Nodup
  own : ∀ level ∈ h.levels, level ∈ d.levels ∧ d.level (.ofOption level.name) = .ok level
  keyed : ∀ level ∈ h.levels,
    ∃ key ∈ level.attributes, level.keyAttribute = .ok key ∧ key.name = some level.key
  labelled : ∀ level ∈ h.levels, ∃ label ∈ level.attributes,
    level.labelAttributeOf = .ok label ∧ label.name = some level.labelAttribute
  referred : ∀ a ∈ h.attributes, ∀ name, a.name = some name → a.ref = some (d.name ++ "." ++ name)

theorem IsSettled.level_eq (settled : d.IsSettled) (member : level ∈ d.levels) :
    d.level (.ofOption level.name) = .ok level :=
  level_ofOption (find?_of_mem_of_nodup (nodup_of_hasRepeats settled.levelsOnce) member)

/-- What is left to see to in a hierarchy, when the dimension is settled. -/
theorem IsSettled.arranges_of_subset (settled : d.IsSettled) (filled : h.levels ≠ [])
    (distinct : h.levelNames.Nodup) (own : h.levels ⊆ d.levels) : d.Arranges h where
  filled := filled
  distinct := distinct
  own level member := ⟨own member, settled.level_eq (own member)⟩
  keyed level member := (settled.levels level (own member)).1.exists_key
  labelled level member := (settled.levels level (own member)).1.exists_label
  referred a member name named := by
    obtain ⟨level, inside, among⟩ := List.mem_flatMap.mp member
    rw [settled.ref_eq (List.mem_flatMap.mpr ⟨level, own inside, among⟩), named]
    rfl

theorem IsSettled.arranges (settled : d.IsSettled) {name : Description}
    (found : d.hierarchy name = .ok h) : d.Arranges h := by
  refine settled.arranges_of_subset (settled.provides found).filled ?_ (settled.provides found).own
  rcases mem_of_hierarchy found with declared | ⟨level, -, rfl⟩
  · exact nodup_of_hasRepeats (settled.hierarchies h declared).1.once
  · exact List.nodup_singleton _

/-! ### What is computed of a hierarchy -/

/-- The keys of levels are found, and their references are put together of names. -/
theorem Arranges.keys_of_subset (arranges : d.Arranges h) {levels : List Level}
    (part : levels ⊆ h.levels) :
    ∃ keys, allOf Level.keyAttribute levels = .ok keys ∧
      keys.map (·.name) = levels.map (fun level => some level.key) ∧
      keys.map (·.ref) = levels.map fun level => some (d.name ++ "." ++ level.key) := by
  induction levels with
  | nil => exact ⟨[], rfl, rfl, rfl⟩
  | cons level rest inductionHypothesis =>
    obtain ⟨inside, below⟩ := List.cons_subset.mp part
    obtain ⟨key, member, found, named⟩ := arranges.keyed level inside
    obtain ⟨keys, others, names, refs⟩ := inductionHypothesis below
    have ref := arranges.referred key (List.mem_flatMap.mpr ⟨level, inside, member⟩) level.key named
    refine ⟨key :: keys, allOf_cons_ok.2 ⟨key, keys, found, others, rfl⟩, ?_, ?_⟩
    · rw [List.map_cons, List.map_cons, named, names]
    · rw [List.map_cons, List.map_cons, ref, refs]

/-- However many levels are asked for, they are some of the levels. -/
theorem leading_subset {β : Type} (count : Int) (items : List β) : leading count items ⊆ items := by
  unfold leading
  split <;> exact List.take_subset _ _

theorem Arranges.keys_eq (arranges : d.Arranges h) (depth : Option Int) :
    h.keys depth = .ok ((depth.elim h.levels fun depth => leading depth h.levels).map
      fun level => some (d.name ++ "." ++ level.key)) := by
  have part : (depth.elim h.levels fun depth => leading depth h.levels) ⊆ h.levels := by
    cases depth with
    | none => exact List.Subset.refl _
    | some depth => exact leading_subset depth h.levels
  obtain ⟨keys, found, -, refs⟩ := arranges.keys_of_subset part
  unfold Hierarchy.keys
  rw [found]
  exact congrArg Except.ok refs

/-- Every hierarchy that a dimension of data answers, be it described or made of the only level, has
levels of different names, which are the levels of the dimension with these names, with their keys,
labels and references. Keys and attributes of all of them, or of as many as are asked for, are found. -/
theorem arranges_of_hierarchy {given : Description} (plain : given.IsPlain)
    (made : ofDescription given [] = .ok d) {name : Description}
    (found : d.hierarchy name = .ok h) :
    d.Arranges h ∧
      (∃ keys, h.keyAttributes = .ok keys ∧
        keys.map (·.name) = h.levels.map fun level => some level.key) ∧
      (∀ depth, h.keys depth = .ok ((depth.elim h.levels fun depth => leading depth h.levels).map
        fun level => some (d.name ++ "." ++ level.key))) ∧
      d.allAttributes name = .ok (h.levels.flatMap (·.attributes)) := by
  have arranges := (isSettled_ofDescription plain made).arranges found
  obtain ⟨keys, all, names, -⟩ := arranges.keys_of_subset (List.Subset.refl _)
  refine ⟨arranges, ⟨keys, all, names⟩, arranges.keys_eq, ?_⟩
  unfold allAttributes
  rw [found]
  rfl

/-- Places, with a hierarchy that is described with a country that is unlike the own one. -/
def places : Value :=
  .record [("name", .text "place"),
    ("levels", .list [.record [("name", .text "country"),
      ("attributes", .list [.text "code", .text "title"])], .text "city"]),
    ("hierarchies", .list [.record [("name", .text "map"),
      ("levels", .list [.record [("name", .text "country"), ("attributes", .list [.text "flag"])],
        .text "city"])]])]

theorem arranges_of_hierarchy_places :
    ∃ d h, ofDescription places.lift [] = .ok d ∧ d.hierarchy (.text "map") = .ok h ∧ d.Arranges h ∧
      h.keys none = .ok [some "place.code", some "place.city"] ∧
      h.attributes.map (·.ref) = [some "place.code", some "place.title", some "place.city"] := by
  obtain ⟨d, made⟩ : ∃ d, ofDescription places.lift [] = .ok d := ⟨_, rfl⟩
  obtain ⟨h, found⟩ : ∃ h, d.hierarchy (.text "map") = .ok h := by
    cases made
    exact ⟨_, rfl⟩
  refine ⟨d, h, made, found, (arranges_of_hierarchy ⟨places, rfl⟩ made found).1, ?_, ?_⟩
  · cases made
    cases found
    rfl
  · cases made
    cases found
    rfl

end Dimension

end Olap
