/-
How deep paths go. A path has a value for each of the first levels of a hierarchy, so all that is asked
about a path and a hierarchy is arithmetic of its length and of the places of levels: the levels that it
has values for, the level after it, whether there is one, and the part of it that leads to a level. Each
of these compares lengths for itself. They agree because no two levels of a hierarchy have one name, so
that a level has one place and is found there.
-/

import Mathlib
import Olap.Proofs.Hierarchies
import Olap.Proofs.Selections

namespace Olap

/-- Ending in an error about depth. -/
def Result.IsTooDeep {β : Type} (result : Result β) : Prop :=
  ∃ p : Problem, result = .error (.problem p) ∧ p.kind = .depth

theorem Result.not_isTooDeep_ok {β : Type} (b : β) : ¬IsTooDeep (.ok b) :=
  fun ⟨_, failed, _⟩ => nomatch failed

/-- What stands for a level where one is asked for: its name, or a level of its name. -/
def Level.IsMeantBy (level : Level) (wanted : Description) : Prop :=
  wanted.isTruthy = true ∧ isNamed level.name wanted.levelName = true

theorem Level.isMeantBy_self (level : Level) : level.IsMeantBy (.object (.level level)) := by
  refine ⟨rfl, ?_⟩
  show isNamed level.name (.ofOption level.name) = true
  rw [isNamed_ofOption_eq, beq_self_eq_true]

theorem Level.isMeantBy_name {level : Level} {name : String} (named : level.name = some name)
    (filled : name ≠ "") : level.IsMeantBy (.text name) := by
  refine ⟨by simpa [Datum.isTruthy] using filled, ?_⟩
  rw [named]
  exact beq_self_eq_true (some name)

/-- A description is the name of one thing only. -/
theorem eq_of_isNamed {own other : Option String} {wanted : Description}
    (named : isNamed own wanted = true) (again : isNamed other wanted = true) : own = other := by
  cases wanted with
  | null => exact (Option.isNone_iff_eq_none.mp named).trans (Option.isNone_iff_eq_none.mp again).symm
  | text | direction => exact (beq_iff_eq.mp named).trans (beq_iff_eq.mp again).symm
  | _ => cases named

namespace Hierarchy

/-- How hierarchies come about. One is described, one is given to a dimension, whose levels take the
place of those that it was described with, and one is made of the only level of a dimension. -/
inductive IsMade : Hierarchy → Prop
  | described {fields : Fields Part} {h : Hierarchy} (made : ofFields fields = .ok h) : IsMade h
  | attached {dimension : String} {own : List Level} {before h : Hierarchy} (made : IsMade before)
      (given : attach dimension own before = .ok h) : IsMade h
  | flat (d : Dimension) (level : Level) : IsMade (d.flatHierarchy level)

variable {h : Hierarchy} {level : Level} {place : Nat} {wanted : Description} {path part : List Value}

/-- However a hierarchy came about, its levels have different names. -/
theorem IsMade.once (made : h.IsMade) : h.levelNames.Nodup := by
  induction made with
  | described made => exact nodup_of_hasRepeats (isSettled_ofFields made).once
  | attached made given once =>
    obtain ⟨levels, resolved, rfl⟩ := Result.map_ok.1 given
    exact (congrArg List.Nodup (names_of_resolve resolved)).mpr once
  | flat => exact List.nodup_singleton _

end Hierarchy

/-- All hierarchies of a dimension that is made of data came about in one of these ways. -/
theorem Dimension.isMade_of_hierarchy {given : Description} (plain : given.IsPlain) {d : Dimension}
    (made : ofDescription given [] = .ok d) {name : Description} {h : Hierarchy}
    (found : d.hierarchy name = .ok h) : h.IsMade := by
  rcases mem_of_hierarchy found with declared | ⟨level, -, rfl⟩
  · obtain ⟨fields, built, data⟩ := exists_fields_of_ofDescription made
    obtain ⟨draft, checked, completed⟩ := ofFields_ok.1 built
    obtain ⟨-, -, -, ordered, -, -⟩ := checkDraft_ok.1 checked
    obtain ⟨-, -, -, -, -, attached, -, -⟩ := ofDraft_ok.1 completed
    obtain ⟨before, member, given⟩ := exists_of_mem_allOf attached declared
    refine .attached ?_ given
    refine forall_mem_of_entries (data plain) (fun _ _ => checkHierarchies_ok.1) ?_ ordered before
      member
    rintro entry b entryPlain read
    cases entry with
    | record fields => exact .described read
    | object => exact absurd entryPlain Datum.not_isPlain_object
    | _ => cases read
  · exact .flat d level

namespace Hierarchy

variable {h : Hierarchy} {level : Level} {place : Nat} {wanted : Description} {path part : List Value}

/-! ### Places of levels -/

theorem exists_place (member : level ∈ h.levels) : ∃ place : Nat, h.levels[place]? = some level :=
  List.mem_iff_getElem?.mp member

/-- A level is found at the place where it stands, since none before it has its name. -/
theorem levelIndex_eq (once : h.levelNames.Nodup) (stands : h.levels[place]? = some level)
    (meant : level.IsMeantBy wanted) : h.levelIndex wanted = .ok place := by
  obtain ⟨inside, rfl⟩ := List.getElem?_eq_some_iff.mp stands
  have first : h.levels.findIdx? (isNamed ·.name wanted.levelName) = some place := by
    refine List.findIdx?_eq_some_iff_getElem.mpr ⟨inside, meant.2, fun other earlier named => ?_⟩
    have before : other < h.levels.length := earlier.trans inside
    have same : h.levelNames[other]? = h.levelNames[place]? := by
      rw [levelNames, List.getElem?_map, List.getElem?_map, List.getElem?_eq_getElem before,
        List.getElem?_eq_getElem inside]
      exact congrArg some (eq_of_isNamed named meant.2)
    exact earlier.ne ((List.getElem?_inj (by simpa [levelNames] using before) once).mp same)
  unfold levelIndex
  rw [first]

/-! ### Levels of a path -/

theorem levelsForPath_eq (path : List Value) (drill : Bool) :
    h.levelsForPath path drill =
      if h.levels.length < path.length then fail (.depthTooDeep path.length h.levelNames h.name)
      else .ok (h.levels.take (if drill then path.length + 1 else path.length)) := by
  unfold levelsForPath levelsForDepth
  rw [if_neg (by omega)]
  simp only [Nat.cast_lt, Int.toNat_natCast]

/-- The values of a path lead down to a level. -/
def LeadsTo (h : Hierarchy) (path : List Value) (level : Level) : Prop :=
  ∃ levels, h.levelsForPath path false = .ok levels ∧ levels.getLast? = some level

/-- A path that leads to a level has as many values as there are levels down to it. -/
theorem leadsTo_iff (once : h.levelNames.Nodup) (stands : h.levels[place]? = some level) :
    h.LeadsTo path level ↔ path.length = place + 1 := by
  obtain ⟨inside, same⟩ := List.getElem?_eq_some_iff.mp stands
  constructor
  · rintro ⟨levels, taken, last⟩
    obtain ⟨fits, rfl⟩ := levelsForPath_ok.1 taken
    rw [List.getLast?_take] at last
    split at last
    · cases last
    · rename_i filled
      have before : path.length - 1 < h.levels.length := by omega
      rw [List.getElem?_eq_getElem before, Option.some_or, Option.some.injEq] at last
      have distinct : h.levels.Nodup := .of_map _ once
      have index := (List.Nodup.getElem_inj_iff distinct).mp (last.trans same.symm)
      omega
  · intro length
    refine ⟨h.levels.take path.length, levelsForPath_ok.2 ⟨by omega, rfl⟩, ?_⟩
    rw [List.getLast?_take, if_neg (by omega), length, Nat.add_sub_cancel, stands, Option.some_or]

/-! ### Parts of a path -/

/-- A path is cut off after the value for a level, which it has to have. -/
theorem rollup_eq (meant : level.IsMeantBy wanted) (indexed : h.levelIndex wanted = .ok place) :
    h.rollup path wanted =
      if path.length ≤ place then
        fail (.rollupTooDeep wanted.shown (Datum.list path : Value).quoted)
      else .ok (path.take (place + 1)) := by
  unfold rollup rollupTo
  rw [if_pos meant.1, indexed]
  by_cases short : path.length ≤ place
  · rw [if_pos short]
    dsimp only [bind, Except.bind]
    rw [if_pos (by omega)]
    rfl
  · rw [if_neg short]
    dsimp only [bind, Except.bind]
    rw [if_neg (by omega)]
    rfl

/-- What is left is the beginning of the path that leads to the level. -/
theorem rollup_ok (once : h.levelNames.Nodup) (stands : h.levels[place]? = some level)
    (meant : level.IsMeantBy wanted) :
    h.rollup path wanted = .ok part ↔ part <+: path ∧ h.LeadsTo part level := by
  rw [rollup_eq meant (levelIndex_eq once stands meant), leadsTo_iff once stands]
  split
  · rename_i short
    refine iff_of_false (fun failed => nomatch failed) ?_
    rintro ⟨beginning, length⟩
    have shorter := beginning.length_le
    omega
  · constructor
    · rintro ⟨⟩
      exact ⟨List.take_prefix _ _, by rw [List.length_take]; omega⟩
    · rintro ⟨beginning, length⟩
      rw [← length, ← List.prefix_iff_eq_take.mp beginning]

/-- Cutting off at two levels, first at the lower one, is cutting off at the upper one. -/
theorem rollup_rollup {upper : Level} {above : Description} {higher : Nat}
    (meant : level.IsMeantBy wanted) (indexed : h.levelIndex wanted = .ok place)
    (meantAbove : upper.IsMeantBy above) (indexedAbove : h.levelIndex above = .ok higher)
    (order : higher ≤ place) (rolled : h.rollup path wanted = .ok part) :
    h.rollup part above = h.rollup path above := by
  rw [rollup_eq meant indexed] at rolled
  split at rolled
  · cases rolled
  · rename_i reached
    cases rolled
    have length : (path.take (place + 1)).length = place + 1 := by
      rw [List.length_take]
      omega
    rw [rollup_eq meantAbove indexedAbove, rollup_eq meantAbove indexedAbove, if_neg (by omega),
      if_neg (by omega), List.take_take, Nat.min_eq_left (by omega)]

/-! ### Paths and levels -/

/-- Whatever is asked about a path along a hierarchy fits together. Beyond the last level there are no
levels of a path and none after it. Down to the last level, one level more is the level after the path,
whose place is the length of the path, and there is none exactly when the path is a base path. A path
is cut off at a level that it reaches and at no other; what is left is the beginning of the path that
leads to this level, and it makes no difference whether it is cut off once more further up. -/
theorem depths_agree (made : h.IsMade) (path : List Value) :
    (h.levels.length < path.length →
      (∀ drill, Result.IsTooDeep (h.levelsForPath path drill)) ∧
        Result.IsTooDeep (h.nextLevel path) ∧ h.pathIsBase path = false) ∧
    (path.length ≤ h.levels.length →
      ∃ levels next, h.levelsForPath path false = .ok levels ∧ h.nextLevel path = .ok next ∧
        h.levelsForPath path true = .ok (levels ++ next.toList) ∧
        (h.pathIsBase path = true ↔ next = none) ∧
        ∀ level ∈ next, ∀ wanted, level.IsMeantBy wanted →
          h.levelIndex wanted = .ok path.length) ∧
    ∀ level ∈ h.levels, ∀ wanted, level.IsMeantBy wanted →
      ∃ place, h.levelIndex wanted = .ok place ∧
        (Result.IsTooDeep (h.rollup path wanted) ↔ path.length ≤ place) ∧
        (place < path.length → ∃ part, h.rollup path wanted = .ok part) ∧
        (∀ part, h.rollup path wanted = .ok part ↔ part <+: path ∧ h.LeadsTo part level) ∧
        ∀ part, h.rollup path wanted = .ok part →
          ∀ upper ∈ h.levels, ∀ above, upper.IsMeantBy above →
            ∀ higher, h.levelIndex above = .ok higher → higher ≤ place →
              h.rollup part above = h.rollup path above := by
  refine ⟨fun beyond => ?_, fun within => ?_, fun level member wanted meant => ?_⟩
  · refine ⟨fun drill => ?_, ⟨_, if_pos beyond, rfl⟩, beq_eq_false_iff_ne.mpr beyond.ne'⟩
    rw [levelsForPath_eq, if_pos beyond]
    exact ⟨_, rfl, rfl⟩
  · refine ⟨_, h.levels[path.length]?, levelsForPath_ok.2 ⟨within, rfl⟩, if_neg within.not_gt, ?_,
      ?_, fun level stands wanted => levelIndex_eq made.once stands⟩
    · rw [levelsForPath_eq, if_neg within.not_gt, if_pos rfl, List.take_add_one]
    · rw [List.getElem?_eq_none_iff, pathIsBase, beq_iff_eq]
      omega
  · obtain ⟨place, stands⟩ := exists_place member
    have indexed := levelIndex_eq made.once stands meant
    refine ⟨place, indexed, ?_, fun reached => ?_, fun part => rollup_ok made.once stands meant, ?_⟩
    · rw [rollup_eq meant indexed]
      split
      · exact iff_of_true ⟨_, rfl, rfl⟩ ‹_›
      · exact iff_of_false (Result.not_isTooDeep_ok _) ‹_›
    · exact ⟨_, (rollup_eq meant indexed).trans (if_neg reached.not_ge)⟩
    · intro part rolled upper _ above meantAbove higher indexedAbove order
      exact rollup_rollup meant indexed meantAbove indexedAbove order rolled

/-- A country, a city of it, and a street, which is beyond the end. -/
theorem depths_agree_places :
    ∃ d h country, Dimension.ofDescription Dimension.places.lift [] = .ok d ∧
      d.hierarchy (.text "map") = .ok h ∧ h.IsMade ∧ country ∈ h.levels ∧
      country.IsMeantBy (.text "country") ∧
      Result.IsTooDeep (h.nextLevel [.text "AT", .text "Linz", .text "Hauptplatz"]) ∧
      (∃ levels next, h.levelsForPath [.text "AT"] true = .ok (levels ++ next.toList) ∧
        h.nextLevel [.text "AT"] = .ok next ∧ next.isSome = true) ∧
      h.rollup [.text "AT", .text "Linz"] (.text "country") = .ok [.text "AT"] ∧
      h.rollup [.text "AT", .text "Linz"] (.object (.level country)) = .ok [.text "AT"] ∧
      h.LeadsTo [.text "AT"] country := by
  obtain ⟨d, made⟩ : ∃ d, Dimension.ofDescription Dimension.places.lift [] = .ok d := ⟨_, rfl⟩
  obtain ⟨h, found⟩ : ∃ h, d.hierarchy (.text "map") = .ok h := by
    cases made
    exact ⟨_, rfl⟩
  have cameAbout : h.IsMade := Dimension.isMade_of_hierarchy ⟨Dimension.places, rfl⟩ made found
  obtain ⟨country, member, meant⟩ : ∃ country ∈ h.levels, country.IsMeantBy (.text "country") := by
    cases made
    cases found
    exact ⟨_, List.mem_cons_self, Level.isMeantBy_name rfl (by decide)⟩
  have count : h.levels.length = 2 := by
    cases made
    cases found
    rfl
  refine ⟨d, h, country, made, found, cameAbout, member, meant, ?_, ?_, ?_⟩
  · exact ((depths_agree cameAbout _).1 (by simp [count])).2.1
  · obtain ⟨levels, next, -, after, longer, base, -⟩ :=
      (depths_agree cameAbout [.text "AT"]).2.1 (by simp [count])
    refine ⟨levels, next, longer, after, Option.isSome_iff_ne_none.mpr fun none => ?_⟩
    simpa [pathIsBase, count] using base.mpr none
  · obtain ⟨place, -, -, -, rolled, -⟩ :=
      (depths_agree cameAbout [.text "AT", .text "Linz"]).2.2 country member _ meant
    have first : h.rollup [.text "AT", .text "Linz"] (.text "country") = .ok [.text "AT"] := by
      cases made
      cases found
      rfl
    obtain ⟨_, -, -, -, rolledToo, -⟩ := (depths_agree cameAbout [.text "AT", .text "Linz"]).2.2
      country member _ country.isMeantBy_self
    exact ⟨first, (rolledToo _).mpr ((rolled _).mp first), ((rolled _).mp first).2⟩

end Hierarchy

end Olap
