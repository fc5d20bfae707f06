/-
Documents option by option. The options of a section are expanded one by one, and the sections one by one,
until one can not be; what is found under a name then is what its own value was expanded to. Options without
percent signs stay what they are.
-/

import Mathlib
import Olap.Ini.Basic
import Olap.Proofs.Fields
import Olap.Proofs.Templates

namespace Olap

namespace Ini

/-! ### Documents and their options -/

/-- What is made of all values of a record, unless something can not be made. -/
def makeAll {β γ : Type} (make : β → Except Outside γ) :
    List (String × β) → Except Outside (List (String × γ))
  | [] => .ok []
  | (name, value) :: rest =>
    match make value with
    | .error failure => .error failure
    | .ok made => (makeAll make rest).map ((name, made) :: ·)

section MakeAll

variable {β γ : Type} {make : β → Except Outside γ}

theorem exists_makeAll_iff {fields : List (String × β)} :
    (∃ found, makeAll make fields = .ok found) ↔ ∀ field ∈ fields, ∃ made, make field.2 = .ok made := by
  induction fields with
  | nil => simp [makeAll]
  | cons field rest inductionHypothesis =>
    rw [List.forall_mem_cons, ← inductionHypothesis, makeAll]
    cases make field.2 <;> cases makeAll make rest <;> simp [Except.map]

/-- What fails is the first that can not be made. -/
theorem exists_of_makeAll_error {fields : List (String × β)} {failure : Outside}
    (failed : makeAll make fields = .error failure) : ∃ field ∈ fields, make field.2 = .error failure := by
  induction fields with
  | nil => cases failed
  | cons field rest inductionHypothesis =>
    rw [makeAll] at failed
    cases made : make field.2 with
    | error other =>
      rw [made] at failed
      cases failed
      exact ⟨field, List.mem_cons_self, made⟩
    | ok value =>
      rw [made] at failed
      cases later : makeAll make rest with
      | error other =>
        rw [later] at failed
        cases failed
        obtain ⟨lost, member, same⟩ := inductionHypothesis later
        exact ⟨lost, List.mem_cons_of_mem _ member, same⟩
      | ok found =>
        rw [later] at failed
        cases failed

theorem exists_get?_of_makeAll {fields : List (String × β)} {found : List (String × γ)}
    (made : makeAll make fields = .ok found) {key : String} {value : β}
    (given : Record.get? fields key = some value) :
    ∃ result, make value = .ok result ∧ Record.get? found key = some result := by
  induction fields generalizing found with
  | nil => cases given
  | cons field rest inductionHypothesis =>
    obtain ⟨name, first⟩ := field
    rw [makeAll] at made
    cases here : make first with
    | error failure => simp [here] at made
    | ok result =>
      cases later : makeAll make rest with
      | error failure => simp [here, later, Except.map] at made
      | ok others =>
        simp only [here, later, Except.map, Except.ok.injEq] at made
        rw [← made, Record.get?_cons]
        rw [Record.get?_cons] at given
        split at given
        · rename_i same
          cases given
          exact ⟨result, here, if_pos same⟩
        · rename_i other
          rw [if_neg other]
          exact inductionHypothesis later given

theorem makeAll_of_kept {keep : β → Except Outside β} {fields : List (String × β)}
    (kept : ∀ field ∈ fields, keep field.2 = .ok field.2) : makeAll keep fields = .ok fields := by
  induction fields with
  | nil => rfl
  | cons field rest inductionHypothesis =>
    obtain ⟨here, later⟩ := List.forall_mem_cons.1 kept
    rw [makeAll, here, inductionHypothesis later]
    rfl

end MakeAll

theorem expandAll_eq_makeAll (values options : List (String × String)) :
    expandAll values options = makeAll (Template.expand (Record.get? values)) options := by
  induction options with
  | nil => rfl
  | cons option rest inductionHypothesis =>
    rw [expandAll, makeAll, inductionHypothesis]
    cases Template.expand (Record.get? values) option.2 <;> rfl

theorem allOptions_eq_makeAll (document : Ini) (blocks : List (String × List (String × String))) :
    document.allOptions blocks = makeAll document.options blocks := by
  induction blocks with
  | nil => rfl
  | cons block rest inductionHypothesis =>
    rw [allOptions, makeAll, inductionHypothesis]
    cases document.options block.2 <;> rfl

/-- In a document without defaults, a section has its own options only. -/
theorem options_ofSections (blocks : List (String × List (String × String))) {own : List (String × String)}
    (distinct : (Record.keys own).Nodup) :
    (ofSections blocks).options own = makeAll (Template.expand (Record.get? own)) own := by
  have written : (ofSections blocks).written own = own := Record.ofPairs_of_nodup distinct
  rw [options, written, expandAll_eq_makeAll]

theorem options_ofSections_plain (blocks : List (String × List (String × String)))
    {own : List (String × String)} (distinct : (Record.keys own).Nodup)
    (plain : ∀ option ∈ own, '%' ∉ option.2.toList) : (ofSections blocks).options own = .ok own := by
  rw [options_ofSections blocks distinct]
  exact makeAll_of_kept fun option member => Template.expand_plain _ (plain option member)

theorem dropDoubled_plain {text : List Char} (plain : '%' ∉ text) : Template.dropDoubled text = text := by
  fun_induction Template.dropDoubled text with
  | case1 rest => exact absurd List.mem_cons_self plain
  | case2 c rest _ inductionHypothesis =>
    rw [inductionHypothesis fun member => plain (List.mem_cons_of_mem c member)]
  | case3 => rfl

/-- A text without percent signs is accepted as a template. -/
theorem isAccepted_plain {text : String} (plain : '%' ∉ text.toList) : Template.isAccepted text = true := by
  rw [Template.isAccepted, dropDoubled_plain plain, Template.pieces_plain plain, List.all_map,
    List.all_eq_true]
  intro c _
  rfl

end Ini

end Olap
