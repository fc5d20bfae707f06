/-
What becomes of templates. References can be replaced exactly when every one of them leads to an option, at
most to the bounded depth, and no percent sign strays on the way; else the failure is one of three. And
replacing them uses percent signs up: a text that holds any comes out with fewer, unless the texts that it
refers to bring some in. So among options that refer to each other only, none with a percent sign stays as
it is written.
-/

import Mathlib
import Olap.Ini.Template

namespace Olap.Template

/-! ### References that can be replaced -/

/-- What a reference is replaced by. -/
def refer (values : String → Option String) (depth : Nat) (name : String) : Except Outside (List Char) :=
  match values (Text.lower name) with
  | none => .error .interpolationMissing
  | some value => if value.toList.contains '%' then expandTo values depth value.toList else .ok value.toList

theorem expandTo_succ (values : String → Option String) (depth : Nat) (template : List Char) :
    expandTo values (depth + 1) template = fill (refer values depth) (pieces template) := rfl

/-- The text of a template is what its characters are expanded to. -/
theorem expandTo_of_expand {values : String → Option String} {template text : String}
    (expanded : expand values template = .ok text) :
    expandTo values maxDepth template.toList = .ok text.toList := by
  unfold expand at expanded
  cases letters : expandTo values maxDepth template.toList with
  | error failure =>
    rw [letters] at expanded
    cases expanded
  | ok found =>
    rw [letters] at expanded
    rw [← Except.ok.inj expanded, String.toList_ofList]

/-- All references of a template, and those of the values that they lead to, lead to values, and no percent
sign strays. -/
def IsResolvable (values : String → Option String) : (depth : Nat) → (template : List Char) → Prop
  | 0, _ => False
  | depth + 1, template =>
    .stray ∉ pieces template ∧ ∀ name, .reference name ∈ pieces template →
      ∃ value, values (Text.lower name) = some value ∧
        ('%' ∈ value.toList → IsResolvable values depth value.toList)

theorem exists_fill_iff {find : String → Except Outside (List Char)} {parts : List Piece} :
    (∃ text, fill find parts = .ok text) ↔
      .stray ∉ parts ∧ ∀ name, .reference name ∈ parts → ∃ value, find name = .ok value := by
  induction parts with
  | nil => simp [fill]
  | cons part rest inductionHypothesis =>
    cases part with
    | char c =>
      simp only [List.mem_cons, reduceCtorEq, false_or, ← inductionHypothesis, fill]
      cases fill find rest <;> simp
    | reference name =>
      simp only [List.mem_cons, reduceCtorEq, Piece.reference.injEq, false_or, forall_eq_or_imp, fill]
      rw [← and_left_comm, ← inductionHypothesis]
      cases find name <;> cases fill find rest <;> simp
    | stray => simp [fill]

theorem refer_of_missing {values : String → Option String} {name : String}
    (missing : values (Text.lower name) = none) (depth : Nat) :
    refer values depth name = .error .interpolationMissing := by
  unfold refer
  rw [missing]

theorem refer_of_plain {values : String → Option String} {name value : String}
    (found : values (Text.lower name) = some value) (plain : '%' ∉ value.toList) (depth : Nat) :
    refer values depth name = .ok value.toList := by
  unfold refer
  rw [found]
  exact if_neg (by simpa using plain)

theorem refer_of_marked {values : String → Option String} {name value : String}
    (found : values (Text.lower name) = some value) (marked : '%' ∈ value.toList) (depth : Nat) :
    refer values depth name = expandTo values depth value.toList := by
  unfold refer
  rw [found]
  exact if_pos (by simpa using marked)

/-- References can be replaced exactly when all of them lead to something. -/
theorem exists_expandTo_iff {values : String → Option String} {depth : Nat} {template : List Char} :
    (∃ text, expandTo values depth template = .ok text) ↔ IsResolvable values depth template := by
  induction depth generalizing template with
  | zero => simp [expandTo, IsResolvable]
  | succ depth inductionHypothesis =>
    rw [expandTo_succ, exists_fill_iff, IsResolvable]
    refine and_congr_right fun _ => forall₂_congr fun name _ => ?_
    cases found : values (Text.lower name) with
    | none => simp [refer_of_missing found]
    | some value =>
      by_cases marked : '%' ∈ value.toList
      · simp [refer_of_marked found marked, inductionHypothesis, marked]
      · simp [refer_of_plain found marked, marked]

/-- The failures of templates. -/
def failures : List Outside := [.interpolationSyntax, .interpolationMissing, .interpolationDepth]

theorem mem_failures_of_fill {find : String → Except Outside (List Char)} {parts : List Piece}
    {failure : Outside} (known : ∀ name other, find name = .error other → other ∈ failures)
    (failed : fill find parts = .error failure) : failure ∈ failures := by
  induction parts with
  | nil => cases failed
  | cons part rest inductionHypothesis =>
    cases part with
    | char c =>
      rw [fill] at failed
      cases filled : fill find rest with
      | ok text => simp [filled] at failed
      | error other =>
        rw [filled] at failed
        exact inductionHypothesis (filled.trans failed)
    | reference name =>
      rw [fill] at failed
      cases found : find name with
      | error other =>
        rw [found] at failed
        exact Except.error.inj failed ▸ known name other found
      | ok value =>
        rw [found] at failed
        cases filled : fill find rest with
        | ok text => simp [filled] at failed
        | error other =>
          simp only [filled] at failed
          exact inductionHypothesis (filled.trans failed)
    | stray =>
      rw [fill] at failed
      exact Except.error.inj failed ▸ by decide

theorem mem_failures_of_expandTo {values : String → Option String} {depth : Nat} {template : List Char}
    {failure : Outside} (failed : expandTo values depth template = .error failure) : failure ∈ failures := by
  induction depth generalizing template failure with
  | zero => exact Except.error.inj failed ▸ by decide
  | succ depth inductionHypothesis =>
    rw [expandTo_succ] at failed
    refine mem_failures_of_fill (fun name other missed => ?_) failed
    cases found : values (Text.lower name) with
    | none =>
      rw [refer_of_missing found] at missed
      exact Except.error.inj missed ▸ by decide
    | some value =>
      by_cases marked : '%' ∈ value.toList
      · exact inductionHypothesis ((refer_of_marked found marked depth).symm.trans missed)
      · rw [refer_of_plain found marked] at missed
        cases missed

/-! ### Percent signs -/

/-- How many percent signs parts stand for, apart from what they refer to. -/
def percents (parts : List Piece) : Nat := parts.count (.char '%')

@[simp] theorem percents_nil : percents [] = 0 := rfl

@[simp] theorem percents_char (c : Char) (rest : List Piece) :
    percents (.char c :: rest) = percents rest + if c = '%' then 1 else 0 := by
  simp [percents, List.count_cons]

@[simp] theorem percents_reference (name : String) (rest : List Piece) :
    percents (.reference name :: rest) = percents rest := by
  simp [percents]

theorem count_percent_cons (c : Char) (text : List Char) :
    (c :: text).count '%' = text.count '%' + if c = '%' then 1 else 0 := by
  simp [List.count_cons]

/-- Parts stand for at most the percent signs that are written, and outside a reference for fewer if any
are written: one of two that are doubled is lost, and so is the one that begins a reference. -/
theorem percents_scan {name : Option (List Char)} {template : List Char}
    (steady : .stray ∉ scan name template) :
    percents (scan name template) ≤ template.count '%' ∧
      (name = none → '%' ∈ template → percents (scan name template) < template.count '%') := by
  fun_induction scan name template with
  | case1 => simp
  | case2 rest inductionHypothesis =>
    have later := inductionHypothesis (fun stray => steady (List.mem_cons_of_mem _ stray))
    simp only [percents_char, count_percent_cons, if_true]
    exact ⟨by omega, fun _ _ => by omega⟩
  | case3 rest inductionHypothesis =>
    have later := inductionHypothesis steady
    simp only [count_percent_cons, if_true]
    exact ⟨by omega, fun _ _ => by omega⟩
  | case5 c rest _ _ other inductionHypothesis =>
    have later := inductionHypothesis (fun stray => steady (List.mem_cons_of_mem _ stray))
    simp only [percents_char, count_percent_cons, if_neg other, List.mem_cons]
    refine ⟨by omega, fun _ marked => ?_⟩
    exact later.2 rfl (marked.resolve_left fun equal => other equal.symm)
  | case7 name rest filled inductionHypothesis =>
    have later := inductionHypothesis (fun stray => steady (List.mem_cons_of_mem _ stray))
    simp only [percents_reference, count_percent_cons]
    exact ⟨by omega, nofun⟩
  | case9 name c rest _ _ inductionHypothesis =>
    have later := inductionHypothesis steady
    simp only [count_percent_cons]
    exact ⟨by omega, nofun⟩
  | case4 | case6 | case8 | case10 => exact absurd List.mem_cons_self steady

theorem count_fill {find : String → Except Outside (List Char)} {parts : List Piece} {text : List Char}
    (plain : ∀ name value, .reference name ∈ parts → find name = .ok value → '%' ∉ value)
    (filled : fill find parts = .ok text) : text.count '%' = percents parts := by
  induction parts generalizing text with
  | nil => exact Except.ok.inj filled ▸ rfl
  | cons part rest inductionHypothesis =>
    have later {text : List Char} (filled : fill find rest = .ok text) : text.count '%' = percents rest :=
      inductionHypothesis (fun name value member => plain name value (List.mem_cons_of_mem _ member)) filled
    cases part with
    | char c =>
      rw [fill] at filled
      cases rested : fill find rest with
      | error failure => simp [rested] at filled
      | ok text =>
        simp only [rested] at filled
        rw [← Except.ok.inj filled, count_percent_cons, percents_char, later rested]
    | reference name =>
      rw [fill] at filled
      cases found : find name with
      | error failure => simp [found] at filled
      | ok value =>
        cases rested : fill find rest with
        | error failure => simp [found, rested] at filled
        | ok text =>
          simp only [found, rested] at filled
          rw [← Except.ok.inj filled, List.count_append, percents_reference, later rested,
            List.count_eq_zero.2 (plain name value List.mem_cons_self found), Nat.zero_add]
    | stray => cases filled

/-- A template of which all references lead to values without percent signs comes out with fewer of them,
if it has any. -/
theorem count_expandTo_lt {values : String → Option String} {depth : Nat} {template text : List Char}
    (plain : ∀ name value, .reference name ∈ pieces template → values (Text.lower name) = some value →
      '%' ∉ value.toList)
    (marked : '%' ∈ template) (expanded : expandTo values (depth + 1) template = .ok text) :
    text.count '%' < template.count '%' := by
  rw [expandTo_succ] at expanded
  have steady := (exists_fill_iff.1 ⟨text, expanded⟩).1
  rw [count_fill (fun name value member found => ?_) expanded]
  · exact (percents_scan steady).2 rfl marked
  · cases led : values (Text.lower name) with
    | none => exact nomatch (refer_of_missing led depth).symm.trans found
    | some target =>
      have clear := plain name target member led
      exact Except.ok.inj ((refer_of_plain led clear depth).symm.trans found) ▸ clear

/-- Where every option comes out with as many percent signs as it is written with, none has any. What can be
expanded to some depth refers to options that can be expanded to a lesser one, which have none. -/
theorem plain_of_count {values : String → Option String}
    (kept : ∀ key value, values key = some value →
      ∃ text, expandTo values maxDepth value.toList = .ok text ∧
        text.count '%' = value.toList.count '%')
    {key value : String} (found : values key = some value) : '%' ∉ value.toList := by
  have resolvable : ∀ depth key value, values key = some value →
      IsResolvable values depth value.toList → '%' ∉ value.toList := by
    intro depth
    induction depth with
    | zero => exact fun _ _ _ impossible => impossible.elim
    | succ depth inductionHypothesis =>
      intro key value found lasting marked
      obtain ⟨text, expanded, same⟩ := kept key value found
      refine (count_expandTo_lt (fun name target member led bears => ?_) marked expanded).ne same
      obtain ⟨other, ledAgain, further⟩ := lasting.2 name member
      obtain rfl : other = target := Option.some.inj (ledAgain.symm.trans led)
      exact inductionHypothesis _ other led (further bears) bears
  obtain ⟨text, expanded, -⟩ := kept key value found
  exact resolvable maxDepth key value found (exists_expandTo_iff.1 ⟨text, expanded⟩)

end Olap.Template
