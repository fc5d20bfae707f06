/-
Values of settings as texts. What is left of a text when the blanks around it are gone has none, so a text
that was taken for the value of a setting is taken for itself when it is read once more. The texts that
truth values and positive numbers are written as are read as these values again, a whole number if it has no
more digits than are read.
-/

import Mathlib
import Olap.Config
import Olap.Proofs.DecimalTexts
import Olap.Proofs.Drafts

namespace Olap

namespace Text

variable {drop : Char → Bool} {text : List Char}

/-! ### Trimming -/

/-- What is kept does not begin with what is dropped, and does not end with it. -/
theorem trimBy_trimBy (drop : Char → Bool) (text : List Char) :
    trimBy drop (trimBy drop text) = trimBy drop text := by
  have trims (text : List Char) : trimBy drop text = (text.dropWhile drop).rdropWhile drop := rfl
  have begun : (text.dropWhile drop).dropWhile drop = text.dropWhile drop := List.dropWhile_idempotent _ _
  have front : ((text.dropWhile drop).rdropWhile drop).dropWhile drop =
      (text.dropWhile drop).rdropWhile drop := by
    rw [List.dropWhile_eq_self_iff] at begun ⊢
    intro filled
    have same := (List.rdropWhile_prefix drop (text.dropWhile drop)).getElem filled
    rw [same]
    exact begun _
  rw [trims text, trims, front]
  exact List.rdropWhile_idempotent _ _

theorem dropWhile_of_kept (kept : ∀ c ∈ text, drop c = false) : text.dropWhile drop = text :=
  List.dropWhile_eq_self_iff.2 fun filled => by simp [kept _ (List.getElem_mem filled)]

theorem trimBy_of_kept (kept : ∀ c ∈ text, drop c = false) : trimBy drop text = text := by
  rw [trimBy, dropWhile_of_kept kept, dropWhile_of_kept fun c member => kept c (List.mem_reverse.1 member),
    List.reverse_reverse]

theorem count_dropWhile {c : Char} (kept : drop c = false) :
    (text.dropWhile drop).count c = text.count c := by
  have none : (text.takeWhile drop).count c = 0 := List.count_eq_zero.2 fun member => by
    rw [List.mem_takeWhile_imp member] at kept
    cases kept
  conv_rhs => rw [← List.takeWhile_append_dropWhile (p := drop) (l := text), List.count_append, none,
    Nat.zero_add]

theorem count_trimBy {c : Char} (kept : drop c = false) : (trimBy drop text).count c = text.count c := by
  rw [trimBy, List.count_reverse, count_dropWhile kept, List.count_reverse, count_dropWhile kept]

theorem strip_strip (s : String) : strip (strip s) = strip s := by
  rw [strip, strip, String.toList_ofList, trimBy_trimBy]

/-! ### Lower case -/

/-- Small letters of ASCII, and what is no letter, stay as they are. -/
theorem lowerAfter_of_small (before : Bool) (small : ∀ c ∈ text, c.toNat < 128 ∧ c.toLower = c) :
    lowerAfter before text = text := by
  induction text generalizing before with
  | nil => rfl
  | cons c rest inductionHypothesis =>
    obtain ⟨ascii, same⟩ := small c List.mem_cons_self
    have here : lowerChar c = [c] := by rw [lowerChar, if_pos ascii, same]
    rw [lowerAfter, if_neg (by omega), here, List.singleton_append,
      inductionHypothesis _ fun d member => small d (List.mem_cons_of_mem c member)]

end Text

/-! ### Texts of numbers -/

namespace Decimal

theorem of_mem_numerals {c : Char} (member : c ∈ numerals) : c.toNat < 128 ∧ c.toLower = c ∧
    Text.isBlank c = false ∧ Text.isWhiteSpace c = false ∧ c ≠ '_' ∧ c ≠ '%' := by
  have all : numerals.all (fun c => decide (c.toNat < 128 ∧ c.toLower = c ∧ Text.isBlank c = false ∧
      Text.isWhiteSpace c = false ∧ c ≠ '_' ∧ c ≠ '%')) = true := by decide
  exact of_decide_eq_true (List.all_eq_true.1 all c member)

variable {s : String}

theorem IsNumeral.strip_eq (number : IsNumeral s.toList) : Text.strip s = s := by
  rw [Text.strip, Text.trimBy_of_kept fun c member => (of_mem_numerals (number.numeral c member)).2.2.1,
    String.ofList_toList]

theorem IsNumeral.lower_eq (number : IsNumeral s.toList) : Text.lower s = s := by
  rw [Text.lower, Text.lowerAfter_of_small _ fun c member => ?_, String.ofList_toList]
  have known := of_mem_numerals (number.numeral c member)
  exact ⟨known.1, known.2.1⟩

theorem IsNumeral.not_mem_underscore (number : IsNumeral s.toList) : '_' ∉ s.toList := fun member =>
  (of_mem_numerals (number.numeral _ member)).2.2.2.2.1 rfl

theorem IsNumeral.not_mem_percent (number : IsNumeral s.toList) : '%' ∉ s.toList := fun member =>
  (of_mem_numerals (number.numeral _ member)).2.2.2.2.2 rfl

/-- No number is a word for a truth value. -/
theorem IsNumeral.not_mem_words (number : IsNumeral s.toList) :
    s ∉ Setting.trueWords ++ Setting.falseWords := by
  intro member
  have letters : ∀ word ∈ Setting.trueWords ++ Setting.falseWords, ∀ d < 10,
      word.toList.head? ≠ some (digitChar d) := by
    decide
  obtain ⟨d, rest, made, decimal⟩ := number.begins
  exact letters s member d decimal (by rw [made, List.head?_cons])

end Decimal

namespace Setting

variable {α : Type} {s : String}

theorem truthOf?_of_isNumeral (number : Decimal.IsNumeral s.toList) : truthOf? s = none := by
  have noWord := number.not_mem_words
  rw [List.mem_append, not_or] at noWord
  unfold truthOf?
  dsimp only
  rw [number.lower_eq, if_neg (by simpa using noWord.1), if_neg (by simpa using noWord.2)]

/-! ### Texts that stay what they are -/

/-- A text that is the value of a setting as it stands. -/
def IsKept (s : String) : Prop := (ofText s : Description) = .text s

theorem interpret_of_isKept (kept : IsKept s) : interpret (.text s) = (.text s : Description) := kept

/-- What a text is taken for when it is taken for a text. -/
theorem ofText_eq_text_iff {given : String} : (ofText given : Description) = .text s ↔
    Text.strip given = s ∧ s.isEmpty = false ∧ truthOf? s = none := by
  unfold ofText
  dsimp only
  constructor
  · intro taken
    split at taken
    · cases taken
    · rename_i filled
      unfold interpretWord at taken
      dsimp only at taken
      cases truth : truthOf? (Text.strip given) with
      | some b =>
        rw [truth] at taken
        cases taken
      | none =>
        rw [truth] at taken
        cases taken
        exact ⟨rfl, by simpa using filled, truth⟩
  · rintro ⟨rfl, filled, truth⟩
    rw [if_neg (by simp [filled]), interpretWord]
    simp only [truth, Option.elim_none]

theorem isKept_of_isNumeral (number : Decimal.IsNumeral s.toList) : IsKept s := by
  refine ofText_eq_text_iff.2 ⟨number.strip_eq, ?_, truthOf?_of_isNumeral number⟩
  obtain ⟨d, rest, made, -⟩ := number.begins
  rw [String.isEmpty_eq_false_iff]
  rintro rfl
  cases made

/-- A text that another one is taken for is kept. -/
theorem isKept_of_ofText {given : String} (taken : (ofText given : Description) = .text s) : IsKept s := by
  obtain ⟨rfl, filled, truth⟩ := ofText_eq_text_iff.1 taken
  exact ofText_eq_text_iff.2 ⟨Text.strip_strip given, filled, truth⟩

/-- A text that is taken for a setting has as many percent signs as the setting. -/
theorem count_of_ofText {given : String} (taken : (ofText given : Description) = .text s) :
    given.toList.count '%' = s.toList.count '%' := by
  obtain ⟨rfl, -, -⟩ := ofText_eq_text_iff.1 taken
  rw [Text.strip, String.toList_ofList, Text.count_trimBy (by decide)]

/-- A setting that is taken for a text was given as one. -/
theorem text?_interpret_eq_some_iff {d : Description} :
    (interpret d).text? = some s ↔
      ∃ given, d.text? = some given ∧ (ofText given : Description) = .text s := by
  unfold interpret
  cases found : d.text? with
  | none => simp [found]
  | some given =>
    dsimp only
    simp only [Option.some.injEq, exists_eq_left']
    constructor
    · intro taken
      unfold ofText interpretWord at taken ⊢
      dsimp only at taken ⊢
      split at taken
      · cases taken
      · rename_i filled
        rw [if_neg filled]
        cases truth : truthOf? (Text.strip given) with
        | none =>
          rw [truth] at taken
          cases taken
          rfl
        | some b =>
          rw [truth] at taken
          cases taken
    · intro taken
      rw [taken]
      rfl

theorem text_ok {d : Description} :
    (text d).result = .ok s ↔ ∃ given, d.text? = some given ∧ (ofText given : Description) = .text s := by
  rw [text, Olap.text_ok, text?_interpret_eq_some_iff]

theorem optionalText_ok_some {d : Description} :
    (optionalText d).result = .ok (some s) ↔
      ∃ given, d.text? = some given ∧ (ofText given : Description) = .text s := by
  rw [optionalText, Olap.optionalText_ok]
  simp only [reduceCtorEq, and_false, false_or, Option.some.injEq, exists_eq_right,
    text?_interpret_eq_some_iff]

/-! ### Values that are written -/

theorem bool_written (b : Bool) : (bool (.text (if b then "yes" else "no"))).result = .ok b := by
  cases b <;> rfl

theorem optionalText_written (kept : IsKept s) : (optionalText (.text s)).result = .ok (some s) :=
  optionalText_ok_some.2 ⟨s, rfl, kept⟩

/-- The text of a positive double is kept. -/
theorem isKept_showFloat {x : Float} (positive : (Number.int 0).less (.float x) = true) :
    IsKept (Decimal.showFloat x) := by
  rcases Decimal.showFloat_of_positive positive with ⟨number, -⟩ | ⟨infinite, -⟩
  · exact isKept_of_isNumeral number
  · rw [infinite]
    exact ofText_eq_text_iff.2 ⟨by decide, by decide, by decide⟩

/-- The text of a positive double is read as the double. -/
theorem floatText?_showFloat {x : Float} (positive : (Number.int 0).less (.float x) = true) :
    Coerce.floatText? (Decimal.showFloat x) = some x := by
  unfold Coerce.floatText?
  rcases Decimal.showFloat_of_positive positive with ⟨number, read⟩ | ⟨infinite, rfl⟩
  · have trimmed : Text.trimBy Text.isWhiteSpace (Decimal.showFloat x).toList = (Decimal.showFloat x).toList :=
      Text.trimBy_of_kept fun c member => (Decimal.of_mem_numerals (number.numeral c member)).2.2.2.1
    have joined : (Decimal.showFloat x).toList.contains '_' = false := by
      simpa using number.not_mem_underscore
    have unsigned : Decimal.takeSign (Decimal.showFloat x).toList = (false, (Decimal.showFloat x).toList) := by
      obtain ⟨d, rest, made, decimal⟩ := number.begins
      rw [made, Decimal.takeSign_digit decimal]
    rw [trimmed, Coerce.plainFloat?, joined, if_neg Bool.false_ne_true, unsigned]
    simp only [read, Option.some_or]
  · rw [infinite]
    rfl

theorem optionalSeconds_written {x : Float} (positive : (Number.int 0).less (.float x) = true) :
    (optionalSeconds (.text (Decimal.showFloat x))).result = .ok (some x) := by
  rw [optionalSeconds, interpret_of_isKept (isKept_showFloat positive), optional_ok]
  refine Or.inr ⟨nofun, x, ?_, rfl⟩
  rw [seconds, Check.result_thenCheck]
  refine ⟨x, ?_, by rw [if_pos positive]; rfl⟩
  unfold Coerce.float
  simp only [Datum.text?, floatText?_showFloat positive]
  rfl

/-- What has no point has no fraction. -/
theorem dropZeroFraction_of_not_mem {text : List Char} (whole : '.' ∉ text) :
    Coerce.dropZeroFraction text = text := by
  have none : text.dropWhile (· != '.') = [] := by
    rw [List.dropWhile_eq_nil_iff]
    rintro c member
    simpa using fun same : c = '.' => whole (same ▸ member)
  unfold Coerce.dropZeroFraction
  dsimp only
  rw [none]

theorem dropUnderscores_of_not_mem {text : List Char} (joined : '_' ∉ text) :
    Coerce.dropUnderscores text = text := by
  unfold Coerce.dropUnderscores
  split
  · rfl
  · rw [List.filter_eq_self]
    rintro c member
    simpa using fun same : c = '_' => joined (same ▸ member)

section Digits

variable {d : Nat} {rest : List Nat}

/-- The first digit of a number without leading zeros. -/
theorem digitChar_facts (decimal : d < 10) (some : d ≠ 0) : Decimal.digitChar d ≠ '-' ∧
    Decimal.digitChar d ≠ '+' ∧ Decimal.digitChar d ≠ '0' := by
  revert d
  decide

theorem trimZeros?_digits (decimal : d < 10) (some : d ≠ 0) (more : List Char) :
    Coerce.trimZeros? (Decimal.digitChar d :: more) = .some (Decimal.digitChar d :: more) := by
  have digit := Decimal.isDigit_digitChar decimal
  have notZero := (digitChar_facts decimal some).2.2
  unfold Coerce.trimZeros?
  split <;> simp_all

/-- Digits are those of a plain integer, unless a zero leads them. -/
theorem plainInteger?_digits (decimal : ∀ x ∈ d :: rest, x < 10) (some : d ≠ 0) :
    Coerce.plainInteger? ((d :: rest).map Decimal.digitChar) = .some (false, d :: rest) := by
  obtain ⟨unsigned, -, notZero⟩ := digitChar_facts (decimal d List.mem_cons_self) some
  have digits : ((d :: rest).map Decimal.digitChar).all Char.isDigit = true :=
    List.all_eq_true.2 (List.forall_mem_map.2 fun x member => Decimal.isDigit_digitChar (decimal x member))
  have again : ((d :: rest).map Decimal.digitChar).map Decimal.digitOf = d :: rest := by
    rw [List.map_map]
    exact (List.map_congr_left fun x member => Decimal.digitOf_digitChar (decimal x member)).trans
      (List.map_id _)
  unfold Coerce.plainInteger?
  dsimp only
  rw [show (((d :: rest).map Decimal.digitChar).head? == .some '-') = false by simp [unsigned]]
  simp only [Bool.false_eq_true, if_false]
  rw [show (((d :: rest).map Decimal.digitChar).head? == .some '0') = false by simp [notZero], digits, again]
  rfl

end Digits

/-- The text of a positive number is read as its digits. -/
theorem integerText?_toString {n : Nat} (positive : 0 < n) :
    Coerce.integerText? (toString (n : Int)) = some (false, Decimal.digitsOf n) := by
  have number := Decimal.isNumeral_toString positive
  have decimal : ∀ d ∈ Decimal.digitsOf n, d < 10 := fun d member => Decimal.lt_of_mem_digitsOf member
  have trimmed : Text.trimBy Text.isWhiteSpace (toString (n : Int)).toList = (toString (n : Int)).toList :=
    Text.trimBy_of_kept fun c member => (Decimal.of_mem_numerals (number.numeral c member)).2.2.2.1
  have whole : '.' ∉ (Decimal.digitsOf n).map Decimal.digitChar := by
    intro member
    obtain ⟨d, inside, same⟩ := List.mem_map.1 member
    have digit := Decimal.isDigit_digitChar (decimal d inside)
    rw [same] at digit
    cases digit
  have joined := number.not_mem_underscore
  rw [Decimal.toList_toString positive] at joined trimmed
  obtain ⟨d, rest, made, some⟩ := Decimal.exists_digitsOf_eq_cons positive
  rw [made] at decimal whole joined trimmed ⊢
  have first := decimal d List.mem_cons_self
  have unsigned := (digitChar_facts first some).2.1
  have plain : Coerce.plainInteger? (Coerce.dropUnderscores (Coerce.dropZeroFraction
      ((d :: rest).map Decimal.digitChar))) = .some (false, d :: rest) := by
    rw [dropZeroFraction_of_not_mem whole, dropUnderscores_of_not_mem joined,
      plainInteger?_digits decimal some]
  unfold Coerce.integerText?
  rw [Decimal.toList_toString positive, made, trimmed, List.map_cons]
  dsimp only
  split
  · simp_all
  · simp_all
  · rw [Option.bind_eq_bind, Option.bind_some, trimZeros?_digits first some]
    exact plain

theorem int_text {digits : List Nat} (read : Coerce.integerText? s = some (false, digits))
    (short : digits.length ≤ Coerce.maxIntegerDigits) :
    (Coerce.int (.text s : Description)).result = .ok (Decimal.natOf digits : Int) := by
  unfold Coerce.int Datum.text?
  dsimp only
  rw [read]
  dsimp only
  rw [if_neg (not_lt.2 short), if_neg Bool.false_ne_true, Check.result_accept]

/-- The text of a positive number is read as the number, if it does not have too many digits. -/
theorem positive_written {n : Nat} (some : 0 < n)
    (short : (Decimal.digitsOf n).length ≤ Coerce.maxIntegerDigits) :
    (positive (.text (toString (n : Int)))).result = .ok ⟨n, some⟩ := by
  rw [positive, interpret_of_isKept (isKept_of_isNumeral (Decimal.isNumeral_toString some)),
    Check.result_thenCheck]
  refine ⟨n, ?_, ?_⟩
  · rw [int_text (integerText?_toString some) short, Decimal.natOf_digitsOf]
  · rw [dif_pos (by omega)]
    rfl

end Setting

end Olap
