/-
Texts of decimals. Digits that are written are read again, whether they are written with a point or with an
exponent, so the text of a positive double is read as the double. No text of one has a character besides
digits, points, signs and the mark of an exponent, and all begin with a digit, but for the name of infinity.
-/

import Mathlib
import Olap.Coerce
import Olap.Proofs.Decimals

namespace Olap.Decimal

/-! ### Digits as characters -/

/-- The characters of numbers. -/
def numerals : List Char := "0123456789.e+-".toList

theorem isDigit_digitChar {d : Nat} (decimal : d < 10) : (digitChar d).isDigit = true := by
  revert d
  decide

theorem digitOf_digitChar {d : Nat} (decimal : d < 10) : digitOf (digitChar d) = d := by
  revert d
  decide

theorem digitChar_mem_numerals {d : Nat} (decimal : d < 10) : digitChar d ∈ numerals := by
  revert d
  decide

theorem toLower_digitChar {d : Nat} (decimal : d < 10) : (digitChar d).toLower = digitChar d := by
  revert d
  decide

/-- Digits stop in front of a text. -/
def Stops (rest : List Char) : Prop := ∀ c ∈ rest.head?, c.isDigit = false ∧ c ≠ '_'

theorem takeMoreDigits_of_stops {rest : List Char} (stops : Stops rest) :
    takeMoreDigits rest = ([], rest) := by
  cases rest with
  | nil => rfl
  | cons c rest =>
    obtain ⟨digit, underscore⟩ := stops c rfl
    rw [takeMoreDigits.eq_def]
    split <;> simp_all

theorem takeMoreDigits_cons {c : Char} (digit : c.isDigit = true) (rest : List Char) :
    takeMoreDigits (c :: rest) = (digitOf c :: (takeMoreDigits rest).1, (takeMoreDigits rest).2) := by
  rw [takeMoreDigits.eq_def]
  split
  · rename_i impossible
    cases impossible
  · rename_i same
    cases same
    cases digit
  · rename_i same
    cases same
    rw [if_pos digit]

theorem takeMoreDigits_digits {digits : List Nat} (decimal : ∀ d ∈ digits, d < 10) {rest : List Char}
    (stops : Stops rest) : takeMoreDigits (digits.map digitChar ++ rest) = (digits, rest) := by
  induction digits with
  | nil => exact takeMoreDigits_of_stops stops
  | cons d digits inductionHypothesis =>
    have here := decimal d List.mem_cons_self
    rw [List.map_cons, List.cons_append, takeMoreDigits_cons (isDigit_digitChar here),
      inductionHypothesis fun e member => decimal e (List.mem_cons_of_mem d member), digitOf_digitChar here]

theorem takeDigits_digits {digits : List Nat} (decimal : ∀ d ∈ digits, d < 10) {rest : List Char}
    (stops : Stops rest) : takeDigits (digits.map digitChar ++ rest) = (digits, rest) := by
  cases digits with
  | nil =>
    cases rest with
    | nil => rfl
    | cons c rest => simp [takeDigits, (stops c rfl).1]
  | cons d digits =>
    have here := decimal d List.mem_cons_self
    rw [List.map_cons, List.cons_append, takeDigits, if_pos (isDigit_digitChar here),
      takeMoreDigits_digits (fun e member => decimal e (List.mem_cons_of_mem d member)) stops,
      digitOf_digitChar here]

theorem takeSign_digit {d : Nat} (decimal : d < 10) (rest : List Char) :
    takeSign (digitChar d :: rest) = (false, digitChar d :: rest) := by
  have digit := isDigit_digitChar decimal
  unfold takeSign
  split <;> simp_all

/-! ### Parts of a number -/

/-- The mark, the sign and the digits of an exponent. -/
def exponentText (negative : Bool) (digits : List Nat) : List Char :=
  'e' :: (if negative then '-' else '+') :: digits.map digitChar

theorem readExponent?_exponentText {negative : Bool} {digits : List Nat} (some : digits ≠ [])
    (decimal : ∀ d ∈ digits, d < 10) :
    readExponent? (exponentText negative digits) =
      .some (if negative then -(natOf digits : Int) else natOf digits) := by
  have taken : takeDigits (digits.map digitChar) = (digits, []) := by
    have := takeDigits_digits decimal (show Stops [] from nofun)
    rwa [List.append_nil] at this
  obtain ⟨d, digits, rfl⟩ := List.exists_cons_of_ne_nil some
  unfold exponentText
  cases negative <;>
    simp only [readExponent?, true_or, if_true, Bool.false_eq_true, if_false, takeSign, taken]

/-- What begins with a digit is no word. -/
theorem ofList_toLower_ne {d : Nat} (decimal : d < 10) (rest : List Char) {first : Char}
    (letter : first.isDigit = false) (word : List Char) :
    String.ofList ((digitChar d :: rest).map Char.toLower) ≠ String.ofList (first :: word) := by
  rw [List.map_cons, toLower_digitChar decimal]
  intro same
  rw [← (List.cons.inj (String.ofList_injective same)).1, isDigit_digitChar decimal] at letter
  cases letter

/-- A text is that of a number: it begins with a digit, and nothing in it is foreign to numbers. -/
structure IsNumeral (text : List Char) : Prop where
  begins : ∃ d rest, text = digitChar d :: rest ∧ d < 10
  numeral : ∀ c ∈ text, c ∈ numerals

/-- A text is that of a number, and read as the double that is nearest to a rational. -/
structure Denotes (text : List Char) (q : ℚ) : Prop extends IsNumeral text where
  read : ∃ (n : Nat) (power : Int), (n : ℚ) * 10 ^ power = q ∧
    readMagnitude? false text = some (nearest false n power)

theorem mem_numerals_of_mem_map {digits : List Nat} (decimal : ∀ d ∈ digits, d < 10) :
    ∀ c ∈ digits.map digitChar, c ∈ numerals :=
  List.forall_mem_map.2 fun d member => digitChar_mem_numerals (decimal d member)

/-- Digits, a fraction if there is one, and an exponent if there is one, are read as a number. -/
theorem denotes_digits (whole part : List Nat) {fraction mark : List Char} {power : Int}
    (filled : whole ≠ []) (decimal : ∀ d ∈ whole ++ part, d < 10)
    (pointed : fraction = [] ∧ part = [] ∨ fraction = '.' :: part.map digitChar)
    (marked : mark = [] ∨
      ∃ negative digits, (∀ d ∈ digits, d < 10) ∧ mark = exponentText negative digits)
    (raised : readExponent? mark = some power) :
    Denotes (whole.map digitChar ++ fraction ++ mark)
      (natOf (whole ++ part) * 10 ^ (power - part.length)) := by
  have decimalWhole : ∀ d ∈ whole, d < 10 := fun d member => decimal d (List.mem_append_left _ member)
  have decimalPart : ∀ d ∈ part, d < 10 := fun d member => decimal d (List.mem_append_right _ member)
  have unequal : (whole.isEmpty && part.isEmpty) = false := by simp [filled]
  obtain ⟨d, digits, made⟩ := List.exists_cons_of_ne_nil filled
  refine ⟨⟨⟨d, _, by rw [made]; rfl, decimalWhole d (made ▸ List.mem_cons_self)⟩, ?_⟩, _, _, rfl, ?_⟩
  · refine List.forall_mem_append.2
      ⟨List.forall_mem_append.2 ⟨mem_numerals_of_mem_map decimalWhole, ?_⟩, ?_⟩
    · rcases pointed with ⟨rfl, -⟩ | rfl
      · nofun
      · exact List.forall_mem_cons.2 ⟨by decide, mem_numerals_of_mem_map decimalPart⟩
    · rcases marked with rfl | ⟨negative, digits, decimalDigits, rfl⟩
      · nofun
      · exact List.forall_mem_cons.2 ⟨by decide, List.forall_mem_cons.2
          ⟨by cases negative <;> decide, mem_numerals_of_mem_map decimalDigits⟩⟩
  have stops : Stops mark := by
    rcases marked with rfl | ⟨negative, digits, -, rfl⟩
    · nofun
    · rintro c ⟨⟩
      decide
  have noWord (first : Char) (letter : first.isDigit = false) (word : List Char) :
      String.ofList ((whole.map digitChar ++ fraction ++ mark).map Char.toLower) ≠
        String.ofList (first :: word) := by
    subst made
    exact ofList_toLower_ne (decimalWhole d List.mem_cons_self) _ letter word
  unfold readMagnitude?
  dsimp only
  rw [if_neg (not_or.2 ⟨noWord 'i' rfl ['n', 'f'],
      noWord 'i' rfl ['n', 'f', 'i', 'n', 'i', 't', 'y']⟩),
    if_neg (noWord 'n' rfl ['a', 'n'])]
  rcases pointed with ⟨rfl, rfl⟩ | rfl
  · rw [List.append_nil, takeDigits_digits decimalWhole stops]
    dsimp only
    split
    · rcases marked with empty | ⟨negative, digits, -, begun⟩ <;> simp_all [exponentText]
    · simp only [unequal, Bool.false_eq_true, if_false, raised, List.append_nil, List.length_nil]
  · rw [List.append_assoc, takeDigits_digits decimalWhole (by rintro c ⟨⟩; decide)]
    simp only [List.cons_append, takeDigits_digits decimalPart stops, unequal, Bool.false_eq_true,
      if_false, raised]

/-! ### Numbers as they are written -/

theorem toList_digitText (digits : List Nat) : (digitText digits).toList = digits.map digitChar :=
  String.toList_ofList

/-- Zeros in front of digits do not count. -/
theorem natOf_replicate_append (n : Nat) (digits : List Nat) :
    natOf (List.replicate n 0 ++ digits) = natOf digits := by
  rw [natOf_append, natOf_replicate_zero, Nat.zero_mul, Nat.zero_add]

theorem forall_mem_replicate_append {n : Nat} {digits : List Nat} (decimal : ∀ d ∈ digits, d < 10) :
    ∀ d ∈ List.replicate n 0 ++ digits, d < 10 := by
  intro d member
  rcases List.mem_append.1 member with zero | other
  · rw [(List.mem_replicate.1 zero).2]
    decide
  · exact decimal d other

section Written

variable {digits : List Nat} {point : Int}

/-- Below one, zeros stand between the point and the digits. -/
theorem denotes_below_one (decimal : ∀ d ∈ digits, d < 10) (low : point ≤ 0) :
    Denotes ("0." ++ digitText (List.replicate (-point).toNat 0 ++ digits)).toList
      (Digits.value ⟨digits, point⟩) := by
  generalize zeros : (-point).toNat = k
  have together : [0] ++ (List.replicate k 0 ++ digits) = List.replicate (k + 1) 0 ++ digits := rfl
  have text : ("0." ++ digitText (List.replicate k 0 ++ digits)).toList =
      [0].map digitChar ++ '.' :: (List.replicate k 0 ++ digits).map digitChar ++ [] := by
    rw [String.toList_append, toList_digitText, List.append_nil]
    rfl
  have read := denotes_digits [0] (List.replicate k 0 ++ digits)
    (List.cons_ne_nil _ _) (together ▸ forall_mem_replicate_append decimal) (Or.inr rfl) (Or.inl rfl) rfl
  rw [together, natOf_replicate_append, List.length_append, List.length_replicate,
    show (0 : Int) - (k + digits.length : Nat) = point - digits.length by push_cast; omega] at read
  rw [text]
  exact read

/-- From one on, zeros fill the digits up to the point, and one stands behind it if nothing else does. -/
theorem denotes_from_one (decimal : ∀ d ∈ digits, d < 10) {k : Nat} (high : 0 < k) :
    let padded := digits ++ List.replicate (k - digits.length) 0
    let part := padded.drop k
    Denotes (digitText (padded.take k) ++ "." ++ digitText (if part.isEmpty then [0] else part)).toList
      (Digits.value ⟨digits, k⟩) := by
  intro padded part
  have decimalPadded : ∀ d ∈ padded, d < 10 := by
    intro d member
    rcases List.mem_append.1 member with other | zero
    · exact decimal d other
    · rw [(List.mem_replicate.1 zero).2]
      decide
  have length : padded.length = max k digits.length := by
    rw [List.length_append, List.length_replicate]
    omega
  have filled : padded.take k ≠ [] := by
    intro empty
    have := congrArg List.length empty
    rw [List.length_take, List.length_nil] at this
    omega
  have text (part : List Nat) : (digitText (padded.take k) ++ "." ++ digitText part).toList =
      (padded.take k).map digitChar ++ '.' :: part.map digitChar ++ [] := by
    rw [String.toList_append, String.toList_append, toList_digitText, toList_digitText, List.append_nil,
      List.append_assoc]
    rfl
  have read (part : List Nat) (decimalPart : ∀ d ∈ part, d < 10) :=
    denotes_digits (padded.take k) part filled (List.forall_mem_append.2
      ⟨fun d member => decimalPadded d (List.mem_of_mem_take member), decimalPart⟩) (Or.inr rfl) (Or.inl rfl)
      rfl
  rw [text, Digits.value]
  by_cases short : digits.length ≤ k
  · -- All digits stand in front of the point.
    have full : padded.length ≤ k := by omega
    have none : part = [] := List.drop_eq_nil_of_le full
    have amount : (natOf (padded.take k ++ [0]) : ℚ) * 10 ^ ((0 : Int) - ([0] : List Nat).length) =
        natOf digits * 10 ^ ((k : Int) - digits.length) := by
      rw [List.take_of_length_le full, natOf_append, natOf_append, natOf_replicate_zero,
        List.length_replicate, show (k : Int) - digits.length = (k - digits.length : Nat) by omega,
        zpow_natCast]
      simp [natOf]
    rw [none, ← amount]
    exact read [0] (by decide)
  · -- Digits are left behind the point.
    have whole : padded = digits := by
      show digits ++ List.replicate (k - digits.length) 0 = digits
      rw [show k - digits.length = 0 by omega, List.replicate_zero, List.append_nil]
    have rest : part.length = digits.length - k := by
      show (padded.drop k).length = _
      rw [List.length_drop, whole]
    have some : part.isEmpty = false := by
      rw [List.isEmpty_eq_false_iff, ← List.length_pos_iff]
      omega
    have amount : (natOf (padded.take k ++ part) : ℚ) * 10 ^ ((0 : Int) - part.length) =
        natOf digits * 10 ^ ((k : Int) - digits.length) := by
      rw [show padded.take k ++ part = digits from (List.take_append_drop k padded).trans whole, rest]
      congr 2
      omega
    rw [some, ← amount]
    exact read part fun d member => decimalPadded d (List.mem_of_mem_drop member)

/-- An exponent is written as its mark, its sign and some digits, and read again. -/
theorem exists_exponentText {width : Nat} (wide : 0 < width) (exponent : Int) :
    ∃ negative digits, (∀ d ∈ digits, d < 10) ∧
      ("e" ++ ((if exponent < 0 then "-" else "+") ++ paddedNat width exponent.natAbs)).toList =
        exponentText negative digits ∧
      readExponent? (exponentText negative digits) = some exponent := by
  generalize written : List.replicate (width - (digitsOf exponent.natAbs).length) 0 ++
    digitsOf exponent.natAbs = digits
  have amount : natOf digits = exponent.natAbs := by
    rw [← written, natOf_replicate_append, natOf_digitsOf]
  have decimal : ∀ d ∈ digits, d < 10 :=
    written ▸ forall_mem_replicate_append fun d member => lt_of_mem_digitsOf member
  have filled : digits ≠ [] := by
    intro empty
    have := congrArg List.length (written.trans empty)
    rw [List.length_append, List.length_replicate, List.length_nil] at this
    omega
  refine ⟨decide (exponent < 0), digits, decimal, ?_, ?_⟩
  · unfold paddedNat
    dsimp only
    rw [written, String.toList_append, String.toList_append, toList_digitText]
    by_cases below : exponent < 0
    · rw [if_pos below, decide_eq_true below]
      rfl
    · rw [if_neg below, decide_eq_false below]
      rfl
  · rw [readExponent?_exponentText filled decimal, amount]
    congr 1
    by_cases below : exponent < 0
    · rw [decide_eq_true below, if_pos rfl]
      omega
    · rw [decide_eq_false below, if_neg Bool.false_ne_true]
      omega

/-- With an exponent, the first digit stands in front of the point. -/
theorem denotes_with_exponent {width : Nat} (wide : 0 < width) (filled : digits ≠ [])
    (decimal : ∀ d ∈ digits, d < 10) :
    let part := digits.drop 1
    Denotes (digitText (digits.take 1) ++ (if part.isEmpty then "" else "." ++ digitText part) ++ "e" ++
      (if point - 1 < 0 then "-" else "+") ++ paddedNat width (point - 1).natAbs).toList
      (Digits.value ⟨digits, point⟩) := by
  intro part
  generalize power : point - 1 = exponent
  obtain ⟨negative, others, decimalOthers, mark, raised⟩ := exists_exponentText wide exponent
  obtain ⟨d, rest, rfl⟩ := List.exists_cons_of_ne_nil filled
  have value : Digits.value ⟨d :: rest, point⟩ = natOf ([d] ++ rest) * 10 ^ (exponent - rest.length) := by
    rw [Digits.value, ← power]
    dsimp only
    rw [List.length_cons]
    congr 2
    omega
  rw [String.append_assoc, String.append_assoc, String.toList_append, mark, String.toList_append,
    toList_digitText, value]
  refine denotes_digits [d] rest (List.cons_ne_nil _ _) decimal ?_ (Or.inr ⟨_, _, decimalOthers, rfl⟩) raised
  show (if rest.isEmpty then "" else "." ++ digitText rest).toList = [] ∧ rest = [] ∨ _
  cases rest with
  | nil => exact Or.inl ⟨rfl, rfl⟩
  | cons e rest =>
    refine Or.inr ?_
    show ("." ++ digitText (e :: rest)).toList = _
    rw [String.toList_append, toList_digitText]
    rfl

end Written

/-- What is written is the text of a number, and read again. -/
theorem denotes_write {style : Notation} (wide : 0 < style.exponentDigits) {d : Digits}
    (some : d.digits ≠ []) (decimal : ∀ x ∈ d.digits, x < 10) : Denotes (style.write d).toList d.value := by
  obtain ⟨digits, point⟩ := d
  unfold Notation.write
  dsimp only
  split
  · split
    · exact denotes_below_one decimal (by assumption)
    · obtain ⟨k, rfl⟩ := Int.eq_ofNat_of_zero_le (by omega : 0 ≤ point)
      exact denotes_from_one decimal (by omega)
  · exact denotes_with_exponent wide some decimal

/-! ### Whole numbers -/

theorem toDigits_eq_map_digitsOf {n : Nat} (positive : 0 < n) :
    Nat.toDigits 10 n = (digitsOf n).map digitChar := by
  have same : ∀ d < 10, Nat.digitChar d = digitChar d := by decide
  induction n using digitsOf.induct with
  | case1 => cases positive
  | case2 n filled inductionHypothesis =>
    rw [digitsOf, if_neg filled, List.map_append, List.map_singleton]
    by_cases short : n < 10
    · rw [Nat.toDigits_of_lt_base short, show n / 10 = 0 by omega, digitsOf, if_pos rfl, same n short,
        Nat.mod_eq_of_lt short]
      rfl
    · rw [Nat.toDigits_of_base_le (by decide) (by omega), inductionHypothesis (by omega),
        same _ (Nat.mod_lt n (by decide))]

theorem toList_toString {n : Nat} (positive : 0 < n) :
    (toString (n : Int)).toList = (digitsOf n).map digitChar := by
  rw [← toDigits_eq_map_digitsOf positive, ← Nat.toList_repr]
  rfl

/-- The first digit of a positive number is not zero. -/
theorem exists_digitsOf_eq_cons {n : Nat} (positive : 0 < n) : ∃ d rest, digitsOf n = d :: rest ∧ d ≠ 0 := by
  induction n using digitsOf.induct with
  | case1 => cases positive
  | case2 n filled inductionHypothesis =>
    rw [digitsOf, if_neg filled]
    by_cases short : n / 10 = 0
    · rw [short, digitsOf, if_pos rfl]
      exact ⟨n % 10, [], rfl, by omega⟩
    · obtain ⟨d, rest, made, some⟩ := inductionHypothesis (by omega)
      exact ⟨d, rest ++ [n % 10], by rw [made, List.cons_append], some⟩

theorem isNumeral_toString {n : Nat} (positive : 0 < n) : IsNumeral (toString (n : Int)).toList := by
  rw [toList_toString positive]
  obtain ⟨d, rest, made, -⟩ := exists_digitsOf_eq_cons positive
  refine ⟨⟨d, rest.map digitChar, by rw [made, List.map_cons], lt_of_mem_digitsOf (n := n) ?_⟩,
    mem_numerals_of_mem_map fun d member => lt_of_mem_digitsOf member⟩
  rw [made]
  exact List.mem_cons_self

/-! ### Positive doubles -/

/-- Positive are the finite doubles without a sign, and infinity without one. -/
theorem content_of_positive {x : Float} (positive : (Number.int 0).less (.float x) = true) :
    (∃ mantissa exponent narrow, Content.ofFloat x = .finite false mantissa exponent narrow) ∨
      Content.ofFloat x = .infinite false := by
  have zero : (Number.int 0).place? = some (.finite 0) := by
    rw [Number.place?, Int.zero_mul]
  unfold Number.less at positive
  rw [zero, Number.place?] at positive
  cases content : Content.ofFloat x with
  | nan =>
    rw [content] at positive
    cases positive
  | infinite negative =>
    cases negative with
    | false => exact Or.inr rfl
    | true =>
      rw [content] at positive
      cases positive
  | zero negative =>
    rw [content] at positive
    cases positive
  | finite negative mantissa exponent narrow =>
    cases negative with
    | false => exact Or.inl ⟨mantissa, exponent, narrow, rfl⟩
    | true =>
      rw [content] at positive
      have below : (0 : Int) < -((mantissa : Int) * Nat.pow 2 exponent) := of_decide_eq_true positive
      have : (0 : Int) ≤ (mantissa : Int) * Nat.pow 2 exponent := by positivity
      omega

/-- The text of a positive double is that of a number, and read as the double; or it is infinity. -/
theorem showFloat_of_positive {x : Float} (positive : (Number.int 0).less (.float x) = true) :
    IsNumeral (showFloat x).toList ∧ readMagnitude? false (showFloat x).toList = some x ∨
      showFloat x = "inf" ∧ x = 1.0 / 0.0 := by
  unfold showFloat Notation.format
  dsimp only
  rcases content_of_positive positive with ⟨mantissa, exponent, narrow, content⟩ | content
  · refine Or.inl ?_
    rw [content]
    show IsNumeral (plain.write (shortest mantissa exponent narrow)).toList ∧
      readMagnitude? false (plain.write (shortest mantissa exponent narrow)).toList = some x
    obtain ⟨double, bits⟩ := isDouble_of_content content
    obtain ⟨some, decimal, inside⟩ := has_shortest double
    have written := denotes_write (show 0 < plain.exponentDigits by decide) some decimal
    obtain ⟨n, power, same, read⟩ := written.read
    refine ⟨written.toIsNumeral, read.trans (congrArg Option.some ?_)⟩
    rw [← same] at inside
    have filled : n ≠ 0 := by
      rintro rfl
      have low := (range_of_has double inside).1
      rw [Nat.cast_zero, zero_mul] at low
      exact absurd low (not_le_of_gt (by positivity))
    rw [nearest_eq double filled inside, eq_ofBits_ofNat bits]
    simp
  · refine Or.inr ?_
    rw [content]
    refine ⟨rfl, ?_⟩
    rw [eq_ofBits_ofNat (toBits_of_infinite content)]
    decide +kernel

end Olap.Decimal
