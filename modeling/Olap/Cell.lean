/-
Values in tables. Truth values are numbers there, and what is no number is absent. Values are ordered
by class first: absent values come before numbers, and numbers before texts.

Columns are declared with a type. A value that is put into a column, or compared with a column, is
turned into a value of the column's type where the type asks for it and nothing is lost: a text that
is a numeral becomes a number, and a number becomes its numeral.
-/

import Olap.Number

namespace Olap

/-! ### Numerals in texts -/

namespace Numeral

/-- What a text begins with: a number, whether it is written as a whole number, and what follows
it. -/
structure Start where
  number : Number
  rest : List Char

/-- Blanks that may surround a numeral. -/
def isBlank (c : Char) : Bool := c == ' ' || (9 ≤ c.toNat && c.toNat ≤ 13)

def takeDigits (text : List Char) : List Nat × List Char :=
  ((text.takeWhile Char.isDigit).map Decimal.digitOf, text.dropWhile Char.isDigit)

/-- An exponent and what follows it; a mark without digits is none. -/
def takeExponent (text : List Char) : Option Int × List Char :=
  match text with
  | mark :: rest =>
    if mark == 'e' || mark == 'E' then
      let (negative, rest) := Decimal.takeSign rest
      match takeDigits rest with
      | ([], _) => (none, text)
      | (digits, rest) =>
        (some (if negative then -(Decimal.natOf digits : Int) else Decimal.natOf digits), rest)
    else (none, text)
  | [] => (none, [])

/-- A point and the digits after it. -/
def takeFraction : List Char → Option (List Nat) × List Char
  | '.' :: rest => let (digits, rest) := takeDigits rest; (some digits, rest)
  | rest => (none, rest)

/-- Integers that a column can hold. -/
def isWord (i : Int) : Bool := -(Nat.pow 2 63 : Nat) ≤ i && i < (Nat.pow 2 63 : Nat)

/-- The numeral at the start of a text. -/
def start? (text : List Char) : Option Start :=
  let (negative, body) := Decimal.takeSign (text.dropWhile isBlank)
  let (whole, afterWhole) := takeDigits body
  let (fraction, afterFraction) := takeFraction afterWhole
  let part := fraction.getD []
  if whole.isEmpty && part.isEmpty then none
  else
    let (exponent, rest) := takeExponent afterFraction
    let size : Int := Decimal.natOf whole
    let i := if negative then -size else size
    let number : Number :=
      if fraction.isNone && exponent.isNone && isWord i then .int i
      else
        .float (Decimal.nearest negative (Decimal.natOf (whole ++ part))
          (exponent.getD 0 - part.length))
    some ⟨number, rest⟩

/-- The number that a whole text denotes. -/
def read? (text : String) : Option Number :=
  match start? text.toList with
  | some ⟨number, rest⟩ => if rest.all isBlank then some number else none
  | none => none

/-- The number that a text begins with as a double; no number is zero. -/
def leading (text : String) : Float :=
  match start? text.toList with
  | some ⟨.int i, _⟩ => Float.ofInt i
  | some ⟨.float x, _⟩ => x
  | none => 0.0

/-- Numerals of doubles have fifteen digits, and a digit after the point even before an exponent. -/
def digits : Nat := 15

/-- Numbers from a ten-thousandth up to below 10^15 are written without an exponent. -/
def format : Decimal.Notation := ⟨15, -3, 2, "Inf", ""⟩

/-- A positive number; before an exponent there are always two digits or more. -/
def writePositive (d : Decimal.Digits) : String :=
  let padded := if d.digits.length < 2 then { d with digits := d.digits ++ [0] } else d
  if format.minPoint ≤ d.point && d.point ≤ format.maxPoint then format.write d
  else format.write padded

/-- The numeral of a double. -/
def ofFloat (x : Float) : String :=
  match Decimal.Content.ofFloat x with
  | .nan => ""
  | .infinite negative => if negative then "-Inf" else "Inf"
  | .zero _ => "0.0"
  | .finite negative mantissa exponent _ =>
    (if negative then "-" else "") ++ writePositive (Decimal.rounded digits mantissa exponent)

end Numeral

/-! ### Types of columns -/

/-- The types that columns are declared with. -/
inductive ColumnType
  | integer
  | text
  | float
deriving DecidableEq, Repr, Inhabited

namespace ColumnType

/-- The type that a name stands for; whole numbers are the usual one. -/
def ofName : String → ColumnType
  | "string" => text
  | "float" => float
  | _ => integer

end ColumnType

/-- Types of columns by their names. What has been calculated has no type. -/
abbrev ColumnTypes := List (String × ColumnType)

/-! ### Values -/

namespace Cell

/-- What a value is in a table. -/
def ofValue : Value → Value
  | .bool b => .int (if b then 1 else 0)
  | .float x => if x.isNaN then .null else .float x
  | .direction d => .text d.name
  | value => value

/-- A double without a fraction as an integer, if it is not too large. -/
def wholeFloat (x : Float) : Value :=
  match Decimal.units? x with
  | some units =>
    if units % Decimal.unitsPerOne = 0 && Numeral.isWord (units / Decimal.unitsPerOne) then
      .int (units / Decimal.unitsPerOne)
    else .float x
  | none => .float x

/-- A text that is a numeral as its number. -/
def numeric (value : Value) : Value :=
  match value with
  | .text s => ((Numeral.read? s).map Number.value).getD value
  | value => value

/-- A number as its numeral. -/
def textual (value : Value) : Value :=
  match value with
  | .int i => .text (toString i)
  | .float x => .text (Numeral.ofFloat x)
  | value => value

/-- A value as it is compared with a column of a type. -/
def fitTo (type : Option ColumnType) (value : Value) : Value :=
  match type with
  | none => ofValue value
  | some .text => textual (ofValue value)
  | some .integer | some .float => numeric (ofValue value)

/-- A value as a column of a type holds it. -/
def hold (type : ColumnType) (value : Value) : Value :=
  match type, fitTo (some type) value with
  | .integer, .float x => wholeFloat x
  | .float, .int i =>
    match (Number.int i).toFloat with
    | .ok x => .float x
    | .error _ => .int i
  | _, value => value

/-- What a value is ordered by. -/
inductive Rank
  | absent
  | number (place : Place)
  | text (s : String)
  /-- What can not be in a table. -/
  | other
deriving DecidableEq

namespace Rank

/-- Strict order of ranks. -/
def less : Rank → Rank → Bool
  | number p, number q => p.less q
  | text s, text t => s < t
  | absent, number _ | absent, text _ | absent, other => true
  | number _, text _ | number _, other | text _, other => true
  | _, _ => false

theorem less_irrefl (r : Rank) : r.less r = false := by
  cases r with
  | number p => exact Place.less_irrefl p
  | text s => exact decide_eq_false (String.lt_irrefl s)
  | absent => rfl
  | other => rfl

theorem less_trans {p q r : Rank} (first : p.less q = true) (second : q.less r = true) :
    p.less r = true := by
  cases p <;> cases q <;> cases r <;> simp only [less, decide_eq_true_eq, reduceCtorEq] at first second ⊢
  · exact Place.less_trans first second
  · exact String.lt_trans first second

/-- Two different ranks are one before the other. -/
theorem eq_of_not_less {p q : Rank} (left : p.less q = false) (right : q.less p = false) :
    p = q := by
  cases p <;> cases q <;> simp only [less, decide_eq_false_iff_not, reduceCtorEq] at left right ⊢
  · exact congrArg number (Place.eq_of_not_less left right)
  · exact congrArg text (String.le_antisymm right left)

end Rank

/-- The rank of a value. What is no number is absent. -/
def rank : Value → Rank
  | .null => .absent
  | .bool b => (Number.place? (.int (if b then 1 else 0))).elim .absent .number
  | .int i => (Number.place? (.int i)).elim .absent .number
  | .float x => (Number.place? (.float x)).elim .absent .number
  | .text s => .text s
  | .direction d => .text d.name
  | .list _ | .record _ | .wildcard => .other

def isAbsent (value : Value) : Bool := rank value == .absent

/-- Strict order of values. -/
def less (a b : Value) : Bool := (rank a).less (rank b)

/-- Values that no order tells apart are the same. -/
def same (a b : Value) : Bool := rank a == rank b

theorem same_refl (a : Value) : same a a = true := beq_self_eq_true (rank a)

theorem same_symm (a b : Value) : same a b = same b a := Bool.beq_comm

theorem same_trans {a b c : Value} (first : same a b = true) (second : same b c = true) :
    same a c = true :=
  beq_iff_eq.mpr ((beq_iff_eq.mp first).trans (beq_iff_eq.mp second))

/-- Equality as a condition: an absent value is equal to none. -/
def equals (a b : Value) : Bool := !isAbsent a && same a b

/-- Not greater, as a condition. -/
def atMost (a b : Value) : Bool := !isAbsent a && !isAbsent b && !less b a

/-- Strict order of keys made of several values, each in a direction of its own: the first that
differ decide. Values without a direction come in ascending order. -/
def lessKey : List Direction → List Value → List Value → Bool
  | directions, a :: as, b :: bs =>
    let first :=
      match directions.head? with
      | some .desc => less b a
      | _ => less a b
    first || (same a b && lessKey directions.tail as bs)
  | _, [], _ :: _ => true
  | _, _, [] => false

def sameKey : List Value → List Value → Bool
  | a :: as, b :: bs => same a b && sameKey as bs
  | [], [] => true
  | _, _ => false

end Cell

end Olap
