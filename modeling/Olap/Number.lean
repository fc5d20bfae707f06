/-
Numbers among data. Booleans count as the integers 0 and 1, integers have any size, and floats are
doubles. Comparison between integers and floats is exact: a double is a whole number of the least
positive double, so all numbers are compared by their places on one line of integers in that unit,
with the infinities beyond all of them. Arithmetic on integers is exact as well and turns into
floating point arithmetic as soon as a float takes part.
-/

import Olap.Datum

namespace Olap

/-- How far apart the least positive double and one are. -/
def Decimal.unitsPerOne : Nat := Nat.pow 2 1074

theorem Decimal.unitsPerOne_pos : 0 < unitsPerOne := by
  unfold unitsPerOne
  generalize 1074 = exponent
  exact Nat.two_pow_pos exponent

/-- A place on the line of numbers: at one of its ends, or so many units from zero. -/
inductive Place
  | lowest
  | finite (units : Int)
  | highest
deriving DecidableEq, Repr

namespace Place

/-- Strict order along the line. -/
def less : Place → Place → Bool
  | finite m, finite n => m < n
  | lowest, finite _ | lowest, highest | finite _, highest => true
  | _, _ => false

def ofContent? : Decimal.Content → Option Place
  | .nan => none
  | .infinite negative => some (if negative then lowest else highest)
  | .zero _ => some (finite 0)
  | .finite negative mantissa exponent _ =>
    let size : Int := mantissa * Nat.pow 2 exponent
    some (finite (if negative then -size else size))

theorem less_irrefl (p : Place) : p.less p = false := by
  cases p with
  | lowest => rfl
  | finite m => exact decide_eq_false (Int.lt_irrefl m)
  | highest => rfl

theorem less_trans {p q r : Place} (first : p.less q = true) (second : q.less r = true) :
    p.less r = true := by
  cases p <;> cases q <;> cases r <;> simp_all [less]
  omega

/-- Two different places are one before the other. -/
theorem eq_of_not_less {p q : Place} (left : p.less q = false) (right : q.less p = false) :
    p = q := by
  cases p <;> cases q <;> simp_all [less]
  omega

end Place

/-- A finite double in units of the least positive double. -/
def Decimal.units? (x : Float) : Option Int :=
  match Place.ofContent? (Decimal.Content.ofFloat x) with
  | some (.finite units) => some units
  | _ => none

/-- A number: an integer or a double. -/
inductive Number
  | int (i : Int)
  | float (x : Float)

namespace Number

/-- The number that a datum stands for, if it is one. -/
def of? {α : Type} : Datum α → Option Number
  | .bool b => some (.int (if b then 1 else 0))
  | .int i => some (.int i)
  | .float x => some (.float x)
  | _ => none

def value : Number → Value
  | int i => .int i
  | float x => .float x

/-- Where a number is on the line of all numbers; what is no number is nowhere. -/
def place? : Number → Option Place
  | int i => some (.finite (i * Decimal.unitsPerOne))
  | float x => Place.ofContent? (Decimal.Content.ofFloat x)

/-- Equality of numbers of either kind; what is no number is equal to none. -/
def equal (a b : Number) : Bool :=
  match a.place?, b.place? with
  | some p, some q => p == q
  | _, _ => false

/-- Strict order of numbers of either kind; nothing is below or above what is no number. -/
def less (a b : Number) : Bool :=
  match a.place?, b.place? with
  | some p, some q => p.less q
  | _, _ => false

def atMost (a b : Number) : Bool := a.less b || a.equal b

/-- Why a calculation has no result. -/
inductive Failure
  /-- The operands are not numbers. -/
  | operands
  | divisionByZero
  /-- An integer is too large for a double. -/
  | overflow
deriving DecidableEq, Repr

/-- Greatest integer that still rounds to a double. -/
def floatLimit : Nat := Nat.pow 2 1024 - Nat.pow 2 970

/-- The double nearest to an integer. -/
def toFloat : Number → Except Failure Float
  | float x => .ok x
  | int i => if i.natAbs < floatLimit then .ok (Float.ofInt i) else .error .overflow

/-- The double nearest to a quotient of naturals: enough bits of the quotient are computed for the
rounding to see on which side of a tie it lies, and a rest is remembered in the last bit. -/
def nearestQuotient (n d : Nat) : Float :=
  let shift : Int := 70 + (Nat.log2 d : Int) - (Nat.log2 n : Int)
  let up := n * Nat.pow 2 shift.toNat
  let down := d * Nat.pow 2 (-shift).toNat
  let quotient := up / down
  let sticky := if up % down = 0 then quotient else quotient / 2 * 2 + 1
  (Float.ofNat sticky).scaleB (-shift)

def arithmetic (onInt : Int → Int → Int) (onFloat : Float → Float → Float) :
    Number → Number → Except Failure Number
  | int i, int j => .ok (.int (onInt i j))
  | a, b => do
    let x ← a.toFloat
    let y ← b.toFloat
    return .float (onFloat x y)

def add : Number → Number → Except Failure Number := arithmetic (· + ·) (· + ·)

def sub : Number → Number → Except Failure Number := arithmetic (· - ·) (· - ·)

/-- Division always gives a double. -/
def div : Number → Number → Except Failure Number
  | int i, int j =>
    if j = 0 then .error .divisionByZero
    else if i = 0 then .ok (.float 0.0)
    else
      let x := nearestQuotient i.natAbs j.natAbs
      if x.isInf then .error .overflow
      else .ok (.float (if (i < 0) = (j < 0) then x else -x))
  | a, b => do
    let x ← a.toFloat
    let y ← b.toFloat
    if (float y).equal (int 0) then .error .divisionByZero else return .float (x / y)

end Number

namespace Datum

variable {α : Type}

/-- What a leaf is compared by: numbers by size, a direction as its name. -/
def leafAlike [BEq α] (sameFloat : Bool) : Datum α → Datum α → Bool
  | null, null => true
  | wildcard, wildcard => true
  | object a, object b => a == b
  | float x, float y => (Number.float x).equal (.float y) || (sameFloat && x.toBits == y.toBits)
  | a, b =>
    match Number.of? a, Number.of? b with
    | some m, some n => m.equal n
    | none, none =>
      match a.text?, b.text? with
      | some s, some t => s == t
      | _, _ => false
    | _, _ => false

mutual

/-- Equality of data: numbers are compared by size whatever their kind, records without regard to
the order of their fields. A float that is no number equals nothing, unless `sameFloat` asks for
equality of what is written. -/
def alikeBy [BEq α] (sameFloat : Bool) : Datum α → Datum α → Bool
  | list xs, list ys => alikeItems sameFloat xs ys
  | record xs, record ys => xs.length == ys.length && alikeFields sameFloat xs ys
  | a, b => leafAlike sameFloat a b

def alikeItems [BEq α] (sameFloat : Bool) : List (Datum α) → List (Datum α) → Bool
  | [], [] => true
  | x :: xs, y :: ys => alikeBy sameFloat x y && alikeItems sameFloat xs ys
  | _, _ => false

def alikeFields [BEq α] (sameFloat : Bool) : Fields α → Fields α → Bool
  | [], _ => true
  | (key, x) :: rest, ys =>
    (match Record.get? ys key with
      | some y => alikeBy sameFloat x y
      | none => false) && alikeFields sameFloat rest ys

end

/-- Equality of data by size. -/
def alike [BEq α] : Datum α → Datum α → Bool := alikeBy false

/-- A text that denotes a number as that number; everything else as it is. -/
def numbered : Value → Value
  | text s => (Decimal.read? s).elim (text s) float
  | value => value

end Datum

end Olap
