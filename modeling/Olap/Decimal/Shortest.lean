/-
The shortest decimal that reads back as a given binary floating point number. A positive finite
number is `mantissa * 2 ^ exponent` for naturals, and the reals that round to it form an interval
around it, whose ends belong to it exactly when the mantissa is even. A decimal with `n` digits
lies on the grid of multiples of a power of ten; when any point of a grid lies in the interval,
one of the two neighbours of the number on that grid does. So the grids are tried from the
coarsest on, and the first that hits gives the fewest digits. Everything is exact arithmetic on
naturals.
-/

namespace Olap.Decimal

/-- What the bits of a double stand for. -/
inductive Content
  | nan
  | infinite (negative : Bool)
  | zero (negative : Bool)
  /-- The number `mantissa * 2 ^ (exponent - 1074)`, up to its sign; `narrow` tells that the
  gap below it is half the gap above it. -/
  | finite (negative : Bool) (mantissa : Nat) (exponent : Nat) (narrow : Bool)

/-- Takes the bits of a double apart. -/
def Content.ofFloat (x : Float) : Content :=
  let bits := x.toBits.toNat
  let negative := bits / Nat.pow 2 63 == 1
  let exponent := bits / Nat.pow 2 52 % Nat.pow 2 11
  let fraction := bits % Nat.pow 2 52
  if exponent = 2047 then
    if fraction = 0 then .infinite negative else .nan
  else if exponent = 0 then
    if fraction = 0 then .zero negative else .finite negative fraction 0 false
  else .finite negative (Nat.pow 2 52 + fraction) (exponent - 1) (fraction == 0 && exponent != 1)

/-- Decimal digits, first digit first, of the number `0.d₁d₂… * 10 ^ point`. -/
structure Digits where
  digits : List Nat
  point : Int
deriving DecidableEq

/-- The digits of a natural number, none for zero. -/
def digitsOf (n : Nat) : List Nat :=
  if n = 0 then [] else digitsOf (n / 10) ++ [n % 10]
termination_by n
decreasing_by omega

/-- A list without its zeros at the end. -/
def dropEndZeros (digits : List Nat) : List Nat :=
  (digits.reverse.dropWhile (· == 0)).reverse

/-- An interval of positive rationals around a value, over one denominator. -/
structure Interval where
  low : Nat
  value : Nat
  high : Nat
  scale : Nat
  closed : Bool

/-- `n / den` lies in the interval. -/
def Interval.holds (span : Interval) (n den : Nat) : Bool :=
  let x := n * span.scale
  if span.closed then span.low * den ≤ x && x ≤ span.high * den
  else span.low * den < x && x < span.high * den

/-- The reals that round to `mantissa * 2 ^ (exponent - 1074)`. -/
def Interval.around (mantissa exponent : Nat) (narrow : Bool) : Interval :=
  let below := if narrow then 1 else 2
  let power := Nat.pow 2 exponent
  { low := (4 * mantissa - below) * power
    value := 4 * mantissa * power
    high := (4 * mantissa + 2) * power
    scale := 4 * Nat.pow 2 1074
    closed := mantissa % 2 == 0 }

/-- The least `point` with `value < 10 ^ point`. The digits of the whole part count it from one
on; below one, the digits of the reciprocal do, which are one too many at a power of ten. -/
def Interval.point (span : Interval) : Int :=
  if span.scale ≤ span.value then
    ((digitsOf (span.value / span.scale)).length : Int)
  else
    let up := (digitsOf (span.scale / span.value)).length
    if span.scale ≤ span.value * Nat.pow 10 (up - 1) then 2 - (up : Int) else 1 - (up : Int)

/-- The numbers on the grid of `10 ^ (point - n)`, as pairs of numerator and denominator. -/
def onGrid (point : Int) (n : Nat) (steps : Nat) : Nat × Nat :=
  let shift := point - n
  if 0 ≤ shift then (steps * Nat.pow 10 shift.toNat, 1) else (steps, Nat.pow 10 (-shift).toNat)

/-- The steps of the best hit on the grid with `n` digits, if there is one: of two hits the
nearer, and of two equally near the even one. -/
def Interval.hit? (span : Interval) (point : Int) (n : Nat) : Option Nat :=
  let unit := onGrid point n 1
  let below := span.value * unit.2 / (span.scale * unit.1)
  let inside := fun steps =>
    let x := onGrid point n steps
    steps != 0 && span.holds x.1 x.2
  match inside below, inside (below + 1) with
  | true, true =>
    let left := span.value * unit.2 - below * unit.1 * span.scale
    let right := (below + 1) * unit.1 * span.scale - span.value * unit.2
    if left < right then some below
    else if right < left then some (below + 1)
    else if below % 2 = 0 then some below else some (below + 1)
  | true, false => some below
  | false, true => some (below + 1)
  | false, false => none

/-- The first hit when the grids are tried from `n` digits on. -/
def Interval.search (span : Interval) (point : Int) (n : Nat) : Nat → Option (Nat × Nat)
  | 0 => none
  | fuel + 1 =>
    match span.hit? point n with
    | some steps => some (n, steps)
    | none => span.search point (n + 1) fuel

/-- The shortest digits of a positive finite double. Seventeen digits always suffice. -/
def shortest (mantissa exponent : Nat) (narrow : Bool) : Digits :=
  let span := Interval.around mantissa exponent narrow
  let point := span.point
  match span.search point 1 17 with
  | some (n, steps) =>
    let digits := digitsOf steps
    ⟨dropEndZeros digits, point - n + digits.length⟩
  | none => ⟨[], 0⟩

/-- The digits of a positive finite double, rounded to at most `n` of them; a tie goes up. -/
def rounded (n : Nat) (mantissa exponent : Nat) : Digits :=
  let span := Interval.around mantissa exponent false
  let point := span.point
  let unit := onGrid point n 1
  let step := span.scale * unit.1
  let digits := digitsOf ((2 * span.value * unit.2 + step) / (2 * step))
  ⟨dropEndZeros digits, point - n + digits.length⟩

end Olap.Decimal
