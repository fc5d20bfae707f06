/-
The double nearest to a given positive rational; of two that are equally near, the one with the even
mantissa. The bits of a positive double, read as a natural number, count the doubles below it, so rounding
is rounding of a quotient to a natural number: the rational is measured in units of the least positive
double, times the power of two that leaves no more bits than a mantissa has. When rounding carries into one
more bit, it arrives at the least double of the next power of two, as it should. Everything is exact
arithmetic on naturals.
-/

namespace Olap.Decimal

/-- The natural number nearest to `n / d`, the even one of two. -/
def roundQuotient (n d : Nat) : Nat :=
  let whole := n / d
  let rest := 2 * (n % d)
  if rest < d then whole else if d < rest then whole + 1 else whole + whole % 2

/-- The bits of infinity, which count all finite doubles from zero on. -/
def infinityBits : Nat := 2047 * Nat.pow 2 52

/-- The bits of the double nearest to `n / d`. -/
def nearestBits (n d : Nat) : Nat :=
  let units := n * Nat.pow 2 1074
  let drop := Nat.log2 (units / d) - 52
  min (drop * Nat.pow 2 52 + roundQuotient units (d * Nat.pow 2 drop)) infinityBits

/-- The double nearest to `n / d`. -/
def nearestRatio (n d : Nat) : Float := Float.ofBits (UInt64.ofNat (nearestBits n d))

end Olap.Decimal
