/-
Doubles by their bits. A double is made again of its bits, and its bits are made again of what they are taken
apart into: the bits of a positive finite double are its mantissa and its exponent above it. The double
nearest to a rational has just these bits, if the rational lies in the interval of those that round to it.
-/

import Mathlib
import Olap.Decimal.Nearest
import Olap.Decimal.Shortest

namespace Olap.Decimal

/-! ### Doubles and their bits -/

section Bits

open Float.Model

variable {bits : BitVec Format.binary64.numBits}

/-- Bits are put together again from their sign, exponent and mantissa. -/
theorem packComponents_unpack (bits : BitVec Format.binary64.numBits) :
    UnpackedFloat.packComponents Format.binary64
      (UnpackedFloat.Sign.ofBitVec (UnpackedFloat.unpackSign bits)) (UnpackedFloat.unpackExponent bits)
      (UnpackedFloat.unpackMantissa bits) = bits := by
  have sign : ∀ sign : BitVec 1, (UnpackedFloat.Sign.ofBitVec sign).toBitVec = sign := by decide
  simp only [UnpackedFloat.packComponents, sign, UnpackedFloat.unpackSign, UnpackedFloat.unpackExponent,
    UnpackedFloat.unpackMantissa, BitVec.extractLsb]
  ext i inside
  grind

theorem toNat_one_append (mantissa : BitVec 52) : (1#1 ++ mantissa).toNat = 2 ^ 52 + mantissa.toNat := by
  show 2 ^ 52 ||| mantissa.toNat = _
  rw [Nat.or_comm, Nat.or_two_pow_eq_add_of_lt mantissa.isLt, Nat.add_comm]

theorem pack_subnormal (sign : UnpackedFloat.Sign) (mantissa : BitVec 52) (filled : 0 < mantissa.toNat) :
    UnpackedFloat.pack Format.binary64 (.finite sign mantissa.toNat (-1074) filled) =
      UnpackedFloat.packComponents Format.binary64 sign 0#_ mantissa := by
  have short : mantissa.toNat.log2 < 52 := (Nat.log2_lt filled.ne').2 mantissa.isLt
  rw [UnpackedFloat.pack]
  dsimp only
  rw [if_neg (by decide), if_neg (by simp only [Format.mantissaBits]; omega)]
  rw [BitVec.ofNat_toNat, BitVec.setWidth_eq]

theorem pack_normal (sign : UnpackedFloat.Sign) (exponent : BitVec 11) (mantissa : BitVec 52)
    (high : exponent ≠ -1#11) (filled : 0 < (1#1 ++ mantissa).toNat) :
    UnpackedFloat.pack Format.binary64
        (.finite sign (1#1 ++ mantissa).toNat ((exponent.toNat : Int) - (1023 + 52)) filled) =
      UnpackedFloat.packComponents Format.binary64 sign exponent mantissa := by
  have long : (1#1 ++ mantissa).toNat.log2 = 52 := by
    rw [toNat_one_append, Nat.log2_eq_iff (by omega)]
    have := mantissa.isLt
    omega
  have below : exponent.toNat < 2047 := by
    have bounded := exponent.isLt
    have other : exponent.toNat ≠ 2047 := fun same => high (BitVec.eq_of_toNat_eq same)
    omega
  have biased : (exponent.toNat - (1023 + 52) + (Format.binary64.exponentBias : Int) +
      (Format.binary64.mantissaBitsWithoutImplicit : Nat)).toNat = exponent.toNat := by
    show ((exponent.toNat : Int) - (1023 + 52) + 1023 + 52).toNat = exponent.toNat
    omega
  rw [UnpackedFloat.pack]
  dsimp only
  rw [biased, long, if_neg (by show ¬2048 ≤ exponent.toNat + 1; omega),
    if_pos (show 52 + 1 = Format.binary64.mantissaBits from rfl), BitVec.ofNat_toNat, BitVec.setWidth_eq]
  congr 1
  refine BitVec.eq_of_toNat_eq ?_
  rw [BitVec.toNat_ofNat, toNat_one_append, Nat.add_mod_left, Nat.mod_eq_of_lt mantissa.isLt]

/-- Bits that are no second spelling of what is no number are packed again as they were unpacked. -/
theorem pack_unpack (valid : Format.binary64.Valid bits) :
    UnpackedFloat.pack Format.binary64 (UnpackedFloat.unpack Format.binary64 bits) = bits := by
  have whole := packComponents_unpack bits
  unfold UnpackedFloat.unpack
  dsimp only
  split
  · rename_i full
    split
    · rename_i empty
      rw [full, empty] at whole
      exact whole
    · rename_i filled
      exact (valid.eq_packedNaN full filled).symm
  · rename_i high
    split
    · rename_i low
      split
      · rename_i empty
        rw [low, empty] at whole
        exact whole
      · rw [low] at whole
        simp only [low]
        exact (pack_subnormal _ _ _).trans whole
    · exact (pack_normal _ _ _ high _).trans whole

theorem ofBits_toBits (x : Float) : Float.ofBits x.toBits = x := by
  obtain ⟨⟨bits, valid⟩⟩ := x
  refine congrArg Float.ofModel ((Float.Model.mk.injEq _ _ _ _).mpr ?_)
  exact congrArg UInt64.ofBitVec (pack_unpack valid)

end Bits

/-! ### What bits stand for -/

/-- What the mantissa and the exponent of a finite double are like. -/
structure IsDouble (mantissa exponent : Nat) (narrow : Bool) : Prop where
  pos : 0 < mantissa
  mantissa_lt : mantissa < 2 ^ 53
  exponent_le : exponent ≤ 2045
  normal : exponent ≠ 0 → 2 ^ 52 ≤ mantissa
  narrow_iff : narrow = true ↔ mantissa = 2 ^ 52 ∧ exponent ≠ 0

/-- A finite double is taken apart into its mantissa and its exponent, which make up its bits. -/
theorem isDouble_of_content {x : Float} {negative narrow : Bool} {mantissa exponent : Nat}
    (content : Content.ofFloat x = .finite negative mantissa exponent narrow) :
    IsDouble mantissa exponent narrow ∧
      x.toBits.toNat = (if negative then 2 ^ 63 else 0) + exponent * 2 ^ 52 + mantissa := by
  have bounded : x.toBits.toNat < 2 ^ 64 := x.toBits.toNat_lt
  simp only [Content.ofFloat, show Nat.pow 2 63 = 2 ^ 63 from rfl, show Nat.pow 2 52 = 2 ^ 52 from rfl,
    show Nat.pow 2 11 = 2 ^ 11 from rfl] at content
  generalize x.toBits.toNat = bits at *
  split at content
  · split at content <;> cases content
  · split at content
    · split at content
      · cases content
      · cases content
        refine ⟨⟨by omega, by omega, by omega, by omega, by simp⟩, ?_⟩
        split <;> simp_all <;> omega
    · cases content
      refine ⟨⟨by omega, by omega, by omega, by omega, ?_⟩, ?_⟩
      · simp
        omega
      · split <;> simp_all <;> omega

theorem toBits_of_infinite {x : Float} (content : Content.ofFloat x = .infinite false) :
    x.toBits.toNat = infinityBits := by
  have bounded : x.toBits.toNat < 2 ^ 64 := x.toBits.toNat_lt
  simp only [infinityBits, Content.ofFloat, show Nat.pow 2 63 = 2 ^ 63 from rfl,
    show Nat.pow 2 52 = 2 ^ 52 from rfl, show Nat.pow 2 11 = 2 ^ 11 from rfl] at content ⊢
  generalize x.toBits.toNat = bits at *
  split at content
  · split at content
    · simp only [Content.infinite.injEq, beq_eq_false_iff_ne] at content
      omega
    · cases content
  · split at content
    · split at content <;> cases content
    · cases content

/-- A double is made again of its bits as a number. -/
theorem eq_ofBits_ofNat {x : Float} {bits : Nat} (same : x.toBits.toNat = bits) :
    x = Float.ofBits (UInt64.ofNat bits) := by
  rw [← same, UInt64.ofNat_toNat, ofBits_toBits]

/-! ### Rounding -/

/-- What is at most half a unit away is what a quotient is rounded to, if it is even or less than half a unit
away. -/
theorem roundQuotient_eq {n d m : Nat} (positive : 0 < d) (low : 2 * (m * d) ≤ 2 * n + d)
    (high : 2 * n ≤ 2 * (m * d) + d)
    (even : m % 2 = 0 ∨ 2 * (m * d) < 2 * n + d ∧ 2 * n < 2 * (m * d) + d) :
    roundQuotient n d = m := by
  have whole : d * (n / d) + n % d = n := Nat.div_add_mod n d
  have rest : n % d < d := Nat.mod_lt n positive
  have atMost : n / d ≤ m := by
    rw [← Nat.lt_succ_iff, Nat.div_lt_iff_lt_mul positive, Nat.succ_mul]
    omega
  have atLeast : m ≤ n / d + 1 := by
    by_contra above
    have step : (n / d + 2) * d ≤ m * d := Nat.mul_le_mul_right d (by omega)
    rw [Nat.add_mul, Nat.mul_comm (n / d)] at step
    omega
  unfold roundQuotient
  dsimp only
  rcases (by omega : n / d = m ∨ n / d + 1 = m) with same | next
  · rw [same] at whole ⊢
    rw [Nat.mul_comm d m] at whole
    split
    · rfl
    · split <;> omega
  · have product : m * d = d * (n / d) + d := by rw [← next, Nat.add_mul, Nat.mul_comm, Nat.one_mul]
    split
    · omega
    · split
      · exact next
      · omega

/-- What lies in the interval around a double is at most half a unit away, and less than that if the mantissa
is odd; and below the least mantissa it is at most a quarter of a unit away. -/
theorem bounds_of_holds {mantissa exponent : Nat} {narrow : Bool} {n d : Nat} (filled : 0 < mantissa)
    (inside : (Interval.around mantissa exponent narrow).holds n d = true) :
    let units := n * Nat.pow 2 1074
    let gap := d * 2 ^ exponent
    2 * (mantissa * gap) ≤ 2 * units + gap ∧ 2 * units ≤ 2 * (mantissa * gap) + gap ∧
      (mantissa % 2 = 0 ∨ 2 * (mantissa * gap) < 2 * units + gap ∧ 2 * units < 2 * (mantissa * gap) + gap) ∧
      (narrow = true → 4 * (mantissa * gap) ≤ 4 * units + gap) := by
  unfold Interval.around Interval.holds at inside
  generalize Nat.pow 2 1074 = scale at *
  dsimp only at inside ⊢
  rw [show Nat.pow 2 exponent = 2 ^ exponent from rfl, Nat.mul_left_comm n 4 scale, Nat.mul_assoc,
    Nat.mul_assoc, Nat.mul_comm (2 ^ exponent) d, Nat.add_mul, Nat.sub_mul, Nat.mul_assoc] at inside
  generalize n * scale = units at *
  have room : d * 2 ^ exponent ≤ mantissa * (d * 2 ^ exponent) := Nat.le_mul_of_pos_left _ filled
  generalize d * 2 ^ exponent = gap at *
  generalize mantissa * gap = product at *
  by_cases even : mantissa % 2 = 0
  · rw [if_pos (beq_iff_eq.2 even), Bool.and_eq_true, decide_eq_true_iff, decide_eq_true_iff] at inside
    cases narrow <;> simp at inside ⊢ <;> omega
  · rw [if_neg (by simpa using even), Bool.and_eq_true, decide_eq_true_iff, decide_eq_true_iff] at inside
    cases narrow <;> simp at inside ⊢ <;> omega

theorem log2_div_eq {n d k : Nat} (low : 2 ^ k * d ≤ n) (high : n < 2 ^ (k + 1) * d) :
    Nat.log2 (n / d) = k := by
  have positive : 0 < d := Nat.pos_of_ne_zero fun zero => by simp [zero] at high
  have atLeast : 2 ^ k ≤ n / d := (Nat.le_div_iff_mul_le positive).2 low
  exact (Nat.log2_eq_iff (Nat.pos_of_ne_zero fun zero => by
    rw [zero] at atLeast; exact absurd atLeast (by simp)).ne').2
    ⟨atLeast, (Nat.div_lt_iff_lt_mul positive).2 high⟩

/-- The rationals of the interval around a double are rounded to its bits. -/
theorem nearestBits_eq {mantissa exponent : Nat} {narrow : Bool} (double : IsDouble mantissa exponent narrow)
    {n d : Nat} (positive : 0 < d)
    (inside : (Interval.around mantissa exponent narrow).holds n d = true) :
    nearestBits n d = exponent * 2 ^ 52 + mantissa := by
  obtain ⟨low, high, even, near⟩ := bounds_of_holds double.pos inside
  unfold nearestBits infinityBits
  generalize n * Nat.pow 2 1074 = units at *
  simp only [show Nat.pow 2 52 = 2 ^ 52 from rfl, show ∀ k, Nat.pow 2 k = 2 ^ k from fun _ => rfl]
  obtain ⟨filled, short, small, normal, narrowIff⟩ := double
  have gapPositive : 0 < d * 2 ^ exponent := by positivity
  have powers (k : Nat) : 2 ^ (k + exponent) * d = 2 ^ k * (d * 2 ^ exponent) := by
    rw [pow_add, Nat.mul_assoc, Nat.mul_comm d]
  have most : mantissa * (d * 2 ^ exponent) ≤ (2 ^ 53 - 1) * (d * 2 ^ exponent) :=
    Nat.mul_le_mul_right _ (by omega)
  have above : units < 2 ^ (53 + exponent) * d := by
    rw [powers]
    omega
  by_cases carried : exponent ≠ 0 ∧ units < 2 ^ 52 * (d * 2 ^ exponent)
  · -- Below the least mantissa the gaps are half as wide, and rounding carries into the next bit.
    obtain ⟨some, below⟩ := carried
    have least : mantissa = 2 ^ 52 := by
      refine (normal some).antisymm' ?_
      by_contra more
      have step : (2 ^ 52 + 1) * (d * 2 ^ exponent) ≤ mantissa * (d * 2 ^ exponent) :=
        Nat.mul_le_mul_right _ (by omega)
      omega
    have close := near (narrowIff.2 ⟨least, some⟩)
    obtain ⟨k, rfl⟩ := Nat.exists_eq_add_one_of_ne_zero some
    have halves : d * 2 ^ (k + 1) = 2 * (d * 2 ^ k) := by rw [pow_succ]; ring
    rw [halves, least] at close
    rw [halves] at below
    have halfPositive : 0 < d * 2 ^ k := by positivity
    have lower (j : Nat) : 2 ^ (j + k) * d = 2 ^ j * (d * 2 ^ k) := by
      rw [pow_add, Nat.mul_assoc, Nat.mul_comm d]
    have logarithm : Nat.log2 (units / d) = 52 + k := by
      refine log2_div_eq ?_ ?_
      · rw [lower]
        omega
      · rw [show 52 + k + 1 = 53 + k by omega, lower]
        omega
    have rounded : roundQuotient units (d * 2 ^ k) = 2 ^ 53 :=
      roundQuotient_eq halfPositive (by omega) (by omega) (Or.inl rfl)
    rw [logarithm, Nat.add_sub_cancel_left, rounded, least, Nat.min_eq_left (by omega)]
    ring
  · have dropped : Nat.log2 (units / d) - 52 = exponent := by
      by_cases none : exponent = 0
      · subst none
        by_cases zero : units / d = 0
        · rw [zero]
          rfl
        · have := (Nat.log2_lt zero).2 ((Nat.div_lt_iff_lt_mul positive).2 above)
          omega
      · rw [log2_div_eq (k := 52 + exponent) ?_ ?_, Nat.add_sub_cancel_left]
        · rw [powers]
          exact Nat.le_of_not_lt fun below => carried ⟨none, below⟩
        · rwa [show 52 + exponent + 1 = 53 + exponent by omega]
    rw [dropped, roundQuotient_eq gapPositive low high even]
    omega

end Olap.Decimal
