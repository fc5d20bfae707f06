/-
The shortest decimals. Points of a grid, the digits of naturals and the digits that are chosen for a double
are all rationals, and intervals are intervals of rationals. A grid of seventeen digits is finer than the
interval around any double, so digits are always found; and whatever digits are found lie in the interval, so
the double nearest to them is the one that they were chosen for.
-/

import Mathlib
import Olap.Decimal.Notation
import Olap.Number
import Olap.Proofs.Doubles

namespace Olap.Decimal

/-! ### Digits -/

theorem natOf_append (front back : List Nat) :
    natOf (front ++ back) = natOf front * 10 ^ back.length + natOf back := by
  induction back using List.reverseRecOn with
  | nil => simp [natOf]
  | append_singleton back d inductionHypothesis =>
    have last (digits : List Nat) : natOf (digits ++ [d]) = 10 * natOf digits + d := by simp [natOf]
    rw [← List.append_assoc, last, last, inductionHypothesis, List.length_append, List.length_singleton,
      pow_succ]
    ring

theorem natOf_replicate_zero (n : Nat) : natOf (List.replicate n 0) = 0 := by
  induction n with
  | zero => rfl
  | succ n inductionHypothesis =>
    rw [List.replicate_succ', natOf_append, inductionHypothesis]
    rfl

theorem natOf_digitsOf (n : Nat) : natOf (digitsOf n) = n := by
  induction n using digitsOf.induct with
  | case1 => rw [digitsOf, if_pos rfl]; rfl
  | case2 n filled inductionHypothesis =>
    rw [digitsOf, if_neg filled, natOf_append, inductionHypothesis]
    simp only [natOf, List.length_singleton, List.foldl_cons, List.foldl_nil]
    omega

theorem lt_of_mem_digitsOf {n d : Nat} (member : d ∈ digitsOf n) : d < 10 := by
  induction n using digitsOf.induct with
  | case1 =>
    rw [digitsOf, if_pos rfl] at member
    cases member
  | case2 n filled inductionHypothesis =>
    rw [digitsOf, if_neg filled, List.mem_append, List.mem_singleton] at member
    rcases member with before | rfl
    · exact inductionHypothesis before
    · exact Nat.mod_lt _ (by decide)

theorem lt_pow_length_digitsOf (n : Nat) : n < 10 ^ (digitsOf n).length := by
  induction n using digitsOf.induct with
  | case1 => simp
  | case2 n filled inductionHypothesis =>
    rw [digitsOf, if_neg filled, List.length_append, List.length_singleton, pow_succ]
    omega

theorem pow_length_digitsOf_le {n : Nat} (filled : n ≠ 0) : 10 ^ (digitsOf n).length ≤ 10 * n := by
  induction n using digitsOf.induct with
  | case1 => exact absurd rfl filled
  | case2 n _ inductionHypothesis =>
    rw [digitsOf, if_neg filled, List.length_append, List.length_singleton, pow_succ]
    by_cases last : n / 10 = 0
    · rw [last, digitsOf, if_pos rfl]
      simp
      omega
    · have := inductionHypothesis last
      omega

theorem length_digitsOf_le_iff {n k : Nat} (positive : 0 < n) :
    (digitsOf n).length ≤ k ↔ n < 10 ^ k := by
  constructor
  · exact fun short => (lt_pow_length_digitsOf n).trans_le (Nat.pow_le_pow_right (by decide) short)
  · intro small
    have long := pow_length_digitsOf_le positive.ne'
    by_contra longer
    have : 10 ^ (k + 1) ≤ 10 ^ (digitsOf n).length := Nat.pow_le_pow_right (by decide) (by omega)
    rw [pow_succ] at this
    omega

/-- Digits are what is left without their zeros at the end, and the zeros. -/
theorem exists_dropEndZeros (digits : List Nat) :
    ∃ zeros, digits = dropEndZeros digits ++ List.replicate zeros 0 := by
  have zero : ∀ d ∈ digits.reverse.takeWhile (· == 0), d = 0 :=
    fun d member => by simpa using List.mem_takeWhile_imp member
  refine ⟨(digits.reverse.takeWhile (· == 0)).length, ?_⟩
  rw [dropEndZeros, ← List.reverse_replicate, ← List.eq_replicate_of_mem zero, ← List.reverse_append,
    List.takeWhile_append_dropWhile, List.reverse_reverse]

/-! ### Rationals -/

/-- The rational that digits stand for. -/
def Digits.value (d : Digits) : ℚ := natOf d.digits * 10 ^ (d.point - d.digits.length)

/-- Zeros at the end do not count. -/
theorem value_dropEndZeros (digits : List Nat) (point : Int) :
    (⟨dropEndZeros digits, point + digits.length⟩ : Digits).value = natOf digits * 10 ^ point := by
  obtain ⟨zeros, whole⟩ := exists_dropEndZeros digits
  have amount : natOf digits = natOf (dropEndZeros digits) * 10 ^ zeros := by
    conv_lhs => rw [whole, natOf_append, natOf_replicate_zero, List.length_replicate, Nat.add_zero]
  have length : digits.length = (dropEndZeros digits).length + zeros := by
    conv_lhs => rw [whole, List.length_append, List.length_replicate]
  rw [Digits.value, amount, length]
  push_cast
  rw [show point + ((dropEndZeros digits).length + (zeros : Int)) - (dropEndZeros digits).length =
    zeros + point by ring, zpow_add₀ (by norm_num), zpow_natCast, mul_assoc]

theorem onGrid_pos (point : Int) (n steps : Nat) : 0 < (onGrid point n steps).2 := by
  unfold onGrid
  dsimp only
  split
  · exact Nat.one_pos
  · exact Nat.pow_pos (by decide)

theorem onGrid_ratio (point : Int) (n steps : Nat) :
    ((onGrid point n steps).1 : ℚ) / (onGrid point n steps).2 = steps * 10 ^ (point - n) := by
  unfold onGrid
  generalize point - n = shift
  simp only [show ∀ k, Nat.pow 10 k = 10 ^ k from fun _ => rfl]
  split
  · obtain ⟨k, rfl⟩ := Int.eq_ofNat_of_zero_le (by assumption : 0 ≤ shift)
    simp
  · obtain ⟨k, rfl⟩ := Int.exists_eq_neg_ofNat (by omega : shift ≤ 0)
    simp [div_eq_mul_inv]

/-- A rational lies in an interval. -/
def Interval.Has (span : Interval) (q : ℚ) : Prop :=
  if span.closed then (span.low : ℚ) ≤ q * span.scale ∧ q * span.scale ≤ span.high
  else (span.low : ℚ) < q * span.scale ∧ q * span.scale < span.high

theorem Interval.holds_iff_has (span : Interval) {n d : Nat} (positive : 0 < d) :
    span.holds n d = true ↔ span.Has ((n : ℚ) / d) := by
  have positiveQ : (0 : ℚ) < d := Nat.cast_pos.2 positive
  unfold Interval.holds Interval.Has
  dsimp only
  rw [div_mul_eq_mul_div]
  split
  · rw [Bool.and_eq_true, decide_eq_true_iff, decide_eq_true_iff, le_div_iff₀ positiveQ,
      div_le_iff₀ positiveQ]
    norm_cast
  · rw [Bool.and_eq_true, decide_eq_true_iff, decide_eq_true_iff, lt_div_iff₀ positiveQ,
      div_lt_iff₀ positiveQ]
    norm_cast

/-! ### Hits -/

theorem Interval.hit?_eq_some {span : Interval} {point : Int} {n steps : Nat}
    (hit : span.hit? point n = some steps) : steps ≠ 0 ∧ span.Has (steps * 10 ^ (point - n)) := by
  have inside : (steps != 0 && span.holds (onGrid point n steps).1 (onGrid point n steps).2) = true := by
    unfold Interval.hit? at hit
    dsimp only at hit
    split at hit
    · split at hit
      · cases hit; assumption
      · split at hit
        · cases hit; assumption
        · split at hit <;> cases hit <;> assumption
    · cases hit; assumption
    · cases hit; assumption
    · cases hit
  rw [Bool.and_eq_true, bne_iff_ne, span.holds_iff_has (onGrid_pos _ _ _), onGrid_ratio] at inside
  exact inside

theorem Interval.search_eq_some {span : Interval} {point : Int} {n fuel found steps : Nat}
    (hit : span.search point n fuel = some (found, steps)) :
    steps ≠ 0 ∧ span.Has (steps * 10 ^ (point - found)) := by
  induction fuel generalizing n with
  | zero => cases hit
  | succ fuel inductionHypothesis =>
    rw [search] at hit
    cases now : span.hit? point n with
    | none =>
      rw [now] at hit
      exact inductionHypothesis hit
    | some other =>
      rw [now] at hit
      cases hit
      exact hit?_eq_some now

theorem Interval.exists_search {span : Interval} {point : Int} {n fuel last steps : Nat}
    (after : n ≤ last) (within : last < n + fuel) (hit : span.hit? point last = some steps) :
    ∃ found, span.search point n fuel = some found := by
  induction fuel generalizing n with
  | zero => omega
  | succ fuel inductionHypothesis =>
    rw [search]
    cases now : span.hit? point n with
    | some other => exact ⟨_, rfl⟩
    | none =>
      have later : n ≠ last := by
        rintro rfl
        exact nomatch now.symm.trans hit
      exact inductionHypothesis (by omega) (by omega)

theorem Interval.exists_hit? {span : Interval} {point : Int} {n below : Nat}
    (floor : span.value * (onGrid point n 1).2 / (span.scale * (onGrid point n 1).1) = below)
    (some : below ≠ 0)
    (near : span.Has (below * 10 ^ (point - n)) ∨ span.Has ((below + 1 : Nat) * 10 ^ (point - n))) :
    ∃ steps, span.hit? point n = .some steps := by
  unfold hit?
  simp only [floor]
  rw [← onGrid_ratio, ← onGrid_ratio, ← span.holds_iff_has (onGrid_pos _ _ _),
    ← span.holds_iff_has (onGrid_pos _ _ _)] at near
  have here : (below != 0) = true := by simpa using some
  have next : (below + 1 != 0) = true := by simp
  rw [here, next, Bool.true_and, Bool.true_and]
  split
  · split
    · exact ⟨_, rfl⟩
    · split
      · exact ⟨_, rfl⟩
      · split <;> exact ⟨_, rfl⟩
  · exact ⟨_, rfl⟩
  · exact ⟨_, rfl⟩
  · simp_all

/-- The point of an interval is not too far to the right. -/
theorem Interval.pow_point_le {span : Interval} (value : 0 < span.value) (scale : 0 < span.scale) :
    (10 : ℚ) ^ (span.point - 1) ≤ span.value / span.scale := by
  have scaleQ : (0 : ℚ) < span.scale := Nat.cast_pos.2 scale
  unfold point
  dsimp only
  rw [show ∀ k, Nat.pow 10 k = 10 ^ k from fun _ => rfl]
  split
  · rename_i whole
    have some : span.value / span.scale ≠ 0 := (Nat.div_pos whole scale).ne'
    have length := pow_length_digitsOf_le some
    rw [zpow_sub_one₀ (by norm_num), zpow_natCast, mul_inv_le_iff₀ (by norm_num)]
    calc (10 : ℚ) ^ (digitsOf (span.value / span.scale)).length
        ≤ 10 * (span.value / span.scale : Nat) := by exact_mod_cast length
      _ ≤ (span.value / span.scale) * 10 := by
        rw [mul_comm]
        exact mul_le_mul_of_nonneg_right Nat.cast_div_le (by norm_num)
  · rename_i small
    have some : span.scale / span.value ≠ 0 := (Nat.div_pos (by omega) value).ne'
    have length := lt_pow_length_digitsOf (span.scale / span.value)
    generalize up : (digitsOf (span.scale / span.value)).length = k at *
    obtain ⟨k, rfl⟩ : ∃ less, k = less + 1 :=
      Nat.exists_eq_add_one_of_ne_zero fun zero => by simp [zero] at length; omega
    split
    · rename_i tight
      rw [show (2 : Int) - (k + 1 : Nat) - 1 = -(k : Nat) by push_cast; ring, zpow_neg, zpow_natCast,
        inv_le_comm₀ (by positivity) (by positivity), inv_div, div_le_iff₀ (by positivity), mul_comm]
      exact_mod_cast tight
    · rw [show (1 : Int) - (k + 1 : Nat) - 1 = -(k + 1 : Nat) by push_cast; ring, zpow_neg, zpow_natCast,
        inv_le_comm₀ (by positivity) (by positivity), inv_div, div_le_iff₀ (by positivity)]
      exact_mod_cast ((Nat.div_lt_iff_lt_mul value).1 length).le

/-! ### Seventeen digits -/

theorem Interval.has_of_lt {span : Interval} {q : ℚ} (low : (span.low : ℚ) < q * span.scale)
    (high : q * span.scale < span.high) : span.Has q := by
  unfold Has
  split
  · exact ⟨low.le, high.le⟩
  · exact ⟨low, high⟩

theorem Interval.Has.bounds {span : Interval} {q : ℚ} (inside : span.Has q) :
    (span.low : ℚ) ≤ q * span.scale ∧ q * span.scale ≤ span.high := by
  unfold Has at inside
  split at inside
  · exact inside
  · exact ⟨inside.1.le, inside.2.le⟩

/-- How far the next double is from one with an exponent. -/
def gap (exponent : Nat) : ℚ := 2 ^ exponent / (unitsPerOne : ℚ)

theorem gap_pos (exponent : Nat) : 0 < gap exponent := by
  have positive := unitsPerOne_pos
  unfold gap
  positivity

section Around

variable (mantissa exponent : Nat) (narrow : Bool)

theorem around_eq : Interval.around mantissa exponent narrow =
    { low := (4 * mantissa - if narrow then 1 else 2) * 2 ^ exponent
      value := 4 * mantissa * 2 ^ exponent
      high := (4 * mantissa + 2) * 2 ^ exponent
      scale := 4 * unitsPerOne
      closed := mantissa % 2 == 0 } := by
  unfold Interval.around unitsPerOne
  generalize Nat.pow 2 1074 = units
  rfl

theorem scale_around_pos : 0 < (Interval.around mantissa exponent narrow).scale := by
  have positive := unitsPerOne_pos
  rw [around_eq]
  dsimp only
  omega

theorem value_around : ((Interval.around mantissa exponent narrow).value : ℚ) =
    mantissa * gap exponent * (Interval.around mantissa exponent narrow).scale := by
  have positive := unitsPerOne_pos
  rw [around_eq, gap]
  push_cast
  field_simp

theorem high_around : ((Interval.around mantissa exponent narrow).high : ℚ) =
    (mantissa * gap exponent + gap exponent / 2) * (Interval.around mantissa exponent narrow).scale := by
  have positive := unitsPerOne_pos
  rw [around_eq, gap]
  push_cast
  field_simp
  ring

theorem low_around {mantissa : Nat} (filled : 0 < mantissa) :
    ((Interval.around mantissa exponent narrow).low : ℚ) =
      (mantissa * gap exponent - gap exponent / (if narrow then 4 else 2)) *
        (Interval.around mantissa exponent narrow).scale := by
  have room : (if narrow then 1 else 2) ≤ 4 * mantissa := by split <;> omega
  have positive := unitsPerOne_pos
  rw [around_eq, gap]
  dsimp only
  push_cast [Nat.cast_sub room]
  cases narrow
  · simp only [Bool.false_eq_true, if_false]
    field_simp
    ring
  · simp only [if_true]
    field_simp

end Around

/-- What is less than half a gap away, or below the least mantissa less than a quarter, is in the interval
around a double. -/
theorem has_around {mantissa exponent : Nat} {narrow : Bool} (filled : 0 < mantissa) {q : ℚ}
    (low : mantissa * gap exponent - gap exponent / (if narrow then 4 else 2) < q)
    (high : q < mantissa * gap exponent + gap exponent / 2) :
    (Interval.around mantissa exponent narrow).Has q := by
  have positive : (0 : ℚ) < (Interval.around mantissa exponent narrow).scale :=
    Nat.cast_pos.2 (scale_around_pos _ _ _)
  refine Interval.has_of_lt ?_ ?_
  · rw [low_around _ _ filled]
    exact mul_lt_mul_of_pos_right low positive
  · rw [high_around]
    exact mul_lt_mul_of_pos_right high positive

/-- What is in the interval around a double is at most half a gap away. -/
theorem bounds_of_has {mantissa exponent : Nat} {narrow : Bool} (filled : 0 < mantissa) {q : ℚ}
    (inside : (Interval.around mantissa exponent narrow).Has q) :
    mantissa * gap exponent - gap exponent / 2 ≤ q ∧ q ≤ mantissa * gap exponent + gap exponent / 2 := by
  have positive : (0 : ℚ) < (Interval.around mantissa exponent narrow).scale :=
    Nat.cast_pos.2 (scale_around_pos _ _ _)
  obtain ⟨low, high⟩ := inside.bounds
  rw [low_around _ _ filled] at low
  rw [high_around] at high
  have narrower : gap exponent / (if narrow then 4 else 2) ≤ gap exponent / 2 := by
    have := gap_pos exponent
    split <;> linarith
  exact ⟨by linarith [le_of_mul_le_mul_right low positive], le_of_mul_le_mul_right high positive⟩

/-- The point of a grid at or below the value of an interval, and the next. -/
theorem Interval.between_points {span : Interval} (scale : 0 < span.scale) (point : Int) (n : Nat) :
    let below := span.value * (onGrid point n 1).2 / (span.scale * (onGrid point n 1).1)
    (below : ℚ) * 10 ^ (point - n) ≤ span.value / span.scale ∧
      (span.value : ℚ) / span.scale < (below + 1 : Nat) * 10 ^ (point - n) := by
  have unit := onGrid_ratio point n 1
  have bottom : (0 : ℚ) < (onGrid point n 1).2 := Nat.cast_pos.2 (onGrid_pos point n 1)
  have scaleQ : (0 : ℚ) < span.scale := Nat.cast_pos.2 scale
  have width : (0 : ℚ) < 10 ^ (point - n) := by positivity
  rw [Nat.cast_one, one_mul] at unit
  rw [← unit] at width ⊢
  generalize (onGrid point n 1).1 = numerator at *
  generalize (onGrid point n 1).2 = denominator at *
  have top : 0 < numerator := by
    rw [div_pos_iff_of_pos_right bottom] at width
    exact_mod_cast width
  dsimp only
  rw [mul_div_assoc', mul_div_assoc', div_le_div_iff₀ bottom scaleQ, div_lt_div_iff₀ scaleQ bottom]
  constructor
  · have := Nat.div_mul_le_self (span.value * denominator) (span.scale * numerator)
    rw [mul_assoc, mul_comm (numerator : ℚ)]
    exact_mod_cast this
  · have := Nat.lt_mul_div_succ (span.value * denominator) (Nat.mul_pos scale top)
    rw [mul_assoc, mul_comm (numerator : ℚ), mul_comm ((_ + 1 : Nat) : ℚ)]
    exact_mod_cast this

/-- Of two neighbours on a grid of at least seventeen digits that a double is between, one is in the interval
around it: the next above if there is less room below, else the nearer. -/
theorem has_neighbour {mantissa exponent : Nat} {narrow : Bool} (double : IsDouble mantissa exponent narrow)
    {width : ℚ} {below : Nat} (step : 0 < width) (fine : width * 10 ^ 16 ≤ mantissa * gap exponent)
    (atMost : below * width ≤ mantissa * gap exponent)
    (above : mantissa * gap exponent < (below + 1 : Nat) * width) :
    (Interval.around mantissa exponent narrow).Has (below * width) ∨
      (Interval.around mantissa exponent narrow).Has ((below + 1 : Nat) * width) := by
  have positive := gap_pos exponent
  have short : (mantissa : ℚ) < 2 ^ 53 := by exact_mod_cast double.mantissa_lt
  have finer := mul_lt_mul_of_pos_right short positive
  have room (part : Bool) : 0 < gap exponent / (if part then 4 else 2) := by split <;> positivity
  push_cast at above ⊢
  cases isNarrow : narrow with
  | true =>
    have least : (mantissa : ℚ) = 2 ^ 52 := by exact_mod_cast (double.narrow_iff.1 isNarrow).1
    refine Or.inr (has_around double.pos ?_ ?_)
    · linarith [room true]
    · rw [least] at fine atMost ⊢
      linarith
  | false =>
    by_cases near : mantissa * gap exponent - gap exponent / 2 < below * width
    · refine Or.inl (has_around double.pos ?_ ?_)
      · simpa using near
      · linarith
    · refine Or.inr (has_around double.pos ?_ ?_)
      · linarith [room false]
      · linarith

/-- Seventeen digits come close enough to any double. -/
theorem exists_search_around {mantissa exponent : Nat} {narrow : Bool}
    (double : IsDouble mantissa exponent narrow) :
    ∃ found, (Interval.around mantissa exponent narrow).search
      (Interval.around mantissa exponent narrow).point 1 17 = some found := by
  generalize spanned : Interval.around mantissa exponent narrow = span
  have scale : 0 < span.scale := spanned ▸ scale_around_pos _ _ _
  have scaleQ : (0 : ℚ) < span.scale := Nat.cast_pos.2 scale
  have amount : (span.value : ℚ) / span.scale = mantissa * gap exponent := by
    rw [div_eq_iff scaleQ.ne', ← spanned, value_around]
  have positive : (0 : ℚ) < mantissa * gap exponent :=
    mul_pos (Nat.cast_pos.2 double.pos) (gap_pos exponent)
  have value : 0 < span.value := by
    rw [← amount, div_pos_iff_of_pos_right scaleQ] at positive
    exact_mod_cast positive
  have fine : (10 : ℚ) ^ (span.point - (17 : Nat)) * 10 ^ 16 ≤ mantissa * gap exponent := by
    rw [← amount]
    refine le_of_eq_of_le ?_ (span.pow_point_le value scale)
    rw [← zpow_natCast, ← zpow_add₀ (by norm_num)]
    congr 1
    push_cast
    ring
  have step : (0 : ℚ) < 10 ^ (span.point - (17 : Nat)) := by positivity
  obtain ⟨atMost, above⟩ := Interval.between_points scale span.point 17
  rw [amount] at atMost above
  have near := has_neighbour double step fine atMost above
  obtain ⟨steps, hit⟩ := span.exists_hit? (n := 17) rfl (fun zero => by
    rw [zero, Nat.zero_add, Nat.cast_one, one_mul] at above
    linarith) (spanned ▸ near)
  exact span.exists_search (show 1 ≤ 17 by decide) (by decide) hit

/-- The digits of a double stand for a rational of the interval around it. -/
theorem has_shortest {mantissa exponent : Nat} {narrow : Bool} (double : IsDouble mantissa exponent narrow) :
    (shortest mantissa exponent narrow).digits ≠ [] ∧
      (∀ d ∈ (shortest mantissa exponent narrow).digits, d < 10) ∧
      (Interval.around mantissa exponent narrow).Has (shortest mantissa exponent narrow).value := by
  obtain ⟨⟨n, steps⟩, searched⟩ := exists_search_around double
  obtain ⟨some, inside⟩ := Interval.search_eq_some searched
  unfold shortest
  dsimp only
  rw [searched]
  dsimp only
  rw [value_dropEndZeros, natOf_digitsOf]
  obtain ⟨zeros, whole⟩ := exists_dropEndZeros (digitsOf steps)
  refine ⟨fun empty => some ?_, fun d member => lt_of_mem_digitsOf (n := steps) ?_, inside⟩
  · rw [← natOf_digitsOf steps, whole, empty, List.nil_append, natOf_replicate_zero]
  · rw [whole]
    exact List.mem_append_left _ member

/-! ### Rereading -/

theorem two_zpow_le_ten_zpow (k : Nat) : (2 : ℚ) ^ (3 * (k : Int)) ≤ 10 ^ (k : Int) := by
  rw [zpow_mul, zpow_natCast, zpow_natCast]
  exact pow_le_pow_left₀ (by norm_num) (by norm_num) k

theorem gap_eq_zpow (exponent : Nat) : gap exponent = 2 ^ ((exponent : Int) - 1074) := by
  rw [show (1074 : Int) = ((1074 : Nat) : Int) from rfl, gap]
  unfold unitsPerOne
  generalize (1074 : Nat) = k
  rw [zpow_sub₀ (by norm_num), zpow_natCast, zpow_natCast, show Nat.pow 2 k = 2 ^ k from rfl,
    Nat.cast_pow, Nat.cast_ofNat]

/-- No rational in an interval around a double is very small or very big. -/
theorem range_of_has {mantissa exponent : Nat} {narrow : Bool} (double : IsDouble mantissa exponent narrow)
    {q : ℚ} (inside : (Interval.around mantissa exponent narrow).Has q) :
    (10 : ℚ) ^ (-400 : Int) ≤ q ∧ q < 10 ^ (400 : Int) := by
  have positive := gap_pos exponent
  obtain ⟨low, high⟩ := bounds_of_has double.pos inside
  have small := double.exponent_le
  have one : (1 : ℚ) ≤ mantissa := by exact_mod_cast double.pos
  have short : (mantissa : ℚ) + 1 ≤ 2 ^ (53 : Int) := by exact_mod_cast double.mantissa_lt
  have atLeast := mul_le_mul_of_nonneg_right one positive.le
  have atMost := mul_le_mul_of_nonneg_right short positive.le
  have tens := two_zpow_le_ten_zpow 400
  constructor
  · calc (10 : ℚ) ^ (-400 : Int) = (10 ^ ((400 : Nat) : Int))⁻¹ := by rw [zpow_neg]; rfl
      _ ≤ (2 ^ (3 * ((400 : Nat) : Int)))⁻¹ := inv_anti₀ (by positivity) tens
      _ = 2 ^ (-(3 * ((400 : Nat) : Int))) := (zpow_neg _ _).symm
      _ ≤ 2 ^ ((exponent : Int) - 1074 - 1) := zpow_le_zpow_right₀ (by norm_num) (by omega)
      _ = gap exponent / 2 := by rw [zpow_sub_one₀ (by norm_num), gap_eq_zpow, div_eq_mul_inv]
      _ ≤ q := by linarith
  · calc q < 2 ^ (53 : Int) * gap exponent := by linarith
      _ = 2 ^ (53 + ((exponent : Int) - 1074)) := by rw [gap_eq_zpow, zpow_add₀ (by norm_num)]
      _ ≤ 2 ^ (3 * ((400 : Nat) : Int)) := zpow_le_zpow_right₀ (by norm_num) (by omega)
      _ ≤ 10 ^ (400 : Int) := tens

/-- A decimal in the interval around a double is read as the double. -/
theorem nearest_eq {mantissa exponent : Nat} {narrow : Bool} (double : IsDouble mantissa exponent narrow)
    {n : Nat} {power : Int} (some : n ≠ 0)
    (inside : (Interval.around mantissa exponent narrow).Has (n * 10 ^ power)) :
    nearest false n power = Float.ofBits (UInt64.ofNat (exponent * 2 ^ 52 + mantissa)) := by
  obtain ⟨low, high⟩ := range_of_has double inside
  have width : (0 : ℚ) < 10 ^ power := by positivity
  have ten : (1 : ℚ) < 10 := by norm_num
  have size : (10 : ℚ) ^ (((digitsOf n).length : Int) + power) =
      (10 ^ (digitsOf n).length : Nat) * 10 ^ power := by
    rw [zpow_add₀ (by norm_num), zpow_natCast, Nat.cast_pow, Nat.cast_ofNat]
  have notBig : ¬((digitsOf n).length : Int) + power > 400 := by
    intro big
    have long : ((10 ^ (digitsOf n).length : Nat) : ℚ) ≤ (10 * n : Nat) :=
      Nat.cast_le.2 (pow_length_digitsOf_le some)
    refine absurd big (not_lt_of_ge (Int.le_of_lt_add_one ((zpow_lt_zpow_iff_right₀ ten).1 ?_)))
    rw [size, zpow_add_one₀ (by norm_num)]
    generalize (10 : ℚ) ^ (400 : Int) = most at high ⊢
    push_cast at long ⊢
    linarith [mul_le_mul_of_nonneg_right long width.le]
  have notSmall : ¬((digitsOf n).length : Int) + power < -400 := by
    intro small
    have short : (n : ℚ) ≤ (10 ^ (digitsOf n).length : Nat) := Nat.cast_le.2 (lt_pow_length_digitsOf n).le
    refine absurd small (not_lt_of_ge ((zpow_le_zpow_iff_right₀ ten).1 ?_))
    rw [size]
    exact low.trans (mul_le_mul_of_nonneg_right short width.le)
  unfold nearest nearestRatio
  dsimp only
  rw [if_neg Bool.false_ne_true, if_neg some, if_neg notBig, if_neg notSmall, nearestBits_eq double
    (onGrid_pos power 0 n)]
  rw [Interval.holds_iff_has _ (onGrid_pos power 0 n), onGrid_ratio]
  simpa using inside

end Olap.Decimal
