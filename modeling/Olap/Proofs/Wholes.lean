/-
Aggregates of whole numbers. When a column has whole numbers and absent values only, its sum is an
exact sum, its extreme values are those of the numbers, and where there is no number there is no sum
and no extreme value either. Sums, counts and extreme values of the parts of a list are enough to
know those of the list, in whatever order the parts come.
-/

import Mathlib
import Olap.Proofs.Groups

namespace Olap

/-- A whole number as a value; none is absent. -/
def wholeValue : Option Int → Value
  | some i => .int i
  | none => .null

/-- The whole number that a value is. -/
def whole? : Value → Option Int
  | .int i => some i
  | _ => none

/-- Whether a value is a whole number or absent. -/
def IsWhole (value : Value) : Prop := ∃ number, value = wholeValue number

/-- The whole numbers in a column of facts. -/
def wholesOf (column : String) (facts : List Row) : List Int :=
  facts.filterMap fun fact => whole? (fact.cell column)

/-- A sum of whole numbers, if there are any. -/
def sum? (numbers : List Int) : Option Int := if numbers.isEmpty then none else some numbers.sum

theorem getD_sum? (numbers : List Int) : (sum? numbers).getD 0 = numbers.sum := by
  cases numbers <;> rfl

theorem map_getD_sum? (parts : List (List Int)) :
    (parts.map sum?).map (·.getD 0) = parts.map List.sum := by
  rw [List.map_map]
  exact List.map_congr_left fun part _ => getD_sum? part

namespace Aggregator

/-! ### Aggregates of one column -/

theorem less_int (i j : Int) : Cell.less (.int i) (.int j) = decide (i < j) := by
  have positive : (0 : Int) < Decimal.unitsPerOne := Int.natCast_pos.mpr Decimal.unitsPerOne_pos
  show decide (i * Decimal.unitsPerOne < j * Decimal.unitsPerOne) = decide (i < j)
  rw [decide_eq_decide]
  exact Int.mul_lt_mul_right positive

/-- The values that count in a column of whole numbers. -/
theorem filter_present {column : String} {facts : List Row}
    (whole : ∀ fact ∈ facts, IsWhole (fact.cell column)) :
    (facts.map (Row.cell · column)).filter (!Cell.isAbsent ·) =
      (wholesOf column facts).map .int := by
  induction facts with
  | nil => rfl
  | cons fact rest inductionHypothesis =>
    have below := inductionHypothesis fun other member => whole other (List.mem_cons_of_mem _ member)
    obtain ⟨number, same⟩ := whole fact List.mem_cons_self
    unfold wholesOf at below ⊢
    rw [List.map_cons, List.filterMap_cons, same]
    cases number with
    | none => exact below
    | some i => exact congrArg (Datum.int i :: ·) below

theorem foldl_add_exact (numbers : List Int) (start : Int) :
    (numbers.map Number.int).foldl RunningSum.add (.exact start) =
      .exact (start + numbers.sum) := by
  induction numbers generalizing start with
  | nil => rw [List.sum_nil, Int.add_zero]; rfl
  | cons number rest inductionHypothesis =>
    rw [List.sum_cons, ← Int.add_assoc]
    exact inductionHypothesis (start + number)

theorem total_int (numbers : List Int) :
    total (numbers.map .int) = .exact numbers.sum := by
  unfold total
  rw [List.map_map, show summand ∘ Datum.int = Number.int from rfl, foldl_add_exact, Int.zero_add]

/-- An extreme value of whole numbers, chosen number by number. -/
theorem extreme_int {before : Value → Value → Bool} (choose : Int → Int → Int)
    (chosen : ∀ best next : Int,
      (if before (.int next) (.int best) then (.int next : Value) else .int best) =
        .int (choose best next)) (first : Int) (rest : List Int) :
    extreme before ((first :: rest).map Datum.int) = .int (rest.foldl choose first) := by
  show (rest.map Datum.int).foldl _ (Datum.int first) = _
  induction rest generalizing first with
  | nil => rfl
  | cons next rest inductionHypothesis =>
    rw [List.map_cons, List.foldl_cons, List.foldl_cons, chosen]
    exact inductionHypothesis (choose first next)

theorem extreme_min (numbers : List Int) :
    extreme (prefers .min) (numbers.map .int) = wholeValue numbers.min? := by
  cases numbers with
  | nil => rfl
  | cons first rest =>
    refine (extreme_int Min.min (fun best next => ?_) first rest).trans rfl
    show (if Cell.less (.int next) (.int best) then (.int next : Value) else .int best) = _
    rw [less_int]
    split <;> rename_i less <;> rw [decide_eq_true_eq] at less <;> congr 1 <;> omega

theorem extreme_max (numbers : List Int) :
    extreme (prefers .max) (numbers.map .int) = wholeValue numbers.max? := by
  cases numbers with
  | nil => rfl
  | cons first rest =>
    refine (extreme_int Max.max (fun best next => ?_) first rest).trans rfl
    show (if Cell.less (.int best) (.int next) then (.int next : Value) else .int best) = _
    rw [less_int]
    split <;> rename_i less <;> rw [decide_eq_true_eq] at less <;> congr 1 <;> omega

variable {column : String} {facts : List Row}

theorem count_ofValues (whole : ∀ fact ∈ facts, IsWhole (fact.cell column)) :
    Aggregator.count.ofValues (facts.map (Row.cell · column)) =
      .int (wholesOf column facts).length := by
  rw [ofValues, filter_present whole]
  show Datum.int (((wholesOf column facts).map (.int : Int → Value)).length : Int) = _
  rw [List.length_map]

theorem sum_ofValues (whole : ∀ fact ∈ facts, IsWhole (fact.cell column)) :
    Aggregator.sum.ofValues (facts.map (Row.cell · column)) =
      wholeValue (sum? (wholesOf column facts)) := by
  rw [ofValues, filter_present whole]
  unfold ofPresent sum?
  rw [total_int, List.isEmpty_map]
  cases (wholesOf column facts).isEmpty <;> rfl

theorem min_ofValues (whole : ∀ fact ∈ facts, IsWhole (fact.cell column)) :
    Aggregator.min.ofValues (facts.map (Row.cell · column)) =
      wholeValue (wholesOf column facts).min? := by
  rw [ofValues, filter_present whole]
  exact extreme_min _

theorem max_ofValues (whole : ∀ fact ∈ facts, IsWhole (fact.cell column)) :
    Aggregator.max.ofValues (facts.map (Row.cell · column)) =
      wholeValue (wholesOf column facts).max? := by
  rw [ofValues, filter_present whole]
  exact extreme_max _

end Aggregator

/-! ### Parts of a list -/

/-- The numbers in groups of facts are the numbers in all of them. -/
theorem wholesOf_flatten (column : String) (groups : List (List Row)) :
    wholesOf column groups.flatten = (groups.map (wholesOf column)).flatten := by
  unfold wholesOf
  rw [List.filterMap_flatten]

section Extremes

variable {choose : List Int → Option Int} {before : Int → Int → Prop}

/-- The extreme number of a list is the extreme one among those of its parts, whatever makes a number
extreme. -/
theorem extreme_flatten
    (chosen : ∀ {numbers a}, choose numbers = some a ↔ a ∈ numbers ∧ ∀ b ∈ numbers, before a b)
    (nothing : ∀ {numbers}, choose numbers = none ↔ numbers = [])
    (antisymmetric : ∀ {a b}, before a b → before b a → a = b) (parts : List (List Int)) :
    choose (parts.filterMap choose) = choose parts.flatten := by
  cases whole : choose parts.flatten with
  | none =>
    rw [nothing] at whole ⊢
    refine List.filterMap_eq_nil_iff.mpr fun part member => ?_
    exact nothing.mpr (List.flatten_eq_nil_iff.mp whole part member)
  | some a =>
    obtain ⟨member, first⟩ := chosen.mp whole
    obtain ⟨part, partMember, inside⟩ := List.mem_flatten.mp member
    have least : ∀ part ∈ parts, ∀ b, choose part = some b → before a b := fun part member b found =>
      first b (List.mem_flatten.mpr ⟨part, member, (chosen.mp found).1⟩)
    refine chosen.mpr ⟨List.mem_filterMap.mpr ⟨part, partMember, ?_⟩, ?_⟩
    · cases found : choose part with
      | none =>
        rw [nothing.mp found] at inside
        cases inside
      | some b =>
        rw [antisymmetric (least part partMember b found) ((chosen.mp found).2 a inside)]
    · intro b among
      obtain ⟨other, otherMember, found⟩ := List.mem_filterMap.mp among
      exact least other otherMember b found

/-- The extreme number of a list does not depend on how the list came. -/
theorem extreme_perm
    (chosen : ∀ {numbers a}, choose numbers = some a ↔ a ∈ numbers ∧ ∀ b ∈ numbers, before a b)
    (nothing : ∀ {numbers}, choose numbers = none ↔ numbers = []) {numbers others : List Int}
    (order : numbers.Perm others) : choose numbers = choose others := by
  cases found : choose numbers with
  | none =>
    rw [nothing] at found
    subst found
    exact (nothing.mpr order.symm.eq_nil).symm
  | some a =>
    obtain ⟨member, first⟩ := chosen.mp found
    refine (chosen.mpr ⟨order.mem_iff.mp member, fun b among => ?_⟩).symm
    exact first b (order.mem_iff.mpr among)

end Extremes

/-- The least number of a list that was divided and shuffled. -/
theorem min?_of_perm_flatten {parts : List (List Int)} {numbers : List Int}
    (order : parts.flatten.Perm numbers) : (parts.filterMap List.min?).min? = numbers.min? :=
  (extreme_flatten List.min?_eq_some_iff List.min?_eq_none_iff Int.le_antisymm parts).trans
    (extreme_perm List.min?_eq_some_iff List.min?_eq_none_iff order)

/-- The greatest number of a list that was divided and shuffled. -/
theorem max?_of_perm_flatten {parts : List (List Int)} {numbers : List Int}
    (order : parts.flatten.Perm numbers) : (parts.filterMap List.max?).max? = numbers.max? :=
  (extreme_flatten List.max?_eq_some_iff List.max?_eq_none_iff
    (fun below above => Int.le_antisymm above below) parts).trans
    (extreme_perm List.max?_eq_some_iff List.max?_eq_none_iff order)

end Olap
