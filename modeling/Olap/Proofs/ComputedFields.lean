/-
Two aggregations that differ in their computed fields. Computed fields are added to the rows of a result
after everything has been asked for, so whatever they are, a session comes to the same: the store is asked
for the same, the log has the same lines and the slice keeps the same summaries. Results agree on the summary
and, row by row, on every field that is not computed. A remainder, however, is calculated from rows that have
their computed fields already. One that has the name of an aggregate takes its place there, and only when
none has such a name do the remainders agree as well.
-/

import Mathlib
import Olap.Proofs.DrillDown

namespace Olap

/-- Rows that agree, one by one, on all fields but those of some names. -/
def AgreeExcept (names : List String) (rows others : List Row) : Prop :=
  List.Forall₂ (fun row other => ∀ key ∉ names, Record.get? row key = Record.get? other key) rows others

/-- Rows agree where both of them agree with the same rows. -/
theorem AgreeExcept.of_common {names more : List String} {rows found others : List Row}
    (same : AgreeExcept names rows found) (sameToo : AgreeExcept more others found) :
    AgreeExcept (names ++ more) rows others := by
  induction same generalizing others with
  | nil =>
    cases sameToo
    exact .nil
  | cons agrees _ inductionHypothesis =>
    cases sameToo with
    | cons agreesToo rest =>
      refine .cons (fun key absent => ?_) (inductionHypothesis rest)
      rw [List.mem_append, not_or] at absent
      rw [agrees key absent.1, agreesToo key absent.2]

theorem AgreeExcept.refl (names : List String) (rows : List Row) : AgreeExcept names rows rows :=
  List.forall₂_same.mpr fun _ _ _ _ => rfl

namespace Browser

open Olap.Action ComputedField

variable {σ : Type} {b : Browser σ} {measure : Option String} {operators : List String}
  {o : AggregateOptions} {first second : List ComputedField} {rows others : List Row}

/-! ### Remainders -/

/-- The fields of rows that a remainder is calculated from. -/
def remainderFields (measure : Option String) (operators : List String) : List String :=
  if operators.contains "sum" then [fieldOf measure "sum", recordCount] else [recordCount]

/-- The total of a field over rows that agree on it is the same. -/
theorem totalOf_congr {names : List String} {field : String} (same : AgreeExcept names rows others)
    (unnamed : field ∉ names) : totalOf field rows = totalOf field others := by
  unfold totalOf
  -- The induction needs any total so far.
  generalize (Datum.int 0 : Value) = start
  induction same generalizing start with
  | nil => rfl
  | cons agrees _ inductionHypothesis =>
    rw [List.foldlM_cons, List.foldlM_cons, agrees field unnamed]
    exact bind_congr inductionHypothesis

/-- Rows that agree on what a remainder is calculated from leave the same out. -/
theorem remainderOf_congr {names : List String} (same : AgreeExcept names rows others)
    (apart : ∀ field ∈ remainderFields measure operators, field ∉ names) (summary : Row) :
    remainderOf summary rows measure operators = remainderOf summary others measure operators := by
  have records : recordCount ∉ names := by
    refine apart _ ?_
    unfold remainderFields
    split <;> simp
  unfold remainderOf leftOut
  rw [totalOf_congr same records]
  split
  · rename_i selected
    have sums : fieldOf measure "sum" ∉ names := by
      refine apart _ ?_
      rw [remainderFields, if_pos selected]
      exact List.mem_cons_self
    rw [totalOf_congr same sums]
  · rfl

/-! ### Results -/

/-- Results that agree on the summary, and on all fields of the rows but those of some names. -/
structure AgreesExcept (names : List String) (a other : Aggregation) : Prop where
  summary : a.summary = other.summary
  count : a.rows.length = other.rows.length
  rows : AgreeExcept names a.rows other.rows

theorem AgreesExcept.refl (names : List String) (a : Aggregation) : AgreesExcept names a a :=
  ⟨rfl, rfl, .refl names a.rows⟩

/-- What two calls come to that differ in their computed fields. Results agree on all but these fields;
and if no remainder is calculated from one of these, both calls fail alike, or come to results with the same
remainder. -/
structure DiffersIn (names : List String) (apart : Prop) (outcome other : Result Aggregation) : Prop where
  agrees : ∀ a result, outcome = .ok a → other = .ok result → AgreesExcept names a result
  failures : apart → ∀ fault, outcome = .error fault ↔ other = .error fault
  remainders : apart → ∀ a result, outcome = .ok a → other = .ok result → a.remainder = result.remainder

theorem DiffersIn.refl (names : List String) (apart : Prop) (outcome : Result Aggregation) :
    DiffersIn names apart outcome outcome where
  agrees a result done doneToo := by
    cases done.symm.trans doneToo
    exact .refl names a
  failures _ _ := Iff.rfl
  remainders _ a result done doneToo := by
    cases done.symm.trans doneToo
    rfl

theorem DiffersIn.imp {names : List String} {apart other : Prop} {outcome result : Result Aggregation}
    (differs : DiffersIn names apart outcome result) (narrower : other → apart) :
    DiffersIn names other outcome result where
  agrees := differs.agrees
  failures holds := differs.failures (narrower holds)
  remainders holds := differs.remainders (narrower holds)

/-- No remainder is calculated from a computed field: there is none, or it has other names. -/
def LeavesRemainder (names : List String) (measure : Option String) (o : AggregateOptions) : Prop :=
  o.hasLimit = true → ∀ field ∈ remainderFields measure o.operators, field ∉ names

/-- A result is completed by rows with their computed fields, and by the remainder that is calculated from
them. -/
theorem differsIn_withRows (always : AlwaysComputed first) (alwaysToo : AlwaysComputed second)
    (bare : Aggregation) (found : List Row) :
    DiffersIn ((first ++ second).map (·.name))
      (LeavesRemainder ((first ++ second).map (·.name)) bare.measure bare.options)
      (withRows bare first found) (withRows bare second found) := by
  obtain ⟨rows, finished, kept⟩ := exists_extendAll always
    (found.map (numberFields (aggregatedFields bare.measure bare.options.operators)))
  obtain ⟨others, finishedToo, keptToo⟩ := exists_extendAll alwaysToo
    (found.map (numberFields (aggregatedFields bare.measure bare.options.operators)))
  have same : AgreeExcept ((first ++ second).map (·.name)) rows others := by
    rw [List.map_append]
    exact AgreeExcept.of_common kept keptToo
  -- Only with a limit a remainder is calculated, which may fail or differ.
  cases limited : bare.options.hasLimit with
  | false =>
    rw [withRows_unlimited bare limited, withRows_unlimited bare limited]
    unfold finishRows
    rw [finished, finishedToo]
    refine ⟨?_, fun _ fault => iff_of_false nofun nofun, ?_⟩
    · rintro _ _ ⟨⟩ ⟨⟩
      exact ⟨rfl, same.length_eq, same⟩
    · rintro - _ _ ⟨⟩ ⟨⟩
      rfl
  | true =>
    rw [withRows_limited bare limited finished, withRows_limited bare limited finishedToo]
    refine ⟨?_, fun apart fault => ?_, fun apart => ?_⟩
    · intro a result done doneToo
      obtain ⟨_, -, rfl⟩ := Result.map_ok.1 done
      obtain ⟨_, -, rfl⟩ := Result.map_ok.1 doneToo
      exact ⟨rfl, same.length_eq, same⟩
    · rw [remainderOf_congr same (apart limited)]
      cases remainderOf bare.summary others bare.measure bare.options.operators with
      | error other => simp [Except.map]
      | ok remainder => exact iff_of_false nofun nofun
    · rw [remainderOf_congr same (apart limited)]
      intro a result done doneToo
      obtain ⟨_, left, rfl⟩ := Result.map_ok.1 done
      obtain ⟨_, leftToo, rfl⟩ := Result.map_ok.1 doneToo
      exact Except.ok.inj (left.symm.trans leftToo)

/-- Drilling down asks for the same rows, whatever is computed of them. -/
theorem differsIn_drillDown (always : AlwaysComputed first) (alwaysToo : AlwaysComputed second)
    (b : Browser σ) (measure : Option String) (o : AggregateOptions) (summary : Row) (patience : Patience)
    (session : Session σ) :
    ∃ outcome other after,
      perform (b.drillDown measure o first summary patience) session = (outcome, after) ∧
      perform (b.drillDown measure o second summary patience) session = (other, after) ∧
      DiffersIn ((first ++ second).map (·.name))
        (LeavesRemainder ((first ++ second).map (·.name)) measure o) outcome other := by
  unfold drillDown
  simp only [perform_bind, perform_get, perform_require]
  cases b.compiler.drill session.slice.cuts (.ofOption measure) o with
  | error fault => exact ⟨_, _, session, rfl, rfl, .refl _ _ _⟩
  | ok drilled =>
    cases drilled with
    | none => exact ⟨_, _, session, rfl, rfl, .refl _ _ _⟩
    | some query =>
      dsimp only
      rw [perform_bind, perform_bind]
      rcases perform (b.execute query patience) session with ⟨fault | found, middle⟩
      · exact ⟨_, _, middle, rfl, rfl, .refl _ _ _⟩
      · dsimp only
        rw [perform_require, perform_require]
        exact ⟨_, _, middle, rfl, rfl,
          differsIn_withRows always alwaysToo (b.bareResult measure o summary session.slice.cuts) found⟩

/-- Two calls that differ in their computed fields, which are always computed, leave the same session behind,
with its store, its log and the summaries of its slice. If both come to results, these agree on the summary,
on the number of rows and on all fields of the rows that neither call computes. As long as no remainder is
calculated from a computed field, both fail alike, or come to results with the same remainder. -/
theorem call_differsIn (always : AlwaysComputed first) (alwaysToo : AlwaysComputed second)
    (b : Browser σ) (call : AggregateCall) (session : Session σ) :
    ∃ outcome other after,
      perform (b.call { call with computed := .ok first }) session = (outcome, after) ∧
      perform (b.call { call with computed := .ok second }) session = (other, after) ∧
      DiffersIn ((first ++ second).map (·.name))
        (∀ o m, AggregateOptions.accept call.options call.overrides = .ok o →
          b.cube.measure call.measure = .ok m →
            LeavesRemainder ((first ++ second).map (·.name)) m.name o)
        outcome other := by
  unfold Browser.call aggregate
  dsimp only
  rw [perform_bind, perform_bind, perform_require]
  cases AggregateOptions.accept call.options call.overrides with
  | error fault => exact ⟨_, _, session, rfl, rfl, .refl _ _ _⟩
  | ok o =>
    dsimp only
    rw [perform_bind, perform_bind, perform_require]
    cases b.cube.measure call.measure with
    | error fault => exact ⟨_, _, session, rfl, rfl, .refl _ _ _⟩
    | ok m =>
      dsimp only
      rw [perform_bind, perform_bind, perform_require, perform_require]
      dsimp only
      rw [perform_bind, perform_bind]
      rcases perform (b.summary m.name o call.patience) session with ⟨fault | summary, middle⟩
      · exact ⟨_, _, middle, rfl, rfl, .refl _ _ _⟩
      · obtain ⟨outcome, other, after, came, cameToo, differs⟩ :=
          differsIn_drillDown always alwaysToo b m.name o summary call.patience middle
        exact ⟨outcome, other, after, came, cameToo, differs.imp fun apart => apart o m rfl rfl⟩

/-! ### Computed fields of a market -/

section Market

open Market

/-- A field that is the same for all rows. -/
def constantField (name : String) (value : Value) : ComputedField := ⟨name, fun _ => .ok value⟩

/-- Half of the sum, or nothing where it is no number. -/
def halfSum : ComputedField :=
  ⟨"half", fun row =>
    .ok (match Record.get? row "amount_sum" with
      | some (.int sum) => .int (sum / 2)
      | _ => .null)⟩

/-- The sales in Austria, and those in the best city. -/
def austrianRows (query : Query) : List Row :=
  if query.label == "summary" then [[("amount_sum", .int 2), ("record_count", .int 3)]]
  else [[("amount_sum", .int 2), ("record_count", .int 2), ("place.country", .text "AT"),
    ("place.city", .text "Linz")]]

def austrianBrowser : Browser Unit := ⟨sales, some (Store.steady austrianRows), .unset⟩

/-- What the best city of Austria comes to with some computed fields. -/
def bestCityWith (computed : List ComputedField) : Result Aggregation × Session Unit :=
  perform (austrianBrowser.call { bestCity with computed := .ok computed }) ⟨inAustria, (), []⟩

/-- The best city with half of its sum, or with what kind of place it is. -/
theorem call_differsIn_halfSum :
    ∃ a other after, bestCityWith [halfSum] = (.ok a, after) ∧
      bestCityWith [constantField "kind" (.text "city")] = (.ok other, after) ∧
      AgreesExcept ["half", "kind"] a other ∧ a.remainder = other.remainder := by
  have always : AlwaysComputed [halfSum] := List.forall_mem_singleton.mpr fun _ => ⟨_, rfl⟩
  have alwaysToo : AlwaysComputed [constantField "kind" (.text "city")] :=
    List.forall_mem_singleton.mpr fun _ => ⟨_, rfl⟩
  obtain ⟨outcome, other, after, came, cameToo, differs⟩ :=
    call_differsIn always alwaysToo austrianBrowser bestCity ⟨inAustria, (), []⟩
  obtain ⟨a, done⟩ : ∃ a, (bestCityWith [halfSum]).1 = .ok a := ⟨_, rfl⟩
  obtain ⟨result, doneToo⟩ : ∃ result, (bestCityWith [constantField "kind" (.text "city")]).1 =
      .ok result := ⟨_, rfl⟩
  have made : outcome = .ok a := (congrArg Prod.fst came).symm.trans done
  have madeToo : other = .ok result := (congrArg Prod.fst cameToo).symm.trans doneToo
  refine ⟨a, result, after, made ▸ came, madeToo ▸ cameToo, differs.agrees a result made madeToo,
    differs.remainders ?_ a result made madeToo⟩
  rintro o m accepted measured -
  cases accepted
  cases measured
  show ∀ field ∈ remainderFields (some "amount") ["sum"], field ∉ ["half", "kind"]
  decide

/-- Of the three facts in Austria one remains besides the best city, and nothing of their sum. When a computed
field takes the place of the number of facts or of the sum, what remains is something else, and there is no
result when it is no number. -/
theorem exists_remainder_of_computed :
    ∃ a other third, (bestCityWith []).1 = .ok a ∧
      (bestCityWith [constantField "record_count" (.int 0)]).1 = .ok other ∧
      (bestCityWith [constantField "amount_sum" (.int 0)]).1 = .ok third ∧
      a.remainder = [("sum", .int 0), ("record_count", .int 1)] ∧
      other.remainder = [("sum", .int 0), ("record_count", .int 3)] ∧
      third.remainder = [("sum", .int 2), ("record_count", .int 1)] ∧
      (bestCityWith [constantField "amount_sum" (.text "none")]).1 = .error (.outside .wrongType) :=
  ⟨_, _, _, rfl, rfl, rfl, rfl, rfl, rfl, rfl⟩

end Market

end Browser

end Olap
