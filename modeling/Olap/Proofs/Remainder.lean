/-
What a limit leaves out. The remainder of a result is calculated: from the summary the totals of the
rows are taken away. This is the aggregate of the facts that the rows do not tell of, because the
rows belong to some of the groups, each to another one, and the groups share out the facts. A fact is
left out when no row has its key.
-/

import Olap.Proofs.DrillDown

namespace Olap

/-- The facts that no row of a drill-down tells of: none has their key. -/
def omitted (c : Compiler) (attributes : List Attribute) (rows facts : List Row) : List Row :=
  facts.filter fun fact => !rows.any fun row =>
    Cell.sameKey (Browser.keyOf (attributes.map (·.refText)) row)
      (fact.key (attributes.map c.column))

/-- A remainder of facts: their number and, when sums are selected, the sum of a column over them, in
which what is absent does not count. -/
def remainderOfFacts (column : String) (operators : List String) (facts : List Row) : Row :=
  (if "sum" ∈ operators then [("sum", .int (wholesOf column facts).sum)] else []) ++
    [(recordCount, .int facts.length)]

namespace Browser

/-! ### Calculating the remainder -/

theorem orZero_wholeValue (number : Option Int) :
    orZero (wholeValue number) = .int (number.getD 0) := by
  cases number with
  | none => rfl
  | some i =>
    show (if i != 0 then Datum.int i else .int 0 : Value) = .int i
    by_cases zero : i = 0
    · rw [zero]
      rfl
    · rw [if_pos (by simpa using zero)]

/-- Absent numbers count as zero in a total. -/
theorem totalOf_wholes {field : String} {rows : List Row} {numbers : List (Option Int)}
    (wholes : HasWholes rows field numbers) :
    totalOf field rows = .ok (.int (numbers.map (·.getD 0)).sum) := by
  have added : ∀ start : Int, rows.foldlM (fun total row =>
      Number.calculate Number.add total (orZero ((Record.get? row field).getD .null)))
        (.int start) = (.ok (.int (start + (numbers.map (·.getD 0)).sum)) : Result Value) := by
    induction rows generalizing numbers with
    | nil =>
      cases numbers with
      | nil =>
        intro start
        rw [List.map_nil, List.sum_nil, Int.add_zero]
        rfl
      | cons => cases wholes
    | cons row rest inductionHypothesis =>
      cases numbers with
      | nil => cases wholes
      | cons number others =>
        intro start
        obtain ⟨head, tail⟩ : Record.get? row field = some (wholeValue number) ∧
            HasWholes rest field others := List.cons.inj wholes
        rw [List.foldlM_cons, head, Option.getD_some, orZero_wholeValue, List.map_cons,
          List.sum_cons, ← Int.add_assoc]
        exact inductionHypothesis tail (start + number.getD 0)
  have total := added 0
  rwa [Int.zero_add] at total

theorem leftOut_wholes {summary : Row} {key field : String} {rows : List Row}
    {total : Option Int} {numbers : List (Option Int)}
    (whole : Record.get? summary key = some (wholeValue total))
    (wholes : HasWholes rows field numbers) :
    leftOut summary key field rows =
      .ok (.int (total.getD 0 - (numbers.map (·.getD 0)).sum)) := by
  unfold leftOut
  rw [totalOf_wholes wholes, whole, Option.getD_some, orZero_wholeValue]
  rfl

/-! ### The facts that are left out -/

/-- What is missing from whole numbers of all facts when some of the groups are kept. -/
theorem sub_sum_of_left_out {groups : List (List Row)} {left facts : List Row} {column : String}
    (order : (left ++ groups.flatten).Perm facts) :
    (wholesOf column facts).sum - ((groups.map (wholesOf column)).map List.sum).sum =
      (wholesOf column left).sum := by
  have split := (order.filterMap fun fact => whole? (fact.cell column)).sum_eq
  rw [List.filterMap_append, List.sum_append] at split
  have parts : ((groups.map (wholesOf column)).map List.sum).sum =
      (wholesOf column groups.flatten).sum :=
    sum_sum_of_perm_flatten (List.Perm.of_eq (wholesOf_flatten column groups).symm)
  rw [parts, wholesOf, ← split]
  exact Int.add_sub_cancel _ _

theorem sub_length_of_left_out {groups : List (List Row)} {left facts : List Row}
    (order : (left ++ groups.flatten).Perm facts) :
    (facts.length : Int) - (groups.map fun group => (group.length : Int)).sum = left.length := by
  rw [← order.length_eq, sum_length_of_perm_flatten (List.Perm.refl groups.flatten)]
  simp

section Found

variable {c : Compiler} {o : AggregateOptions} {m : Attribute} {attributes : List Attribute}
  {facts : List Row} {summary : Row} {groups kept : List (List Row)} {rowOf : List Row → Row}

/-- The facts that no row tells of, and the facts of the rows, are all facts. -/
theorem Found.omitted_perm (found : Found c o m attributes facts summary groups kept rowOf) :
    (omitted c attributes (kept.map rowOf) facts ++ kept.flatten).Perm facts := by
  have left := found.shares.left_out found.part fun group member =>
    found.told (found.part.subset member)
  unfold omitted
  simp only [List.any_map]
  exact left

theorem Found.forall₂_tells (found : Found c o m attributes facts summary groups kept rowOf) :
    List.Forall₂ (Tells (fieldOf m.name) (c.column m) o.operators) (kept.map rowOf) kept :=
  List.forall₂_map_left_iff.mpr (List.forall₂_same.mpr fun group _ => found.tells group)

theorem Found.leftOut_records (found : Found c o m attributes facts summary groups kept rowOf) :
    leftOut summary recordCount recordCount (kept.map rowOf) =
      .ok (.int (omitted c attributes (kept.map rowOf) facts).length) := by
  have counts : HasWholes (kept.map rowOf) recordCount
      (kept.map fun group => some (group.length : Int)) :=
    hasWholes_of_forall₂ (found.forall₂_tells.imp fun _ _ tells => tells.records)
  have total : Record.get? summary recordCount = some (wholeValue (some facts.length)) :=
    found.summed.records
  rw [leftOut_wholes total counts, List.map_map, ← sub_length_of_left_out found.omitted_perm]
  rfl

/-- The sum that rows leave out is the sum over the facts that none tells of. -/
theorem Found.leftOut_sum (found : Found c o m attributes facts summary groups kept rowOf)
    (whole : ∀ fact ∈ facts, IsWhole (fact.cell (c.column m))) (selected : "sum" ∈ o.operators) :
    leftOut summary "sum" (fieldOf m.name "sum") (kept.map rowOf) =
      .ok (.int (wholesOf (c.column m) (omitted c attributes (kept.map rowOf) facts)).sum) := by
  have known : Compiler.aggregate? "sum" = some .sum := by decide
  have wholes : ∀ fact ∈ kept.flatten, IsWhole (fact.cell (c.column m)) := fun fact member =>
    whole fact (found.omitted_perm.mem_iff.mp (List.mem_append_right _ member))
  have sums := hasWholes_of_tells wholes found.forall₂_tells selected known
    fun _ => Aggregator.sum_ofValues
  have total : Record.get? summary "sum" = some (wholeValue (sum? (wholesOf (c.column m) facts))) := by
    rw [← numbered_wholeValue, ← Aggregator.sum_ofValues whole]
    exact found.summed.aggregates "sum" selected .sum known
  rw [leftOut_wholes total sums, getD_sum?, map_getD_sum?,
    ← sub_sum_of_left_out found.omitted_perm]

/-- What rows leave out of a summary is the remainder of the facts that none tells of. -/
theorem Found.remainderOf_eq (found : Found c o m attributes facts summary groups kept rowOf)
    (whole : ∀ fact ∈ facts, IsWhole (fact.cell (c.column m))) :
    remainderOf summary (kept.map rowOf) m.name o.operators =
      .ok (remainderOfFacts (c.column m) o.operators
        (omitted c attributes (kept.map rowOf) facts)) := by
  unfold remainderOf remainderOfFacts
  rw [found.leftOut_records]
  by_cases selected : "sum" ∈ o.operators
  · rw [if_pos (List.contains_iff_mem.mpr selected), if_pos selected,
      found.leftOut_sum whole selected]
    rfl
  · rw [if_neg (by simpa using selected), if_neg selected]
    rfl

end Found

open Olap.Action Market

variable {σ : Type} {b : Browser σ} {db : Database} {table : Table}

/-- With a limit, and with or without a page, the remainder of a result is the one of the facts that
no row tells of. -/
theorem remainder_eq_omitted (onTable : b.OverTable db table) {slice : Slice}
    (reached : b.Reaches slice) {call : AggregateCall} {o : AggregateOptions} {m : Attribute}
    {query : Query} (drilling : b.Drilling slice call o m query) (limited : o.hasLimit = true)
    (whole : ∀ fact ∈ table.rows, IsWhole (fact.cell (b.compiler.column m)))
    (given : call.computed = .ok []) {attributes : List Attribute} {facts : List Row}
    (grouped : b.compiler.rowAttributes o = .ok attributes)
    (restricted : b.factsIn table slice.cuts = .ok facts) (state : σ) (log : List LogLine) :
    ∃ a after, perform (b.call call) ⟨slice, state, log⟩ = (.ok a, after) ∧
      a.remainder = remainderOfFacts (b.compiler.column m) o.operators
        (omitted b.compiler attributes a.rows facts) := by
  obtain ⟨summary, groups, kept, rowOf, found, perform_eq⟩ :=
    drilling.perform_call onTable reached grouped restricted state log
  have known : ∀ fact ∈ facts, IsWhole (fact.cell (b.compiler.column m)) := by
    obtain ⟨conditions, -, rfl⟩ := Result.map_ok.1 restricted
    exact fun fact member => whole fact (List.mem_of_mem_filter member)
  obtain ⟨after, done⟩ := (perform_eq [] _ given (ComputedField.extendAll_nil _)).2 limited _
    (found.remainderOf_eq known)
  exact ⟨_, after, done, rfl⟩

/-- The city of a country where most was sold, and what remains for all others in the country. The sale
abroad is not among these facts. -/
theorem remainder_eq_omitted_bestCity :
    ∃ facts, abroadBrowser.factsIn abroadTable inAustria.cuts = .ok facts ∧
      facts.length < abroadTable.rows.length ∧
      ∃ a after, perform (abroadBrowser.call bestCity) ⟨inAustria, (), []⟩ = (.ok a, after) ∧
        a.remainder = remainderOfFacts "amount" ["sum"] (omitted abroadBrowser.compiler
          ((level "country").attributes ++ ((level "city").attributes ++ [])) a.rows facts) := by
  have drilling := (⟨rfl, fun _ same => (by cases same), rfl, rfl, rfl, by decide⟩ :
    abroadBrowser.Drilling inAustria bestCity _ (.ofName .measure (some "amount")) _)
  exact ⟨_, factsIn_abroadTable, by decide, remainder_eq_omitted abroadBrowser_overTable
    (reaches_ofCuts inAustria.cuts) drilling rfl isWhole_abroadTable rfl rfl factsIn_abroadTable () []⟩

end Browser

end Olap
