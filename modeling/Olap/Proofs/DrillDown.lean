/-
Drilling down divides the summary. Without a page and a limit a drill-down has a row of every group,
and the groups share out the facts of the summary, so what the rows tell adds up to what the summary
tells: records and counts are added, sums are added where there are any, and the least of the least
values and the greatest of the greatest ones are the least and the greatest of all.

The measure has whole numbers and absent values here. Rows may have computed fields, as long as these
leave the aggregates as they are.
-/

import Mathlib.Data.List.Forall2
import Olap.Proofs.Selections
import Olap.Proofs.Wholes

namespace Olap

/-- The numbers in a field of rows, one for each row; where there is none the field is absent. -/
def HasWholes (rows : List Row) (field : String) (numbers : List (Option Int)) : Prop :=
  rows.map (Record.get? · field) = numbers.map fun number => some (wholeValue number)

/-- The rows of a result add up to its summary. -/
structure AddsUp (measure : Option String) (operators : List String) (summary : Row)
    (rows : List Row) : Prop where
  records : ∃ counts : List Int, HasWholes rows recordCount (counts.map some) ∧
    Record.get? summary recordCount = some (.int counts.sum)
  counts : "count" ∈ operators → ∃ counts : List Int,
    HasWholes rows (Browser.fieldOf measure "count") (counts.map some) ∧
    Record.get? summary "count" = some (.int counts.sum)
  /-- An absent sum counts as zero. -/
  sums : "sum" ∈ operators → ∃ (sums : List (Option Int)) (total : Option Int),
    HasWholes rows (Browser.fieldOf measure "sum") sums ∧
    Record.get? summary "sum" = some (wholeValue total) ∧
    total.getD 0 = (sums.map (·.getD 0)).sum
  least : "min" ∈ operators → ∃ least : List (Option Int),
    HasWholes rows (Browser.fieldOf measure "min") least ∧
    Record.get? summary "min" = some (wholeValue (least.filterMap id).min?)
  greatest : "max" ∈ operators → ∃ greatest : List (Option Int),
    HasWholes rows (Browser.fieldOf measure "max") greatest ∧
    Record.get? summary "max" = some (wholeValue (greatest.filterMap id).max?)

/-! ### Computed fields -/

namespace ComputedField

variable {fields : List ComputedField}

/-- Fields whose computation never fails. -/
def AlwaysComputed (fields : List ComputedField) : Prop :=
  ∀ field ∈ fields, ∀ row, ∃ value, field.compute row = .ok value

theorem extendAll_nil (rows : List Row) : extendAll [] rows = .ok rows := by
  induction rows with
  | nil => rfl
  | cons row rest inductionHypothesis =>
    rw [extendAll, extend, inductionHypothesis]
    rfl

/-- Computing fields leaves the others as they are. -/
theorem get?_extend {row extended : Row} (done : extend fields row = .ok extended) {key : String}
    (absent : key ∉ fields.map (·.name)) : Record.get? extended key = Record.get? row key := by
  induction fields generalizing row with
  | nil => rw [Except.ok.inj done]
  | cons field rest inductionHypothesis =>
    rw [List.map_cons, List.mem_cons, not_or] at absent
    rw [extend] at done
    split at done
    · cases done
    · rw [inductionHypothesis done absent.2]
      exact Record.get?_set_of_ne row _ (Ne.symm absent.1)

theorem exists_extend (always : AlwaysComputed fields) (row : Row) :
    ∃ extended, extend fields row = .ok extended := by
  induction fields generalizing row with
  | nil => exact ⟨row, rfl⟩
  | cons field rest inductionHypothesis =>
    obtain ⟨value, computed⟩ := always field List.mem_cons_self row
    rw [extend, computed]
    exact inductionHypothesis (fun other member => always other (List.mem_cons_of_mem _ member)) _

theorem exists_extendAll (always : AlwaysComputed fields) (rows : List Row) :
    ∃ extended, extendAll fields rows = .ok extended ∧
      List.Forall₂ (fun new old => ∀ key ∉ fields.map (·.name),
        Record.get? new key = Record.get? old key) extended rows := by
  induction rows with
  | nil => exact ⟨[], rfl, List.Forall₂.nil⟩
  | cons row rest inductionHypothesis =>
    obtain ⟨new, done⟩ := exists_extend always row
    obtain ⟨others, all, below⟩ := inductionHypothesis
    refine ⟨new :: others, ?_, List.Forall₂.cons (fun key absent => get?_extend done absent) below⟩
    rw [extendAll, done, all]
    rfl

end ComputedField

/-- A row that agrees on the aggregated fields tells the same. -/
theorem Tells.congr {field : String → String} {column : String} {operators : List String}
    {row other : Row} {facts : List Row} (tells : Tells field column operators row facts)
    (same : ∀ key ∈ operators.map field ++ [recordCount],
      Record.get? other key = Record.get? row key) :
    Tells field column operators other facts := by
  refine ⟨?_, fun operator member function known => ?_⟩
  · rw [same _ (List.mem_append_right _ (List.mem_singleton_self _))]
    exact tells.records
  · rw [same _ (List.mem_append_left _ (List.mem_map_of_mem member))]
    exact tells.aggregates operator member function known

/-! ### Adding up -/

theorem numbered_wholeValue (number : Option Int) :
    (wholeValue number).numbered = wholeValue number := by
  cases number <;> rfl

/-- Rows that tell of groups have the numbers of the groups. -/
theorem hasWholes_of_forall₂ {rows : List Row} {groups : List (List Row)} {field : String}
    {number : List Row → Option Int}
    (told : List.Forall₂ (fun row group =>
      Record.get? row field = some (wholeValue (number group))) rows groups) :
    HasWholes rows field (groups.map number) := by
  unfold HasWholes
  rw [List.map_map]
  induction told with
  | nil => rfl
  | cons head tail inductionHypothesis =>
    rw [List.map_cons, List.map_cons, head, inductionHypothesis]
    rfl

/-- The parts of a list that was divided and shuffled are as long together as the list. -/
theorem sum_length_of_perm_flatten {α : Type} {parts : List (List α)} {items : List α}
    (order : parts.flatten.Perm items) :
    (parts.map fun part => (part.length : Int)).sum = items.length := by
  rw [← order.length_eq]
  clear order
  induction parts with
  | nil => rfl
  | cons part rest inductionHypothesis =>
    rw [List.map_cons, List.sum_cons, inductionHypothesis, List.flatten_cons, List.length_append,
      Int.natCast_add]

theorem sum_sum_of_perm_flatten {parts : List (List Int)} {numbers : List Int}
    (order : parts.flatten.Perm numbers) : (parts.map List.sum).sum = numbers.sum := by
  rw [← order.sum_eq, List.sum_flatten]

section AddsUp

variable {measure : Option String} {column : String} {operators : List String} {summary : Row}
  {rows : List Row} {groups : List (List Row)} {facts : List Row}

/-- Rows that tell of groups have the aggregates of the groups. -/
theorem hasWholes_of_tells {operator : String} {function : Aggregator}
    {number : List Int → Option Int}
    (whole : ∀ fact ∈ groups.flatten, IsWhole (fact.cell column))
    (told : List.Forall₂ (Tells (Browser.fieldOf measure) column operators) rows groups)
    (member : operator ∈ operators) (known : Compiler.aggregate? operator = some function)
    (computed : ∀ facts, (∀ fact ∈ facts, IsWhole (fact.cell column)) →
      function.ofValues (facts.map (Row.cell · column)) =
        wholeValue (number (wholesOf column facts))) :
    HasWholes rows (Browser.fieldOf measure operator)
      ((groups.map (wholesOf column)).map number) := by
  rw [List.map_map]
  refine hasWholes_of_forall₂ (List.forall₂_iff_zip.mpr ⟨told.length_eq, fun {row group} pair => ?_⟩)
  have tells := (List.forall₂_iff_zip.mp told).2 pair
  have inside : group ∈ groups := (List.of_mem_zip pair).2
  rw [tells.aggregates operator member function known, computed group, numbered_wholeValue]
  · rfl
  · exact fun fact among => whole fact (List.mem_flatten.mpr ⟨group, inside, among⟩)

/-- Rows of groups that share out the facts add up to a summary of the facts. -/
theorem addsUp_of_tells (whole : ∀ fact ∈ facts, IsWhole (fact.cell column))
    (order : groups.flatten.Perm facts) (summed : Tells id column operators summary facts)
    (told : List.Forall₂ (Tells (Browser.fieldOf measure) column operators) rows groups) :
    AddsUp measure operators summary rows := by
  have wholes : ∀ fact ∈ groups.flatten, IsWhole (fact.cell column) :=
    fun fact member => whole fact (order.mem_iff.mp member)
  have parts : (groups.map (wholesOf column)).flatten.Perm (wholesOf column facts) := by
    rw [← wholesOf_flatten]
    exact order.filterMap _
  refine ⟨?_, fun member => ?_, fun member => ?_, fun member => ?_, fun member => ?_⟩
  · refine ⟨groups.map fun group => group.length, ?_, ?_⟩
    · rw [List.map_map]
      exact hasWholes_of_forall₂ (told.imp fun _ _ tells => tells.records)
    · rw [sum_length_of_perm_flatten order]
      exact summed.records
  · have known : Compiler.aggregate? "count" = some .count := by decide
    refine ⟨(groups.map (wholesOf column)).map fun part => part.length, ?_, ?_⟩
    · rw [List.map_map]
      exact hasWholes_of_tells wholes told member known fun _ => Aggregator.count_ofValues
    · rw [sum_length_of_perm_flatten parts, ← Aggregator.count_ofValues whole]
      exact summed.aggregates "count" member .count known
  · have known : Compiler.aggregate? "sum" = some .sum := by decide
    refine ⟨(groups.map (wholesOf column)).map sum?, sum? (wholesOf column facts), ?_, ?_, ?_⟩
    · exact hasWholes_of_tells wholes told member known fun _ => Aggregator.sum_ofValues
    · rw [← numbered_wholeValue, ← Aggregator.sum_ofValues whole]
      exact summed.aggregates "sum" member .sum known
    · rw [getD_sum?, map_getD_sum?, sum_sum_of_perm_flatten parts]
  · have known : Compiler.aggregate? "min" = some .min := by decide
    refine ⟨(groups.map (wholesOf column)).map List.min?, ?_, ?_⟩
    · exact hasWholes_of_tells wholes told member known fun _ => Aggregator.min_ofValues
    · rw [List.filterMap_map, Function.id_comp, min?_of_perm_flatten parts,
        ← numbered_wholeValue, ← Aggregator.min_ofValues whole]
      exact summed.aggregates "min" member .min known
  · have known : Compiler.aggregate? "max" = some .max := by decide
    refine ⟨(groups.map (wholesOf column)).map List.max?, ?_, ?_⟩
    · exact hasWholes_of_tells wholes told member known fun _ => Aggregator.max_ofValues
    · rw [List.filterMap_map, Function.id_comp, max?_of_perm_flatten parts,
        ← numbered_wholeValue, ← Aggregator.max_ofValues whole]
      exact summed.aggregates "max" member .max known

end AddsUp

namespace Browser

open Olap.Action Market

variable {σ : Type} {b : Browser σ} {db : Database} {table : Table}

/-- Without a page and a limit, the rows of a drill-down add up to its summary. -/
theorem rows_addUp_to_summary (onTable : b.OverTable db table) {slice : Slice}
    (reached : b.Reaches slice) {call : AggregateCall} {o : AggregateOptions} {m : Attribute}
    {query : Query} (drilling : b.Drilling slice call o m query) (unpaged : o.page = none)
    (unlimited : o.hasLimit = false)
    (whole : ∀ fact ∈ table.rows, IsWhole (fact.cell (b.compiler.column m)))
    {computed : List ComputedField} (given : call.computed = .ok computed)
    (always : ComputedField.AlwaysComputed computed)
    (apart : ∀ field ∈ computed, field.name ∉ aggregatedFields m.name o.operators)
    (state : σ) (log : List LogLine) :
    ∃ a after, perform (b.call call) ⟨slice, state, log⟩ = (.ok a, after) ∧
      AddsUp m.name o.operators a.summary a.rows := by
  obtain ⟨-, other, conditions, attributes, order, known, drills, -⟩ :=
    Compiler.drill_ok.1 drilling.compiled
  have restricted : b.factsIn table slice.cuts =
      .ok (selectRows table.columns conditions table.rows) := factsIn_of_predicates drills.compiled
  obtain ⟨summary, groups, kept, rowOf, found, perform_eq⟩ :=
    drilling.perform_call onTable reached drills.grouped restricted state log
  obtain ⟨rows, extended, same⟩ := ComputedField.exists_extendAll always (kept.map rowOf)
  obtain ⟨after, done⟩ := (perform_eq computed rows given extended).1 unlimited
  refine ⟨_, after, done, ?_⟩
  have all : kept.flatten.Perm (selectRows table.columns conditions table.rows) :=
    (found.all unpaged unlimited).flatten.trans found.shares.whole
  refine addsUp_of_tells (fun fact member => whole fact (List.mem_of_mem_filter member)) all
    found.summed ?_
  rw [List.forall₂_map_right_iff] at same
  refine same.imp fun row group agrees => (found.tells group).congr fun key aggregated => ?_
  refine agrees key fun named => ?_
  obtain ⟨field, member, rfl⟩ := List.mem_map.mp named
  exact apart field member aggregated

theorem isWhole_abroadTable : ∀ fact ∈ abroadTable.rows, IsWhole (fact.cell "amount") := by
  intro fact member
  simp only [abroadTable, salesTable, List.mem_cons, List.not_mem_nil, or_false] at member
  rcases member with rfl | rfl | rfl | rfl
  · exact ⟨some 5, rfl⟩
  · exact ⟨some 3, rfl⟩
  · exact ⟨none, rfl⟩
  · exact ⟨some (-1), rfl⟩

/-- The sum and the least amount of the sales in every city of a country, one of which is unknown. The sale
abroad is not among them. -/
theorem rows_addUp_to_summary_byCity :
    (abroad ∈ abroadTable.rows ∧
      ¬∀ cut ∈ inAustria.cuts, cut.IsMetBy abroadBrowser.compiler abroadTable.columns abroad) ∧
    ∃ a after, perform (abroadBrowser.call byCity) ⟨inAustria, (), []⟩ = (.ok a, after) ∧
      AddsUp (some "amount") ["sum", "min"] a.summary a.rows := by
  have drilling := (⟨rfl, fun _ same => (by cases same), rfl, rfl, rfl, by decide⟩ :
    abroadBrowser.Drilling inAustria byCity _ (.ofName .measure (some "amount")) _)
  have always : ComputedField.AlwaysComputed [] := by
    intro field member
    cases member
  refine ⟨abroad_unmet, rows_addUp_to_summary abroadBrowser_overTable
    (reaches_ofCuts inAustria.cuts) drilling rfl rfl isWhole_abroadTable rfl always ?_ () []⟩
  intro field member
  cases member

end Browser

end Olap
