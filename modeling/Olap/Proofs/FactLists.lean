/-
Lists of facts. Without a page the list of the facts of a slice has one record of every fact, with the
values of its key and of all attributes under their references. Summaries are compiled on their own,
but they go by the same columns, so whoever has the list can do without them: the sum, the number of
values, the least and the greatest value of a measure, and the number of records, made of what the
records have under the reference of the measure, are what the summary says.
-/

import Olap.Proofs.Listings

namespace Olap

namespace Compiler

variable {c : Compiler} {cuts : List Cut}

/-- The record of a fact. -/
def factRecord (c : Compiler) (fact : Row) : Row :=
  (c.cube.keyField, fact.cell c.cube.keyField) ::
    c.cube.factAttributes.map fun a => (a.refText, fact.cell (c.column a))

/-- The facts that meet some conditions, in an order. -/
def factLayer (c : Compiler) (conditions : List Predicate) (order : List RowOrder)
    (o : QueryOptions) : Layer :=
  { projections := c.factProjections, predicates := conditions, groupBy := []
    orderBy := order, limit := o.limitRows, offset := o.offset, label := "facts" }

theorem facts_ok {o : QueryOptions} {conditions : List Predicate} {order : List RowOrder}
    (compiled : c.predicates cuts = .ok conditions) (ordered : c.orderings o [] [] = .ok order) :
    c.facts cuts o = .ok (.scan c.table (c.factLayer conditions order o)) :=
  Result.bind_ok.2 ⟨conditions, compiled, Result.bind_ok.2 ⟨order, ordered, rfl⟩⟩

theorem exists_of_facts {o : QueryOptions} {q : Query} (made : c.facts cuts o = .ok q) :
    ∃ conditions order, c.predicates cuts = .ok conditions ∧ c.orderings o [] [] = .ok order ∧
      q = .scan c.table (c.factLayer conditions order o) := by
  obtain ⟨conditions, compiled, made⟩ := Result.bind_ok.1 made
  obtain ⟨order, ordered, made⟩ := Result.bind_ok.1 made
  cases made
  exact ⟨conditions, order, compiled, ordered, rfl⟩

theorem map_name_factProjections :
    c.factProjections.map (·.name) = c.cube.keyField :: c.cube.factAttributes.map (·.refText) := by
  rw [factProjections, List.map_cons, List.map_map]
  rfl

/-- All that is selected of a fact are columns. -/
theorem exists_column_of_mem_factProjections {p : Projection} (member : p ∈ c.factProjections) :
    ∃ column, p.expression = .column column := by
  rcases List.mem_cons.mp member with rfl | later
  · exact ⟨_, rfl⟩
  · obtain ⟨a, -, rfl⟩ := List.mem_map.mp later
    exact ⟨_, rfl⟩

/-- Every fact is a group of its own. -/
theorem groups_factLayer (conditions : List Predicate) (order : List RowOrder) (o : QueryOptions)
    (rows : List Row) : (c.factLayer conditions order o).groups rows = rows.map ([·]) := by
  refine Layer.groups_of_unaggregated (fun p member => ?_) rfl rows
  obtain ⟨column, same⟩ := exists_column_of_mem_factProjections member
  rw [same]
  rfl

theorem project_factLayer (conditions : List Predicate) (order : List RowOrder) (o : QueryOptions)
    (fact : Row) : (c.factLayer conditions order o).project [fact] = c.factRecord fact := by
  have plain : ∀ p ∈ (c.factLayer conditions order o).projections,
      p.expression.extreme? = none := by
    intro p member
    obtain ⟨column, same⟩ := exists_column_of_mem_factProjections member
    rw [same]
    rfl
  unfold Layer.project
  rw [if_neg (by simp [factLayer, factProjections])]
  dsimp only
  rw [standing?_eq_head? plain, factLayer, factProjections, List.map_cons, List.map_map]
  rfl

/-- A record has the value of every attribute under the reference of the attribute. -/
theorem get?_factRecord (distinct : (c.factProjections.map (·.name)).Nodup) {a : Attribute}
    (member : a ∈ c.cube.factAttributes) (fact : Row) :
    Record.get? (c.factRecord fact) a.refText = some (fact.cell (c.column a)) := by
  refine Record.get?_of_mem ?_ (List.mem_cons_of_mem _ (List.mem_map.mpr ⟨a, member, rfl⟩))
  rw [factRecord, Record.keys, List.map_cons, List.map_map]
  rwa [map_name_factProjections] at distinct

end Compiler

/-! ### Summaries made of records -/

/-- The values that records have under a reference. -/
def valuesUnder (ref : String) (records : List Row) : List Value :=
  records.map fun record => (Record.get? record ref).getD .null

/-- What an operator makes of whole numbers. -/
def recompute (operator : String) (numbers : List Int) : Value :=
  match operator with
  | "sum" => wholeValue (sum? numbers)
  | "count" => .int numbers.length
  | "min" => wholeValue numbers.min?
  | "max" => wholeValue numbers.max?
  | _ => .null

/-- The operators whose outcome is a whole number or nothing. -/
def wholeOperators : List String := ["sum", "count", "min", "max"]

/-- The summary of values, some of which may be absent. -/
def resummarize (operators : List String) (values : List Value) : Row :=
  Record.ofPairs
    ((operators.map fun operator => (operator, recompute operator (values.filterMap whole?))) ++
      [(recordCount, .int values.length)])

/-- The numbers may come in any order. -/
theorem recompute_perm {numbers others : List Int} (order : numbers.Perm others)
    (operator : String) : recompute operator numbers = recompute operator others := by
  unfold recompute
  split
  · unfold sum?
    rw [order.sum_eq, List.Perm.isEmpty_eq order]
  · rw [order.length_eq]
  · rw [extreme_perm List.min?_eq_some_iff List.min?_eq_none_iff order]
  · rw [extreme_perm List.max?_eq_some_iff List.max?_eq_none_iff order]
  · rfl

theorem resummarize_perm (operators : List String) {values others : List Value}
    (order : values.Perm others) : resummarize operators values = resummarize operators others := by
  unfold resummarize
  rw [order.length_eq]
  simp only [recompute_perm (order.filterMap whole?)]

/-- Of a column of whole numbers the database makes the same. -/
theorem exists_recompute {operator : String} (among : operator ∈ wholeOperators) {column : String}
    {facts : List Row} (whole : ∀ fact ∈ facts, IsWhole (fact.cell column)) :
    ∃ function, Compiler.aggregate? operator = some function ∧
      (function.ofValues (facts.map (Row.cell · column))).numbered =
        recompute operator (wholesOf column facts) := by
  simp only [wholeOperators, List.mem_cons, List.not_mem_nil, or_false] at among
  rcases among with rfl | rfl | rfl | rfl
  · refine ⟨.sum, by decide, ?_⟩
    rw [Aggregator.sum_ofValues whole, numbered_wholeValue]
    rfl
  · refine ⟨.count, by decide, ?_⟩
    rw [Aggregator.count_ofValues whole]
    rfl
  · refine ⟨.min, by decide, ?_⟩
    rw [Aggregator.min_ofValues whole, numbered_wholeValue]
    rfl
  · refine ⟨.max, by decide, ?_⟩
    rw [Aggregator.max_ofValues whole, numbered_wholeValue]
    rfl

namespace Browser

open Olap.Action Compiler

variable {σ : Type} {b : Browser σ} {db : Database} {table : Table}

/-- A summary that is read off the row of some facts can be made of the values of the measure. -/
theorem summaryOf_eq_resummarize {c : Compiler} {m : Attribute} {operators : List String}
    {conditions : List Predicate} (among : ∀ operator ∈ operators, operator ∈ wholeOperators)
    (distinct : ((c.aggregateProjections m operators).map (·.name)).Nodup) {facts : List Row}
    (whole : ∀ fact ∈ facts, IsWhole (fact.cell (c.column m))) :
    summaryOf ((c.summaryLayer m operators conditions).project facts) m.name operators =
      resummarize operators (facts.map (Row.cell · (c.column m))) := by
  have counted : Record.get? ((c.summaryLayer m operators conditions).project facts) recordCount =
      some (.int facts.length) :=
    get?_project_recordCount distinct (selected_summaryLayer conditions) facts
  unfold summaryOf resummarize
  rw [List.filterMap_map, List.length_map, numberIn, counted]
  congr 2
  refine List.map_congr_left fun operator member => ?_
  obtain ⟨function, known, same⟩ := exists_recompute (among operator member) whole
  have aggregated : Record.get? ((c.summaryLayer m operators conditions).project facts)
      (fieldOf m.name operator) =
        some (function.ofValues (facts.map (Row.cell · (c.column m)))) :=
    get?_project_aggregate distinct (selected_summaryLayer conditions) facts member known
  rw [numberIn, aggregated]
  exact congrArg _ same

/-- Options for a list of facts that are accepted, do not ask for a page, and can be ordered by. The
names that are selected have to differ. -/
structure ListsFacts (b : Browser σ) (options : Description) (overrides : Fields Part)
    (o : QueryOptions) : Prop where
  accepted : (QueryOptions.accept options overrides).map Options.base = .ok o
  unpaged : o.page = none
  ordered : ∃ order, b.compiler.orderings o [] [] = .ok order
  distinct : (b.compiler.factProjections.map (·.name)).Nodup

variable {options : Description} {overrides : Fields Part} {o : QueryOptions}

/-- A list that is accepted and compiles has the rows that its layer makes of the table. -/
theorem OverTable.perform_facts (onTable : b.OverTable db table)
    (accepted : (QueryOptions.accept options overrides).map Options.base = .ok o) {slice : Slice}
    {conditions : List Predicate} {order : List RowOrder}
    (compiled : b.compiler.predicates slice.cuts = .ok conditions)
    (ordered : b.compiler.orderings o [] [] = .ok order)
    (distinct : (b.compiler.factProjections.map (·.name)).Nodup) (patience : Patience) (state : σ)
    (log : List LogLine) :
    ∃ list after,
      perform (b.facts options overrides patience) ⟨slice, state, log⟩ = (.ok list, after) ∧
      list.rows = (b.compiler.factLayer conditions order o).apply false table.columns table.rows := by
  obtain ⟨given, taken, rfl⟩ := Result.map_ok.1 accepted
  have query := facts_ok compiled ordered
  have aliases : (Query.scan b.compiler.table
      (b.compiler.factLayer conditions order given.base)).aliases.Nodup := distinct
  obtain ⟨stateAfter, logAfter, executed⟩ := onTable.perform_execute aliases
    (exists_statement_scan _ (isKnown_of_predicates compiled)) (Database.answer?_scan onTable.known _)
    patience ⟨slice, state, log⟩
  exact ⟨_, _, perform_bind_ok.2 ⟨given, _, perform_require_ok.2 ⟨taken, rfl⟩,
    perform_bind_ok.2 ⟨_, _, rfl, perform_bind_ok.2 ⟨_, _, perform_require_ok.2 ⟨query, rfl⟩,
      perform_bind_ok.2 ⟨_, _, executed, rfl⟩⟩⟩⟩, rfl⟩

/-- Without a page these rows are the records of the facts. -/
theorem apply_factLayer_perm {c : Compiler} (unpaged : o.page = none) (conditions : List Predicate)
    (order : List RowOrder) (table : Table) :
    ((c.factLayer conditions order o).apply false table.columns table.rows).Perm
      ((selectRows table.columns conditions table.rows).map c.factRecord) := by
  obtain ⟨groups, sorted, made⟩ := Layer.apply_eq_map_of_unpaged (c.factLayer conditions order o)
    (by show o.page.bind _ = none; rw [unpaged]; rfl)
    (by show o.page.map _ = none; rw [unpaged]; rfl) false table.columns table.rows
  rw [groups_factLayer] at sorted
  rw [made]
  refine (sorted.map _).trans (List.Perm.of_eq ?_)
  rw [List.map_map]
  exact List.map_congr_left fun fact _ => project_factLayer conditions order o fact

/-- The list has one record of every fact of the slice. -/
theorem ListsFacts.perform_facts (listing : b.ListsFacts options overrides o)
    (onTable : b.OverTable db table) {slice : Slice} {facts : List Row}
    (restricted : b.factsIn table slice.cuts = .ok facts) (patience : Patience) (state : σ)
    (log : List LogLine) :
    ∃ list after,
      perform (b.facts options overrides patience) ⟨slice, state, log⟩ = (.ok list, after) ∧
      list.rows.Perm (facts.map b.compiler.factRecord) := by
  obtain ⟨conditions, compiled, rfl⟩ := Result.map_ok.1 restricted
  obtain ⟨order, ordered⟩ := listing.ordered
  obtain ⟨list, after, done, made⟩ := onTable.perform_facts listing.accepted compiled ordered
    listing.distinct patience state log
  exact ⟨list, after, done, made ▸ apply_factLayer_perm listing.unpaged conditions order table⟩

/-- A measure of a cube is an attribute of its facts. -/
theorem mem_factAttributes_of_measure {c : Cube} {wanted : Description} {m : Attribute}
    (known : c.measure wanted = .ok m) : m ∈ c.factAttributes := by
  unfold Cube.measure at known
  cases found : c.measures.find? (isNamed ·.name wanted.measureName) with
  | none =>
    simp only [found] at known
    obtain ⟨available, -, failed⟩ := Result.bind_ok.1 known
    cases failed
  | some other =>
    simp only [found, Except.ok.injEq] at known
    exact List.mem_append_right _ (known ▸ List.mem_of_find?_eq_some found)

end Browser

end Olap
