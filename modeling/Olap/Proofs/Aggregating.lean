/-
Aggregating over a table. When the store of a browser evaluates queries in a database with a table of
facts, an aggregation has two things to go by: a summary, which tells of the facts that the cuts agree
on, and the rows of one more query, which tell of groups that share out these very facts. The summary
is the same whether it was kept by the slice or not, because what a slice keeps is true.

From here on it does not matter any more how queries are written and carried out.
-/

import Olap.Proofs.Family
import Olap.Proofs.Rows
import Olap.Proofs.Statements

namespace Olap

/-- The rows are the answer of the database, if it has one. -/
def Database.IsAnswer (db : Database) (q : Query) (rows : List Row) : Prop :=
  ∀ expected, q.aliases.Nodup → db.answer? q = some expected → rows = expected

theorem Store.Evaluates.answers {σ : Type} {store : Store σ} {db : Database}
    (evaluates : store.Evaluates db) : store.Answers db.IsAnswer := by
  intro request state rows came expected distinct answered
  rw [evaluates request state expected distinct answered] at came
  exact (Except.ok.inj came).symm

namespace Browser

open Olap.Action Compiler

variable {σ : Type} {b : Browser σ} {db : Database} {table : Table}

/-- A browser whose store evaluates queries in a database that has the table of the facts. -/
structure OverTable (b : Browser σ) (db : Database) (table : Table) : Prop where
  evaluated : ∃ store, b.store = some store ∧ store.Evaluates db
  known : db.table? b.compiler.table = some table

/-- The facts that cuts agree on. -/
def factsIn (b : Browser σ) (table : Table) (cuts : List Cut) : Result (List Row) :=
  (b.compiler.predicates cuts).map fun conditions =>
    selectRows table.columns conditions table.rows

theorem factsIn_of_predicates {cuts : List Cut} {conditions : List Predicate}
    (compiled : b.compiler.predicates cuts = .ok conditions) :
    b.factsIn table cuts = .ok (selectRows table.columns conditions table.rows) :=
  Result.map_ok.2 ⟨conditions, compiled, rfl⟩

theorem OverTable.storeAnswers (onTable : b.OverTable db table) : b.StoreAnswers db.IsAnswer := by
  obtain ⟨store, present, evaluates⟩ := onTable.evaluated
  intro other given
  rw [present, Option.some.injEq] at given
  exact given ▸ evaluates.answers

/-- A query with a statement and an answer is executed. -/
theorem OverTable.perform_execute (onTable : b.OverTable db table) {q : Query} {rows : List Row}
    (distinct : q.aliases.Nodup) (written : ∃ text, statement q = .ok text)
    (answered : db.answer? q = some rows) (patience : Patience) (session : Session σ) :
    ∃ state log,
      perform (b.execute q patience) session = (.ok rows, ⟨session.slice, state, log⟩) := by
  obtain ⟨store, present, evaluates⟩ := onTable.evaluated
  exact Browser.perform_execute present (fun _ => written)
    (fun state => evaluates _ state rows distinct answered) session

/-! ### Keys of summaries -/

theorem exists_fingerprint {c : Compiler} {cut : Cut} {conditions : List Predicate}
    (compiled : c.cutPredicates cut = .ok conditions) : ∃ value, cut.fingerprint = .ok value := by
  cases cut with
  | point | range | set => exact ⟨_, rfl⟩
  | bare => cases compiled

theorem exists_fingerprints {c : Compiler} {cuts : List Cut} {conditions : List Predicate}
    (compiled : c.predicates cuts = .ok conditions) :
    ∃ values, allOf Cut.fingerprint cuts = .ok values := by
  induction cuts generalizing conditions with
  | nil => exact ⟨[], rfl⟩
  | cons cut rest inductionHypothesis =>
    obtain ⟨first, head, compiled⟩ := Result.bind_ok.1 compiled
    obtain ⟨others, below, -⟩ := Result.bind_ok.1 compiled
    obtain ⟨value, printed⟩ := exists_fingerprint head
    obtain ⟨values, all⟩ := inductionHypothesis below
    exact ⟨value :: values, allOf_cons_ok.2 ⟨value, values, printed, all, rfl⟩⟩

/-- A slice with conditions has keys for its summaries when its cuts can be told apart. -/
theorem exists_summaryKey {c : Compiler} {slice : Slice} {conditions : List Predicate}
    (compiled : c.predicates slice.cuts = .ok conditions) (hashable : slice.isHashable = true)
    (measure : Option String) (operators : List String) :
    ∃ key, slice.summaryKey measure operators = .ok key := by
  obtain ⟨values, printed⟩ := exists_fingerprints compiled
  refine ⟨⟨values, measure, operators⟩, ?_⟩
  unfold Slice.summaryKey Slice.fingerprint
  rw [printed, hashable]
  rfl

/-! ### Summaries -/

theorem selected_summaryLayer {c : Compiler} {m : Attribute} {operators : List String}
    (conditions : List Predicate) :
    ∀ p ∈ c.aggregateProjections m operators,
      p ∈ (c.summaryLayer m operators conditions).projections := fun _ member => member

/-- The answer to the query for a summary is one row, made of all facts. -/
theorem OverTable.answer?_summary (onTable : b.OverTable db table) (m : Attribute)
    (operators : List String) (conditions : List Predicate) :
    db.answer? (.scan b.compiler.table (b.compiler.summaryLayer m operators conditions)) =
      some [(b.compiler.summaryLayer m operators conditions).project
        (selectRows table.columns conditions table.rows)] := by
  rw [Database.answer?_scan onTable.known]
  refine congrArg some (Layer.apply_aggregate rfl ?_ rfl rfl false table.columns table.rows)
  have aggregated := b.compiler.any_isAggregate (m := m) operators []
  rwa [List.append_nil] at aggregated

/-- The summary of a slice is read off the row that its facts make, be it kept or computed. -/
theorem OverTable.perform_summaryOf (onTable : b.OverTable db table) {m : Attribute}
    {o : AggregateOptions} (session : Session σ) {conditions : List Predicate}
    (kept : b.KeepsTrue db.IsAnswer session.slice)
    (known : b.cube.measure (.ofOption m.name) = .ok m)
    (compiled : b.compiler.predicates session.slice.cuts = .ok conditions)
    (hashable : session.slice.isHashable = true)
    (distinct : ((b.compiler.aggregateProjections m o.operators).map (·.name)).Nodup)
    (patience : Patience) :
    ∃ after, perform (b.summary m.name o patience) session =
        (.ok (summaryOf ((b.compiler.summaryLayer m o.operators conditions).project
          (selectRows table.columns conditions table.rows)) m.name o.operators), after) ∧
      after.slice.cuts = session.slice.cuts := by
  obtain ⟨store, present, evaluates⟩ := onTable.evaluated
  obtain ⟨key, keyed⟩ := exists_summaryKey compiled hashable m.name o.operators
  have asked : b.compiler.summary session.slice.cuts (.ofOption m.name) o =
      .ok (.scan b.compiler.table (b.compiler.summaryLayer m o.operators conditions)) :=
    summary_ok.2 ⟨m, conditions, known, compiled, rfl⟩
  have answered := onTable.answer?_summary m o.operators conditions
  obtain ⟨after, done, same⟩ := Browser.perform_summary present kept keyed asked
    (fun _ => exists_statement_scan _ (isKnown_of_predicates compiled))
    (fun state => evaluates _ state _ distinct answered)
    (fun _ other => other _ distinct answered)
  rw [List.headD_cons] at done
  exact ⟨after, done, same⟩

/-- The summary of a slice tells of its facts. -/
theorem OverTable.perform_summary (onTable : b.OverTable db table) {m : Attribute}
    {o : AggregateOptions} (session : Session σ) {conditions : List Predicate}
    (kept : b.KeepsTrue db.IsAnswer session.slice)
    (known : b.cube.measure (.ofOption m.name) = .ok m)
    (compiled : b.compiler.predicates session.slice.cuts = .ok conditions)
    (hashable : session.slice.isHashable = true)
    (distinct : ((b.compiler.aggregateProjections m o.operators).map (·.name)).Nodup)
    (patience : Patience) :
    ∃ summary after, perform (b.summary m.name o patience) session = (.ok summary, after) ∧
      after.slice.cuts = session.slice.cuts ∧
      Tells id (b.compiler.column m) o.operators summary
        (selectRows table.columns conditions table.rows) := by
  obtain ⟨after, done, same⟩ :=
    onTable.perform_summaryOf session kept known compiled hashable distinct patience
  exact ⟨_, after, done, same, tells_summaryOf distinct (selected_summaryLayer conditions) _⟩

/-! ### Rows -/

/-- A drill-down that is accepted and compiles: the columns it selects have different names, and the
cuts of the slice can be told apart. Options that are given as an object were accepted before. -/
structure Drilling (b : Browser σ) (slice : Slice) (call : AggregateCall) (o : AggregateOptions)
    (m : Attribute) (query : Query) : Prop where
  accepted : AggregateOptions.accept call.options call.overrides = .ok o
  lawful : ∀ given, call.options = .object (.aggregateOptions given) → given.IsAccepted
  measured : b.cube.measure call.measure = .ok m
  hashable : slice.isHashable = true
  compiled : b.compiler.drill slice.cuts (.ofOption m.name) o = .ok (some query)
  distinct : query.aliases.Nodup

/-- What the query of a drill-down is made of. -/
theorem Drilling.exists_drills {slice : Slice} {call : AggregateCall} {o : AggregateOptions}
    {m : Attribute} {query : Query} (drilling : b.Drilling slice call o m query) :
    ∃ conditions attributes order,
      b.compiler.Drills slice.cuts m o conditions attributes order ∧
        query = b.compiler.drilled m o conditions attributes order := by
  obtain ⟨-, other, conditions, attributes, order, known, drills, same⟩ :=
    drill_ok.1 drilling.compiled
  obtain rfl : m = other :=
    Except.ok.inj ((Cube.measure_of_name drilling.measured).symm.trans known)
  exact ⟨conditions, attributes, order, drills, same⟩

theorem Drilling.aliases_eq {slice : Slice} {call : AggregateCall} {o : AggregateOptions}
    {m : Attribute} {query : Query} (drilling : b.Drilling slice call o m query)
    {attributes : List Attribute} (grouped : b.compiler.rowAttributes o = .ok attributes) :
    query.aliases = (b.compiler.aggregateProjections m o.operators).map (·.name) ++
      attributes.map (·.refText) := by
  obtain ⟨conditions, others, order, drills, rfl⟩ := drilling.exists_drills
  obtain rfl : attributes = others := Except.ok.inj (grouped.symm.trans drills.grouped)
  exact aliases_drilled conditions attributes order

/-- What is found in a drill-down: a summary, groups that share out the facts, and some of them, of
which there are rows. A row tells of its group, and it has the attributes of one of its facts. -/
structure Found (c : Compiler) (o : AggregateOptions) (m : Attribute) (attributes : List Attribute)
    (facts : List Row) (summary : Row) (groups kept : List (List Row)) (rowOf : List Row → Row) :
    Prop where
  summed : Tells id (c.column m) o.operators summary facts
  shares : Shares (attributes.map c.column) groups facts
  part : kept.Subperm groups
  all : o.page = none → o.hasLimit = false → kept.Perm groups
  tells : ∀ group, Tells (fieldOf m.name) (c.column m) o.operators (rowOf group) group
  single : attributes = [] → groups = [facts]
  standing : attributes ≠ [] → ∀ group ∈ groups, ∃ fact ∈ group, ∀ a ∈ attributes,
    Record.get? (rowOf group) a.refText = some (fact.cell (c.column a))

/-- The answer to the query of a drill-down has rows of some of the groups, and of all of them when
there is neither a page nor a limit. -/
theorem OverTable.answer?_drilled (onTable : b.OverTable db table) (m : Attribute)
    (o : AggregateOptions) (conditions : List Predicate) (attributes : List Attribute)
    (order : List RowOrder) :
    ∃ kept : List (List Row),
      kept.Subperm ((b.compiler.groupedLayer m o attributes conditions order).groups
        (selectRows table.columns conditions table.rows)) ∧
      (o.page = none → o.hasLimit = false →
        kept.Perm ((b.compiler.groupedLayer m o attributes conditions order).groups
          (selectRows table.columns conditions table.rows))) ∧
      db.answer? (b.compiler.drilled m o conditions attributes order) =
        some (kept.map (b.compiler.groupedLayer m o attributes conditions order).project) := by
  unfold drilled
  cases limited : o.hasLimit with
  | true =>
    obtain ⟨kept, part, answered⟩ := Database.answer?_ranking onTable.known
      (b.compiler.groupedLayer m o attributes conditions order)
      (rankLimit m o (.scan b.compiler.table
        (b.compiler.groupedLayer m o attributes conditions order))).layer rfl rfl rfl
    refine ⟨kept, part, fun _ unlimited => ?_, answered⟩
    cases unlimited
  | false =>
    by_cases unpaged : o.page = none
    · obtain ⟨kept, order, made⟩ := Layer.apply_eq_map_of_unpaged
        (b.compiler.groupedLayer m o attributes conditions order)
        (by show o.page.bind _ = none; rw [unpaged]; rfl)
        (by show o.page.map _ = none; rw [unpaged]; rfl) false table.columns table.rows
      refine ⟨kept, order.subperm, fun _ _ => order, ?_⟩
      rw [if_neg Bool.false_ne_true, Database.answer?_scan onTable.known, made]
    · obtain ⟨kept, part, made⟩ := Layer.apply_eq_map
        (b.compiler.groupedLayer m o attributes conditions order) false table.columns table.rows
      refine ⟨kept, part, fun paged => absurd paged unpaged, ?_⟩
      rw [if_neg Bool.false_ne_true, Database.answer?_scan onTable.known, made]

theorem any_isAggregate_groupedLayer (c : Compiler) (m : Attribute) (o : AggregateOptions)
    (attributes : List Attribute) (conditions : List Predicate) (order : List RowOrder) :
    (c.groupedLayer m o attributes conditions order).projections.any
      (·.expression.isAggregate) = true :=
  c.any_isAggregate o.operators (attributes.map c.projection)

theorem shares_groupedLayer (c : Compiler) (m : Attribute) (o : AggregateOptions)
    (attributes : List Attribute) (conditions : List Predicate) (order : List RowOrder)
    (facts : List Row) :
    Shares (attributes.map c.column)
      ((c.groupedLayer m o attributes conditions order).groups facts) facts :=
  Layer.shares_groups (any_isAggregate_groupedLayer c m o attributes conditions order) facts

/-- References are no names of aggregated fields when the names of a drill-down differ. -/
theorem refText_notMem_aggregatedFields {c : Compiler} {m : Attribute} {o : AggregateOptions}
    {attributes : List Attribute} (accepted : o.IsAccepted)
    (distinct : ((c.aggregateProjections m o.operators).map (·.name) ++
      attributes.map (·.refText)).Nodup) :
    ∀ a ∈ attributes, a.refText ∉ aggregatedFields m.name o.operators := by
  rw [map_name_aggregateProjections fun operator member => accepted.exists_aggregate? member]
    at distinct
  intro a member aggregated
  exact (List.nodup_append.mp distinct).2.2 _ aggregated _ (List.mem_map_of_mem member) rfl

/-- A group of a drill-down has the facts with the key of its row. -/
theorem Found.told {c : Compiler} {o : AggregateOptions} {m : Attribute}
    {attributes : List Attribute} {facts : List Row} {summary : Row} {groups kept : List (List Row)}
    {rowOf : List Row → Row} (found : Found c o m attributes facts summary groups kept rowOf)
    {group : List Row} (member : group ∈ groups) :
    group = facts.filter fun fact =>
      Cell.sameKey (keyOf (attributes.map (·.refText)) (rowOf group))
        (fact.key (attributes.map c.column)) := by
  by_cases none : attributes = []
  · rw [found.single none, List.mem_singleton] at member
    rw [member, none]
    exact (List.filter_eq_self.mpr fun _ _ => rfl).symm
  · obtain ⟨fact, inside, same⟩ := found.standing none group member
    rw [keyOf_eq_key same]
    exact found.shares.alike group member fact inside

/-- Without a page and a limit there is a row as soon as there is a fact. -/
theorem Found.kept_ne_nil {c : Compiler} {o : AggregateOptions} {m : Attribute}
    {attributes : List Attribute} {facts : List Row} {summary : Row} {groups kept : List (List Row)}
    {rowOf : List Row → Row} (found : Found c o m attributes facts summary groups kept rowOf)
    (unpaged : o.page = none) (unlimited : o.hasLimit = false) (filled : facts ≠ []) : kept ≠ [] := by
  rintro rfl
  exact filled (List.nil_perm.mp ((found.all unpaged unlimited).flatten.trans found.shares.whole))

/-- A call comes to what is made of its summary and of the rows that are found for its query. -/
theorem perform_call_of_execute {call : AggregateCall} {o : AggregateOptions} {m : Attribute}
    {computed : List ComputedField} {summary : Row} {session middle after : Session σ}
    {query : Query} {found : List Row}
    (accepted : AggregateOptions.accept call.options call.overrides = .ok o)
    (measured : b.cube.measure call.measure = .ok m) (given : call.computed = .ok computed)
    (summed : perform (b.summary m.name o call.patience) session = (.ok summary, middle))
    (asked : b.compiler.drill middle.slice.cuts (.ofOption m.name) o = .ok (some query))
    (executed : perform (b.execute query call.patience) middle = (.ok found, after)) :
    perform (b.call call) session =
      (withRows (b.bareResult m.name o summary middle.slice.cuts) computed found, after) := by
  unfold Browser.call aggregate drillDown
  simp only [perform_bind, perform_get, perform_require, accepted, measured, given, summed, asked,
    executed]
  rfl

/-- A drill-down comes to the summary of the facts and to what is made of the rows that the store
answers its query with. -/
theorem Drilling.perform_answer (onTable : b.OverTable db table) {slice : Slice} {call : AggregateCall}
    {o : AggregateOptions} {m : Attribute} {query : Query} (kept : b.KeepsTrue db.IsAnswer slice)
    (drilling : b.Drilling slice call o m query) {facts found : List Row}
    (restricted : b.factsIn table slice.cuts = .ok facts) (answered : db.answer? query = some found)
    (state : σ) (log : List LogLine) :
    ∃ summary after,
      (∃ middle, perform (b.summary m.name o call.patience) ⟨slice, state, log⟩ =
        (.ok summary, middle)) ∧
      Tells id (b.compiler.column m) o.operators summary facts ∧
      ∀ computed, call.computed = .ok computed → perform (b.call call) ⟨slice, state, log⟩ =
        (withRows (b.bareResult m.name o summary slice.cuts) computed found, after) := by
  obtain ⟨conditions, compiled, rfl⟩ := Result.map_ok.1 restricted
  obtain ⟨others, attributes, order, drills, rfl⟩ := drilling.exists_drills
  have names := drilling.distinct
  rw [aliases_drilled] at names
  have accepted := AggregateOptions.isAccepted_of_accept drilling.lawful drilling.accepted
  obtain ⟨summary, middle, summed, same, tells⟩ := onTable.perform_summary (o := o)
    ⟨slice, state, log⟩ kept (Cube.measure_of_name drilling.measured) compiled drilling.hashable
    (List.nodup_append.mp names).1 call.patience
  obtain ⟨after, logged, executed⟩ := onTable.perform_execute drilling.distinct
    (exists_statement_drilled drills accepted drilling.distinct) answered call.patience middle
  have asked := drilling.compiled
  rw [← show middle.slice.cuts = slice.cuts from same] at asked ⊢
  exact ⟨summary, ⟨middle.slice, after, logged⟩, ⟨middle, summed⟩, tells, fun computed given =>
    perform_call_of_execute drilling.accepted drilling.measured given summed asked executed⟩

/-- What a drill-down comes to: a summary and rows of some of the groups. -/
theorem Drilling.perform_call (onTable : b.OverTable db table) {slice : Slice} {call : AggregateCall}
    {o : AggregateOptions} {m : Attribute} {query : Query} (reached : b.Reaches slice)
    (drilling : b.Drilling slice call o m query) {attributes : List Attribute} {facts : List Row}
    (grouped : b.compiler.rowAttributes o = .ok attributes)
    (restricted : b.factsIn table slice.cuts = .ok facts) (state : σ) (log : List LogLine) :
    ∃ summary groups kept rowOf,
      Found b.compiler o m attributes facts summary groups kept rowOf ∧
      ∀ computed rows, call.computed = .ok computed →
        ComputedField.extendAll computed (kept.map rowOf) = .ok rows →
        (o.hasLimit = false → ∃ after, perform (b.call call) ⟨slice, state, log⟩ =
          (.ok { b.bareResult m.name o summary slice.cuts with rows }, after)) ∧
        (o.hasLimit = true → ∀ remainder,
          remainderOf summary rows m.name o.operators = .ok remainder →
          ∃ after, perform (b.call call) ⟨slice, state, log⟩ =
            (.ok { b.bareResult m.name o summary slice.cuts with rows, remainder }, after)) := by
  obtain ⟨conditions, compiled, rfl⟩ := Result.map_ok.1 restricted
  obtain ⟨sameConditions, sameAttributes, order, drills, rfl⟩ := drilling.exists_drills
  obtain rfl : conditions = sameConditions := Except.ok.inj (compiled.symm.trans drills.compiled)
  obtain rfl : attributes = sameAttributes := Except.ok.inj (grouped.symm.trans drills.grouped)
  have names := drilling.distinct
  rw [aliases_drilled] at names
  have distinct : ((b.compiler.groupedLayer m o attributes conditions order).projections.map
      (·.name)).Nodup := by
    rwa [map_name_groupedLayer]
  have accepted := AggregateOptions.isAccepted_of_accept drilling.lawful drilling.accepted
  have apart := refText_notMem_aggregatedFields accepted names
  have keepsTrue := onTable.storeAnswers.keepsTrue_of_reaches reached
  obtain ⟨kept, part, all, answered⟩ := onTable.answer?_drilled m o conditions attributes order
  obtain ⟨summary, after, -, tells, performed⟩ :=
    drilling.perform_answer onTable keepsTrue restricted answered state log
  refine ⟨summary, _, kept,
    fun group => numberFields (aggregatedFields m.name o.operators)
      ((b.compiler.groupedLayer m o attributes conditions order).project group),
    ⟨tells, shares_groupedLayer _ _ _ _ _ _ _, part, all, ?_, ?_, ?_⟩, ?_⟩
  · exact tells_numberFields distinct fun p member => List.mem_append_left _ member
  · rintro rfl
    unfold Layer.groups
    rw [if_neg (by simp [groupedLayer]),
      if_pos (any_isAggregate_groupedLayer b.compiler m o [] conditions order)]
  · intro some group member
    obtain ⟨fact, inside, standing⟩ := Layer.exists_standing_of_mem_groups
      (by simpa [groupedLayer] using some) member
    exact ⟨fact, inside, fun a among => get?_numberFields_attribute distinct standing
      (List.mem_append_right _ (List.mem_map_of_mem among)) (apart a among)⟩
  · intro computed rows given extended
    have rowsFinished : finishRows m.name o computed
        (kept.map (b.compiler.groupedLayer m o attributes conditions order).project) =
          .ok rows := by
      rw [finishRows, List.map_map]
      exact extended
    refine ⟨fun unlimited => ⟨after, ?_⟩, fun limited remainder left => ⟨after, ?_⟩⟩
    · have whole := withRows_unlimited (b.bareResult m.name o summary slice.cuts) unlimited computed
      rw [performed computed given, whole]
      exact Prod.ext (Result.map_ok.2 ⟨rows, rowsFinished, rfl⟩) rfl
    · have ranked := withRows_limited (b.bareResult m.name o summary slice.cuts) limited rowsFinished
      rw [performed computed given, ranked]
      exact Prod.ext (Result.map_ok.2 ⟨remainder, left, rfl⟩) rfl

/-! ### Calls without rows -/

/-- A call that is accepted and asks for nothing but a summary. -/
structure Summarizing (b : Browser σ) (call : AggregateCall) (o : AggregateOptions)
    (m : Attribute) : Prop where
  accepted : AggregateOptions.accept call.options call.overrides = .ok o
  measured : b.cube.measure call.measure = .ok m
  computed : ∃ fields, call.computed = .ok fields
  bare : o.isDrillDown = false

/-- What such a call comes to has the summary that is read off the row of the facts of the slice. -/
theorem Summarizing.perform_call_summaryOf (onTable : b.OverTable db table) {slice : Slice}
    {call : AggregateCall} {o : AggregateOptions} {m : Attribute}
    (summarizing : b.Summarizing call o m) (kept : b.KeepsTrue db.IsAnswer slice)
    {conditions : List Predicate} (compiled : b.compiler.predicates slice.cuts = .ok conditions)
    (hashable : slice.isHashable = true)
    (distinct : ((b.compiler.aggregateProjections m o.operators).map (·.name)).Nodup)
    (state : σ) (log : List LogLine) :
    ∃ a after, perform (b.call call) ⟨slice, state, log⟩ = (.ok a, after) ∧
      a.summary = summaryOf ((b.compiler.summaryLayer m o.operators conditions).project
        (selectRows table.columns conditions table.rows)) m.name o.operators := by
  obtain ⟨fields, given⟩ := summarizing.computed
  obtain ⟨middle, summed, -⟩ := onTable.perform_summaryOf (o := o) ⟨slice, state, log⟩
    kept (Cube.measure_of_name summarizing.measured) compiled hashable distinct call.patience
  exact ⟨b.bareResult m.name o _ middle.slice.cuts, middle,
    aggregate_ok.2 ⟨o, m, fields, _, middle, summarizing.accepted, summarizing.measured, given,
      summed, drillDown_ok.2 (Or.inl ⟨drill_none summarizing.bare, rfl, rfl⟩)⟩, rfl⟩

/-- It tells of the facts of the slice. -/
theorem Summarizing.perform_call (onTable : b.OverTable db table) {slice : Slice}
    {call : AggregateCall} {o : AggregateOptions} {m : Attribute}
    (summarizing : b.Summarizing call o m) (kept : b.KeepsTrue db.IsAnswer slice)
    {facts : List Row} (restricted : b.factsIn table slice.cuts = .ok facts)
    (hashable : slice.isHashable = true)
    (distinct : ((b.compiler.aggregateProjections m o.operators).map (·.name)).Nodup)
    (state : σ) (log : List LogLine) :
    ∃ a after, perform (b.call call) ⟨slice, state, log⟩ = (.ok a, after) ∧
      Tells id (b.compiler.column m) o.operators a.summary facts := by
  obtain ⟨conditions, compiled, rfl⟩ := Result.map_ok.1 restricted
  obtain ⟨a, after, done, same⟩ :=
    summarizing.perform_call_summaryOf onTable kept compiled hashable distinct state log
  refine ⟨a, after, done, ?_⟩
  rw [same]
  exact tells_summaryOf distinct (selected_summaryLayer conditions) _

end Browser

/-! ### Sales in a table -/

namespace Market

/-- Two sales in a city, and one of an unknown amount at an unknown place in the country. -/
def salesTable : Table :=
  { name := "sales"
    columns := [("place.country", .text), ("place.city", .text), ("amount", .integer)]
    rows := [
      [("place.country", .text "AT"), ("place.city", .text "Linz"), ("amount", .int 3)],
      [("place.country", .text "AT"), ("place.city", .null), ("amount", .null)],
      [("place.country", .text "AT"), ("place.city", .text "Linz"), ("amount", .int (-1))]] }

def salesBrowser : Browser Unit := ⟨sales, some (Database.evaluator [salesTable]), .unset⟩

theorem salesBrowser_overTable : salesBrowser.OverTable [salesTable] salesTable :=
  ⟨⟨_, rfl, Database.evaluates_evaluator _⟩, rfl⟩

/-- The sales in a country. -/
def inAustria : Slice := Slice.ofCuts sales [.point "place" none [.text "AT"]]

/-- The sum and the least amount in every city. -/
def byCity : AggregateCall :=
  sum [("row_dimension", .text "place"), ("row_levels", .list [.text "country", .text "city"]),
    ("aggregations", .list [.text "sum", .text "min"])]

/-- The sum of the amounts in the city with the greatest sum. -/
def bestCity : AggregateCall :=
  sum [("row_dimension", .text "place"), ("row_levels", .list [.text "country", .text "city"]),
    ("limit", .text "rank"), ("limit_value", .int 1), ("limit_sort", .text "top")]

theorem reaches_inAustria : salesBrowser.Reaches inAustria :=
  Browser.reaches_ofCuts [.point "place" none [.text "AT"]]

end Market

end Olap
