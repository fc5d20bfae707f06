/-
Pages of a drill-down. Every page is a statement of its own, and nothing is assumed of the store but that
it sorts: groups that the order of a statement leaves open may come in one way on one page and in another
way on the next. Without an order of its own a drill-down is ordered by all columns that its rows are
grouped by, so nothing is left open, and its pages are parts of one and the same list. This is so as long
as the names of these columns denote them; a name that is the alias of something else that is selected
denotes this, and then rows can be lost between two pages.
-/

import Olap.Proofs.Arrangements

namespace Olap

theorem QueryOptions.limitRows_eq_none {o : QueryOptions} (unpaged : o.page = none) :
    o.limitRows = none := by
  rw [limitRows, unpaged]
  rfl

theorem QueryOptions.offset_eq_none {o : QueryOptions} (unpaged : o.page = none) :
    o.offset = none := by
  rw [offset, unpaged]
  rfl

/-- Neither a page nor an order is asked for. -/
structure QueryOptions.WantsAll (o : QueryOptions) : Prop where
  unpaged : o.page = none
  usual : o.orderBy.filter (!·.isEmpty) = none

/-- The same options for a page. -/
def QueryOptions.forPage (o : QueryOptions) (size page : Nat) (given : List String) : QueryOptions :=
  { o with page := some (page : Int), pageSize := some (size : Int), given }

/-- Of an aggregation there is no limit asked for, either. -/
structure AggregateOptions.WantsAll (o : AggregateOptions) : Prop
    extends QueryOptions.WantsAll o.toQueryOptions where
  unlimited : o.hasLimit = false

def AggregateOptions.forPage (o : AggregateOptions) (size page : Nat) (given : List String) :
    AggregateOptions :=
  { o with toQueryOptions := o.toQueryOptions.forPage size page given }

namespace Compiler

variable {c : Compiler} {cuts : List Cut} {m : Attribute} {o : AggregateOptions}
  {conditions : List Predicate} {attributes : List Attribute} {order : List RowOrder}

/-- Every column that rows are grouped by is denoted by a name in the usual order. -/
def DenotesRows (c : Compiler) (m : Attribute) (o : AggregateOptions) : Prop :=
  ∀ attributes, c.rowAttributes o = .ok attributes → ∀ a ∈ attributes, ∃ other ∈ attributes,
    Projection.denoted (c.aggregateProjections m o.operators ++ attributes.map c.projection)
      (c.column other) = .column (c.column a)

/-- Options for a page drill down as those for all rows do. -/
theorem Drills.forPage (drills : c.Drills cuts m o conditions attributes order) (size page : Nat)
    (given : List String) :
    c.Drills cuts m (o.forPage size page given) conditions attributes order :=
  ⟨drills.compiled, drills.grouped, drills.ordered⟩

/-- The usual order tells the groups of a drill-down apart when it denotes their columns. -/
theorem Drills.tellsApart (drills : c.Drills cuts m o conditions attributes order)
    (wants : o.WantsAll) (denotes : c.DenotesRows m o) (table : Table) :
    (c.groupedLayer m o attributes conditions order).TellsApart
      (table.groups (c.groupedLayer m o attributes conditions order)) := by
  have usual := drills.ordered
  unfold orderings at usual
  rw [wants.usual] at usual
  obtain rfl := Except.ok.inj usual
  refine Layer.tellsApart_groups (Browser.any_isAggregate_groupedLayer _ _ _ _ _ _)
    (fun column grouped => ?_) _
  obtain ⟨a, member, rfl⟩ := List.mem_map.mp grouped
  obtain ⟨other, known, denoted⟩ := denotes attributes drills.grouped a member
  exact ⟨⟨c.column other, o.direction⟩,
    List.mem_map.mpr ⟨_, List.mem_map_of_mem known, rfl⟩, denoted⟩

end Compiler

namespace Browser

open Olap.Action Compiler

variable {σ : Type} {b : Browser σ} {db : Database} {table : Table}

/-! ### Statements over a table -/

/-- A browser whose store sorts what it finds in a database with the table of the facts. -/
structure SortsOver (b : Browser σ) (db : Database) (table : Table) : Prop where
  sorted : ∃ store, b.store = some store ∧ store.Sorts db
  known : db.table? b.compiler.table = some table

theorem OverTable.sortsOver (onTable : b.OverTable db table) : b.SortsOver db table := by
  obtain ⟨store, present, evaluates⟩ := onTable.evaluated
  exact ⟨⟨store, present, evaluates.sortsAlike.sorts⟩, onTable.known⟩

/-- A query over the table is executed, and its groups come in some arrangement. -/
theorem SortsOver.exists_perform_execute (sorts : b.SortsOver db table) (layer : Layer)
    (distinct : (layer.projections.map (·.name)).Nodup)
    (known : ∀ p ∈ layer.predicates, Sql.IsKnown p) (patience : Patience) (session : Session σ) :
    ∃ found state log,
      (∃ ordered, layer.IsArranged (table.groups layer) ordered ∧ found = layer.rowsOf ordered) ∧
      perform (b.execute (.scan b.compiler.table layer) patience) session =
        (.ok found, ⟨session.slice, state, log⟩) := by
  obtain ⟨store, present, sorted⟩ := sorts.sorted
  obtain ⟨ordered, arranged, answered⟩ := sorted (b.requestFor (.scan b.compiler.table layer) patience)
    session.store _ layer table rfl distinct sorts.known
  obtain ⟨state, log, executed⟩ := perform_execute_of_outcome present
    (fun _ => exists_statement_scan b.compiler.table known) answered
  exact ⟨_, state, log, ⟨ordered, arranged, rfl⟩, executed⟩

/-- There is a summary of a slice whose cuts compile and can be told apart. -/
theorem SortsOver.exists_perform_summary (sorts : b.SortsOver db table) {m : Attribute}
    {o : AggregateOptions} {session : Session σ} {conditions : List Predicate}
    (known : b.cube.measure (.ofOption m.name) = .ok m)
    (compiled : b.compiler.predicates session.slice.cuts = .ok conditions)
    (hashable : session.slice.isHashable = true)
    (distinct : ((b.compiler.aggregateProjections m o.operators).map (·.name)).Nodup)
    (patience : Patience) :
    ∃ summary after, perform (b.summary m.name o patience) session = (.ok summary, after) ∧
      after.slice.cuts = session.slice.cuts := by
  obtain ⟨key, keyed⟩ := exists_summaryKey compiled hashable m.name o.operators
  rcases looked : session.slice.summaries.find? key with _ | found
  · have asked : b.compiler.summary session.slice.cuts (.ofOption m.name) o =
        .ok (.scan b.compiler.table (b.compiler.summaryLayer m o.operators conditions)) :=
      summary_ok.2 ⟨m, conditions, known, compiled, rfl⟩
    obtain ⟨found, state, log, -, executed⟩ := sorts.exists_perform_execute
      (b.compiler.summaryLayer m o.operators conditions) distinct (isKnown_of_predicates compiled)
      patience session
    exact ⟨_, exists_perform_summary_of_execute keyed looked asked executed⟩
  · exact ⟨found, session, perform_summary_of_find? keyed looked patience, rfl⟩

/-! ### Calls for rows -/

/-- A call for a drill-down without a limit, in slices with certain cuts. -/
structure DrillsRows (b : Browser σ) (cuts : List Cut) (call : AggregateCall) (o : AggregateOptions)
    (m : Attribute) (conditions : List Predicate) (attributes : List Attribute)
    (order : List RowOrder) : Prop where
  accepted : AggregateOptions.accept call.options call.overrides = .ok o
  measured : b.cube.measure call.measure = .ok m
  hashable : cuts.all Cut.isHashable = true
  drills : b.compiler.Drills cuts m o conditions attributes order
  down : o.isDrillDown = true
  unlimited : o.hasLimit = false
  distinct : ((b.compiler.aggregateProjections m o.operators).map (·.name) ++
    attributes.map (·.refText)).Nodup

variable {cuts : List Cut} {call paged : AggregateCall} {o : AggregateOptions} {m : Attribute}
  {conditions : List Predicate} {attributes : List Attribute} {order : List RowOrder}
  {computed : List ComputedField} {size page : Nat}

theorem Drilling.exists_drillsRows {slice : Slice} {query : Query}
    (drilling : b.Drilling slice call o m query) (unlimited : o.hasLimit = false) :
    ∃ conditions attributes order,
      b.DrillsRows slice.cuts call o m conditions attributes order := by
  obtain ⟨conditions, attributes, order, drills, rfl⟩ := drilling.exists_drills
  have names := drilling.distinct
  rw [aliases_drilled] at names
  exact ⟨conditions, attributes, order, drilling.accepted, drilling.measured, drilling.hashable,
    drills, (drill_ok.1 drilling.compiled).1, unlimited, names⟩

/-- When the query of such a call is executed, whatever is found, the call comes to what is made of the
rows that are found. -/
theorem DrillsRows.exists_perform_call
    (rows : b.DrillsRows cuts call o m conditions attributes order) (sorts : b.SortsOver db table)
    (given : call.computed = .ok computed) {possible : List Row → Prop}
    (executes : ∀ middle : Session σ, ∃ found state log, possible found ∧
      perform (b.execute (.scan b.compiler.table
        (b.compiler.groupedLayer m o attributes conditions order)) call.patience) middle =
          (.ok found, ⟨middle.slice, state, log⟩)) (session : Session σ)
    (same : session.slice.cuts = cuts) :
    ∃ found summary after, possible found ∧ after.slice.cuts = cuts ∧
      perform (b.call call) session =
        ((finishRows m.name o computed found).map fun rows =>
          { b.bareResult m.name o summary cuts with rows := rows }, after) := by
  obtain rfl := same
  have known := Cube.measure_of_name rows.measured
  obtain ⟨summary, middle, summed, same⟩ := sorts.exists_perform_summary (o := o) known
    rows.drills.compiled rows.hashable (List.nodup_append.mp rows.distinct).1 call.patience
  have asked : b.compiler.drill middle.slice.cuts (.ofOption m.name) o = .ok (some
      (.scan b.compiler.table (b.compiler.groupedLayer m o attributes conditions order))) := by
    rw [same]
    refine drill_ok.2 ⟨rows.down, m, conditions, attributes, order, known, rows.drills, ?_⟩
    rw [drilled, rows.unlimited, if_neg Bool.false_ne_true]
  obtain ⟨found, state, log, fits, executed⟩ := executes middle
  have whole := withRows_unlimited (b.bareResult m.name o summary middle.slice.cuts) rows.unlimited
    computed found
  refine ⟨found, summary, ⟨middle.slice, state, log⟩, fits, same, ?_⟩
  rw [← same]
  exact (perform_call_of_execute rows.accepted rows.measured given summed asked executed).trans
    (Prod.ext whole rfl)

/-- So it has the groups of the facts in some arrangement. -/
theorem DrillsRows.exists_arranged
    (rows : b.DrillsRows cuts call o m conditions attributes order) (sorts : b.SortsOver db table)
    (given : call.computed = .ok computed) (session : Session σ)
    (same : session.slice.cuts = cuts) :
    ∃ ordered summary after,
      (b.compiler.groupedLayer m o attributes conditions order).IsArranged
        (table.groups (b.compiler.groupedLayer m o attributes conditions order)) ordered ∧
      after.slice.cuts = cuts ∧ perform (b.call call) session =
        ((finishRows m.name o computed
          ((b.compiler.groupedLayer m o attributes conditions order).rowsOf ordered)).map fun rows =>
            { b.bareResult m.name o summary cuts with rows := rows }, after) := by
  obtain ⟨_, summary, after, ⟨ordered, arranged, rfl⟩, stays, performed⟩ :=
    rows.exists_perform_call sorts given (sorts.exists_perform_execute
      (b.compiler.groupedLayer m o attributes conditions order)
      (by rw [map_name_groupedLayer]; exact rows.distinct) (isKnown_of_predicates rows.drills.compiled)
      call.patience) session same
  exact ⟨ordered, summary, after, arranged, stays, performed⟩

/-! ### Pages of rows -/

/-- A call for a page of what another call is for. -/
structure AsksPage (call paged : AggregateCall) (o : AggregateOptions) (size page : Nat) : Prop where
  measure : paged.measure = call.measure
  computed : paged.computed = call.computed
  accepted : ∃ given,
    AggregateOptions.accept paged.options paged.overrides = .ok (o.forPage size page given)

/-- A page of any call can be asked for. -/
theorem exists_asksPage (call : AggregateCall) (o : AggregateOptions) (size page : Nat) :
    ∃ paged, AsksPage call paged o size page :=
  ⟨{ call with options := .object (.aggregateOptions (o.forPage size page o.given)), overrides := [] },
    rfl, rfl, _, rfl⟩

theorem AsksPage.exists_drillsRows (asks : AsksPage call paged o size page)
    (rows : b.DrillsRows cuts call o m conditions attributes order) : ∃ given,
      b.DrillsRows cuts paged (o.forPage size page given) m conditions attributes order := by
  obtain ⟨given, accepted⟩ := asks.accepted
  exact ⟨given, accepted, asks.measure ▸ rows.measured, rows.hashable,
    rows.drills.forPage size page given, rows.down, rows.unlimited, rows.distinct⟩

/-- The pages of a call cover some rows. -/
def RowPagesCover (b : Browser σ) (cuts : List Cut) (call : AggregateCall) (o : AggregateOptions)
    (size : Nat) (rows : List Row) : Prop :=
  ∃ pages, CoversExactly pages rows ∧ ∀ page paged (session : Session σ),
    AsksPage call paged o size page → session.slice.cuts = cuts → ∃ part after,
      perform (b.call paged) session = (.ok part, after) ∧ after.slice.cuts = cuts ∧
        part.rows = pages page

/-- A page has a page of the rows of a drill-down, finished one by one, when its usual order leaves
nothing open. -/
theorem AsksPage.exists_perform_page (asks : AsksPage call paged o size page)
    (rows : b.DrillsRows cuts call o m conditions attributes order) (sorts : b.SortsOver db table)
    (wants : o.WantsAll) (denotes : b.compiler.DenotesRows m o)
    (given : call.computed = .ok computed) {ordered : List (List Row)}
    (arranged : (b.compiler.groupedLayer m o attributes conditions order).IsArranged
      (table.groups (b.compiler.groupedLayer m o attributes conditions order)) ordered)
    {finish : Row → Row}
    (each : ∀ row ∈ (b.compiler.groupedLayer m o attributes conditions order).rowsOf ordered,
      finishRow m.name o computed row = .ok (finish row)) (session : Session σ)
    (same : session.slice.cuts = cuts) :
    ∃ part after, perform (b.call paged) session = (.ok part, after) ∧
      after.slice.cuts = cuts ∧ part.rows = pageOf size
        (((b.compiler.groupedLayer m o attributes conditions order).rowsOf ordered).map finish) page := by
  obtain ⟨options, rowsToo⟩ := asks.exists_drillsRows rows
  obtain ⟨orderedToo, summary, after, arrangedToo, stays, performed⟩ :=
    rowsToo.exists_arranged sorts (asks.computed.trans given) session same
  have alike := arrangedToo.of_page.eq_of_tellsApart arranged
    (rows.drills.tellsApart wants denotes table)
  have part : (b.compiler.groupedLayer m (o.forPage size page options) attributes conditions
      order).rowsOf ordered =
        pageOf size ((b.compiler.groupedLayer m o attributes conditions order).rowsOf ordered) page :=
    Layer.rowsOf_eq_pageOf (b.compiler.groupedLayer m o attributes conditions order)
      (QueryOptions.limitRows_eq_none wants.unpaged) (QueryOptions.offset_eq_none wants.unpaged)
      size page ordered
  rw [performed, alike, part]
  refine ⟨_, after, Prod.ext (Result.map_ok.2 ⟨_, ?_, rfl⟩) rfl, stays,
    map_pageOf finish size _ page⟩
  refine (finishRows_eq _ _ _ _).trans (allOf_of_each fun row member => ?_)
  exact each row (mem_of_mem_pageOf member)

/-- Pages of a drill-down cover it exactly once. Without a page, a limit and an order a drill-down has
all its rows, and its pages up to the first empty one are these rows in the same order, whatever the
store does with rows that an order leaves open. The names of the columns that rows are grouped by have
to denote them in an order. -/
theorem pages_cover_rows (sorts : b.SortsOver db table) {slice : Slice} {query : Query}
    (drilling : b.Drilling slice call o m query) (wants : o.WantsAll)
    (denotes : b.compiler.DenotesRows m o) (given : call.computed = .ok computed)
    (positive : 0 < size) :
    (ComputedField.AlwaysComputed computed → ∀ session : Session σ,
      session.slice.cuts = slice.cuts → ∃ u after, perform (b.call call) session = (.ok u, after)) ∧
    ∀ (session : Session σ) u after, session.slice.cuts = slice.cuts →
      perform (b.call call) session = (.ok u, after) →
        after.slice.cuts = slice.cuts ∧ b.RowPagesCover slice.cuts call o size u.rows := by
  obtain ⟨conditions, attributes, order, rows⟩ := drilling.exists_drillsRows wants.unlimited
  refine ⟨fun always session same => ?_, fun session u after same came => ?_⟩
  · obtain ⟨ordered, summary, after, -, -, performed⟩ := rows.exists_arranged sorts given session same
    obtain ⟨finished, done, -⟩ := ComputedField.exists_extendAll always _
    exact ⟨_, after, performed.trans (Prod.ext (Result.map_ok.2 ⟨finished, done, rfl⟩) rfl)⟩
  · obtain ⟨ordered, summary, _, arranged, stays, performed⟩ :=
      rows.exists_arranged sorts given session same
    obtain ⟨outcome, rfl⟩ := Prod.mk.inj (performed.symm.trans came)
    obtain ⟨finished, done, rfl⟩ := Result.map_ok.1 outcome
    obtain ⟨finish, each, rfl⟩ := exists_each_of_allOf ((finishRows_eq _ _ _ _).symm.trans done)
    refine ⟨stays, pageOf size _, coversExactly_pageOf positive _,
      fun page paged later asks cuts => ?_⟩
    exact asks.exists_perform_page rows sorts wants denotes given arranged each later cuts

end Browser

/-! ### Two countries -/

namespace Market

/-- A browser over a table whose store turns groups around for some statements. -/
def turningBrowser (cube : Cube) (table : Table) : Browser Unit :=
  ⟨cube, some (Database.turning [table]), .unset⟩

/-- The sum of the amounts in every country. -/
def byCountry : AggregateCall :=
  sum [("row_dimension", .text "place"), ("row_levels", .text "country")]

def byCountryOptions : AggregateOptions :=
  { AggregateOptions.unset with
    rowDimension := some "place", rowLevels := some ["country"]
    given := ["row_dimension", "row_levels"] }

/-- The sum in one country at a time. -/
def byCountryPage (page : Nat) : AggregateCall :=
  { byCountry with overrides := [("page", .int page), ("page_size", .int 1)] }

theorem asksPage_byCountryPage (page : Nat) :
    Browser.AsksPage byCountry (byCountryPage page) byCountryOptions 1 page :=
  ⟨rfl, rfl, ["page", "page_size", "row_dimension", "row_levels"], rfl⟩

theorem wantsAll_byCountryOptions : byCountryOptions.WantsAll := ⟨⟨rfl, rfl⟩, rfl⟩

/-- Sales whose countries are in a column that is called like the number of records. -/
def counted : Cube := { sales with mappings := [("place.country", recordCount)] }

/-- One sale in each of two countries. -/
def countedTable : Table :=
  { name := "sales"
    columns := [(recordCount, .text), ("place.city", .text), ("amount", .integer)]
    rows := [
      [(recordCount, .text "AT"), ("place.city", .text "Linz"), ("amount", .int 3)],
      [(recordCount, .text "DE"), ("place.city", .text "Ulm"), ("amount", .int 4)]] }

/-- The row of a country with one sale. -/
def countedRow (country : String) (amount : Int) : Row :=
  [("amount_sum", .int amount), (recordCount, .int 1), ("place.country", .text country)]

/-- The layer for the sums in countries, ordered by the column of the countries. -/
def countedLayer (o : AggregateOptions) : Layer :=
  (turningBrowser counted countedTable).compiler.groupedLayer (.ofName .measure (some "amount")) o
    (level "country").attributes [] [⟨recordCount, .asc⟩]

/-- The rows that are found, with the countries turned around where a page is left out. -/
def countedFound (o : AggregateOptions) : List Row :=
  (countedLayer o).rowsOf
    (if (countedLayer o).offset.any (0 < ·) then (countedTable.rows.map ([·])).reverse
    else countedTable.rows.map ([·]))

end Market

namespace Browser

open Olap.Action Compiler Market

theorem sortsOver_turningBrowser {cube : Cube} {table : Table}
    (known : Database.table? [table] (turningBrowser cube table).compiler.table = some table) :
    (turningBrowser cube table).SortsOver [table] table :=
  ⟨⟨_, rfl, Database.sorts_turning _⟩, known⟩

/-- A query is executed with the rows that the store finds. -/
theorem perform_turning (cube : Cube) {table : Table} {q : Query} {rows : List Row}
    (written : ∃ text, statement q = .ok text)
    (found : Database.turnedRows? [table] q = some rows) (patience : Patience)
    (session : Session Unit) :
    ∃ state log, perform ((turningBrowser cube table).execute q patience) session =
      (.ok rows, ⟨session.slice, state, log⟩) :=
  perform_execute rfl (fun _ => written) (Database.outcome_turning found) session

/-- The countries come one on each page, whatever the store does with groups that an order leaves
open. -/
theorem pages_cover_rows_byCountry :
    ∃ u after, perform ((turningBrowser sales notedTable).call byCountry) ⟨Slice.full sales, (), []⟩ =
        (.ok u, after) ∧
      (turningBrowser sales notedTable).RowPagesCover [] byCountry byCountryOptions 1 u.rows := by
  have drilling := (⟨rfl, fun _ same => (by cases same), rfl, rfl, rfl, by decide⟩ :
    (turningBrowser sales notedTable).Drilling (Slice.full sales) byCountry byCountryOptions
      (.ofName .measure (some "amount")) _)
  have denotes : (turningBrowser sales notedTable).compiler.DenotesRows
      (.ofName .measure (some "amount")) byCountryOptions := by
    intro attributes grouped a member
    cases grouped
    exact ⟨a, member, Projection.denoted_of_leaveFree
      (leaveFree_of_column_eq (by decide) (List.mem_append_right _ (List.mem_map_of_mem member))
        (by rw [List.mem_singleton.mp member]; rfl))⟩
  have always : ComputedField.AlwaysComputed [] := by
    intro field member
    cases member
  obtain ⟨returned, rows⟩ := pages_cover_rows (sortsOver_turningBrowser rfl) drilling
    wantsAll_byCountryOptions denotes rfl Nat.one_pos
  obtain ⟨u, after, done⟩ := returned always ⟨Slice.full sales, (), []⟩ rfl
  obtain ⟨-, cover⟩ := rows _ u after rfl done
  exact ⟨u, after, done, cover⟩

theorem groups_counted (o : AggregateOptions) :
    countedTable.groups (countedLayer o) = countedTable.rows.map ([·]) := by
  unfold Table.groups
  rw [Layer.groups_eq_groupRows (List.cons_ne_nil _ _), groupRows, List.mergeSort_of_pairwise]
  · rfl
  · show List.Pairwise (fun key other => (!Cell.lessKey [.asc] other key) = true)
      (distinctKeys (countedTable.rows.map (Row.key [recordCount])))
    decide +kernel

/-- By the numbers of their records the countries stay as the store has turned them. -/
theorem turnedRows?_counted {o : AggregateOptions} (operators : o.operators = ["sum"]) :
    Database.turnedRows? [countedTable] (.scan "sales" (countedLayer o)) = some (countedFound o) := by
  have distinct : ((countedLayer o).projections.map (·.name)).Nodup := by
    rw [countedLayer, map_name_groupedLayer, operators]
    decide
  have tied (row other : Row) : (countedLayer o).precedes false [row] [other] = false := by
    have counts := Layer.orderValue_of_selected distinct
      (List.mem_append_left _ (recordProjection_mem o.operators))
    rw [Layer.precedes_single rfl]
    show Cell.comesBefore .asc ((countedLayer o).orderValue false [row] recordProjection.name)
      ((countedLayer o).orderValue false [other] recordProjection.name) = false
    rw [counts, counts, ofGroup_recordProjection, ofGroup_recordProjection]
    exact Cell.not_comesBefore_of_same (Cell.same_refl _)
  have known : Database.table? [countedTable] "sales" = some countedTable := rfl
  unfold Database.turnedRows? Table.turnedGroups countedFound
  dsimp only
  rw [known, Option.map_some, groups_counted, List.mergeSort_of_pairwise]
  split
  · simp [countedTable, tied]
  · simp [countedTable, tied]

/-- A call has the rows that the store finds in this way. -/
theorem exists_perform_counted {call : AggregateCall} {o : AggregateOptions}
    (rows : (turningBrowser counted countedTable).DrillsRows [] call o
      (.ofName .measure (some "amount")) [] (level "country").attributes [⟨recordCount, .asc⟩])
    (plain : call.computed = .ok []) (operators : o.operators = ["sum"]) :
    ∃ u after, perform ((turningBrowser counted countedTable).call call)
        ⟨Slice.full counted, (), []⟩ = (.ok u, after) ∧
      u.rows = (countedFound o).map (numberFields (aggregatedFields (some "amount") o.operators)) := by
  have executes (middle : Session Unit) : ∃ found state log, found = countedFound o ∧
      perform ((turningBrowser counted countedTable).execute (.scan "sales" (countedLayer o))
        call.patience) middle = (.ok found, ⟨middle.slice, state, log⟩) := by
    obtain ⟨state, log, executed⟩ := perform_turning counted
      (exists_statement_scan "sales" (isKnown_of_predicates rows.drills.compiled))
      (turnedRows?_counted operators) call.patience middle
    exact ⟨_, state, log, rfl, executed⟩
  obtain ⟨_, summary, after, rfl, -, performed⟩ :=
    rows.exists_perform_call (sortsOver_turningBrowser rfl) plain executes
      ⟨Slice.full counted, (), []⟩ rfl
  rw [performed, finishRows, ComputedField.extendAll_nil]
  exact ⟨_, after, rfl, rfl⟩

/-- Countries in a column that is called like the number of records are lost between two pages: they are
ordered by the number, which leaves all of them open. -/
theorem exists_row_lost :
    (turningBrowser counted countedTable).SortsOver [countedTable] countedTable ∧
      (∃ query, (turningBrowser counted countedTable).Drilling (Slice.full counted) byCountry
        byCountryOptions (.ofName .measure (some "amount")) query) ∧
      byCountryOptions.WantsAll ∧
      (∀ page, AsksPage byCountry (byCountryPage page) byCountryOptions 1 page) ∧
      (∃ u after, perform ((turningBrowser counted countedTable).call byCountry)
          ⟨Slice.full counted, (), []⟩ = (.ok u, after) ∧
        u.rows = [countedRow "AT" 3, countedRow "DE" 4]) ∧
      (∀ page < 2, ∃ part after,
        perform ((turningBrowser counted countedTable).call (byCountryPage page))
            ⟨Slice.full counted, (), []⟩ = (.ok part, after) ∧
          part.rows = [countedRow "AT" 3]) ∧
      ¬(turningBrowser counted countedTable).RowPagesCover [] byCountry byCountryOptions 1
        [countedRow "AT" 3, countedRow "DE" 4] := by
  have drilling := (⟨rfl, fun _ same => (by cases same), rfl, rfl, rfl, by decide⟩ :
    (turningBrowser counted countedTable).Drilling (Slice.full counted) byCountry byCountryOptions
      (.ofName .measure (some "amount")) _)
  have rows : (turningBrowser counted countedTable).DrillsRows [] byCountry byCountryOptions
      (.ofName .measure (some "amount")) [] (level "country").attributes [⟨recordCount, .asc⟩] :=
    ⟨rfl, rfl, rfl, ⟨rfl, rfl, rfl⟩, rfl, rfl, by decide⟩
  have pages (page : Nat) (early : page < 2) : ∃ part after,
      perform ((turningBrowser counted countedTable).call (byCountryPage page))
          ⟨Slice.full counted, (), []⟩ = (.ok part, after) ∧ part.rows = [countedRow "AT" 3] := by
    obtain ⟨given, rowsToo⟩ := (asksPage_byCountryPage page).exists_drillsRows rows
    obtain rfl | rfl : page = 0 ∨ page = 1 := by omega
    · exact exists_perform_counted rowsToo rfl rfl
    · exact exists_perform_counted rowsToo rfl rfl
  refine ⟨sortsOver_turningBrowser rfl, ⟨_, drilling⟩, wantsAll_byCountryOptions,
    asksPage_byCountryPage, exists_perform_counted rows rfl rfl, pages, ?_⟩
  rintro ⟨seen, covers, each⟩
  have same (page : Nat) (early : page < 2) : seen page = [countedRow "AT" 3] := by
    obtain ⟨part, after, done, found⟩ := pages page early
    obtain ⟨partToo, last, doneToo, -, shown⟩ :=
      each page _ ⟨Slice.full counted, (), []⟩ (asksPage_byCountryPage page) rfl
    rw [← shown, ← found, Except.ok.inj (Prod.mk.inj (done.symm.trans doneToo)).1]
  refine not_coversExactly_of_repeated (fun alike => ?_) (same 0 (by decide)) (same 1 (by decide)) covers
  simp [countedRow] at alike

end Browser

end Olap
