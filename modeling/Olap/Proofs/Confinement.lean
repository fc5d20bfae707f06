/-
What a slice shows of a table. Every query that a reading of a slice compiles to begins with the
conditions of the cuts, so whatever else it asks for, it asks of the facts that the cuts agree on. Two
databases in which these facts are the same can therefore not be told apart by reading the slice: all
readings, one after the other, come to the same results and to the same failures.

There is one exception. The fact of a key is looked up in the whole table, whether the slice has it or
not, so two databases also have to have the same facts of the keys that are looked up.
-/

import Olap.Proofs.Questions
import Olap.Sql.Store

namespace Olap

/-! ### Queries about some facts -/

/-- Of the rows of a table a query uses those that meet some conditions, if any. -/
def Query.IsAbout (name : String) (conditions : List Predicate) : Query → Prop
  | .scan table layer => table = name ∧ ∃ more, layer.predicates = conditions ++ more
  | .derived source layer => source.IsAbout name conditions ∧ layer.predicates = []

/-- Two tables have the same facts that meet conditions, in the same order, and these facts compare
with values in the same way because their columns have the same types. -/
structure Table.SharesFacts (conditions : List Predicate) (table other : Table) : Prop where
  facts : selectRows table.columns conditions table.rows =
    selectRows other.columns conditions other.rows
  types : selectRows table.columns conditions table.rows ≠ [] →
    ∀ column, Record.get? table.columns column = Record.get? other.columns column

theorem Predicate.holds_congr {types others : ColumnTypes}
    (same : ∀ column, Record.get? types column = Record.get? others column) (row : Row)
    (condition : Predicate) : condition.holds types row = condition.holds others row := by
  cases condition with
  | equals column value => cases value <;> simp only [holds, same]
  | between column low high => simp only [holds, same]
  | present column => rfl
  | other column => rfl

namespace Table.SharesFacts

variable {conditions : List Predicate} {table other : Table}

/-- More conditions leave the same of the same facts. -/
theorem selectRows_eq (shared : table.SharesFacts conditions other) (more : List Predicate) :
    selectRows table.columns (conditions ++ more) table.rows =
      selectRows other.columns (conditions ++ more) other.rows := by
  rw [selectRows_append, selectRows_append, ← shared.facts]
  refine List.filter_congr fun fact member => ?_
  have same := shared.types (List.ne_nil_of_mem member)
  exact congrArg more.all (funext fun condition => Predicate.holds_congr same fact condition)

end Table.SharesFacts

theorem Layer.apply_congr {layer : Layer} (derived : Bool) {types others : ColumnTypes}
    {rows rest : List Row}
    (same : selectRows types layer.predicates rows = selectRows others layer.predicates rest) :
    layer.apply derived types rows = layer.apply derived others rest := by
  unfold apply
  rw [same]

/-- Settling orders takes nothing away from the conditions. -/
theorem Query.IsAbout.settled {name : String} {conditions : List Predicate} {q : Query}
    (about : q.IsAbout name conditions) (isHeeded : Bool) :
    (q.settled isHeeded).IsAbout name conditions := by
  have kept (isHeeded : Bool) (layer : Layer) :
      (if isHeeded then layer else layer.withoutOrder).predicates = layer.predicates := by
    split
    · rfl
    · exact Database.predicates_withoutOrder layer
  induction q generalizing isHeeded with
  | scan table layer =>
    obtain ⟨same, more, conditioned⟩ := about
    exact ⟨same, more, (kept isHeeded layer).trans conditioned⟩
  | derived source layer inductionHypothesis =>
    exact ⟨inductionHypothesis about.1 _, (kept isHeeded layer).trans about.2⟩

namespace Database

variable {one two : Database} {name : String} {table other : Table} {conditions : List Predicate}

/-- Where two databases have the same facts, a query about them finds the same rows. -/
theorem evaluate?_congr (known : one.table? name = some table)
    (knownToo : two.table? name = some other) (shared : table.SharesFacts conditions other)
    {q : Query} (about : q.IsAbout name conditions) :
    (one.evaluate? q).map (·.2) = (two.evaluate? q).map (·.2) := by
  induction q with
  | scan _ layer =>
    obtain ⟨rfl, more, conditioned⟩ := about
    rw [evaluate?, evaluate?, known, knownToo]
    refine congrArg some (Layer.apply_congr false ?_)
    rw [conditioned]
    exact shared.selectRows_eq more
  | derived source layer inductionHypothesis =>
    obtain ⟨about, free⟩ := about
    have same := inductionHypothesis about
    rw [evaluate?, evaluate?, Option.map_map, Option.map_map]
    -- The types of the rows of the source may differ, but nothing is compared with these rows.
    have applied (found : ColumnTypes × List Row) :
        layer.apply true found.1 found.2 = layer.apply true [] found.2 :=
      Layer.apply_congr true (by rw [free]; rfl)
    simp only [Function.comp_def, applied]
    have through := congrArg (Option.map (layer.apply true [])) same
    rwa [Option.map_map, Option.map_map] at through

theorem answer?_congr (known : one.table? name = some table)
    (knownToo : two.table? name = some other) (shared : table.SharesFacts conditions other)
    {q : Query} (about : q.IsAbout name conditions) :
    one.answer? q = two.answer? q :=
  evaluate?_congr known knownToo shared (about.settled true)

end Database

/-! ### Stores that go by their tables -/

/-- What a store replies depends on the answer of its database alone, and the tables stay. -/
structure Store.Follows (store : Store Database) : Prop where
  replies : ∀ request one two, Database.answer? one request.query = two.answer? request.query →
    (store.execute request one).1 = (store.execute request two).1
  stays : ∀ request db, (store.execute request db).2 = db

/-- A connection talks to its database. -/
theorem Sql.Connection.store_follows (connection : Sql.Connection) : connection.store.Follows where
  replies request one two same := by
    have answered : Sql.databaseAnswer connection.mode one request.query =
        Sql.databaseAnswer connection.mode two request.query := by
      simp only [Sql.databaseAnswer, same]
    simp only [store, storeOn, Sql.executeRequest, Sql.runStatement, Sql.tableEngine, answered]
    repeat' split
    all_goals simp_all
  stays request db := by
    simp only [store, storeOn, Sql.executeRequest, Sql.runStatement, Sql.tableEngine]
    repeat' split
    all_goals simp_all

/-! ### Queries of readings -/

namespace Compiler

variable {c : Compiler} {cuts : List Cut} {q : Query}

/-- A query uses none but the facts that cuts agree on. -/
def Confines (c : Compiler) (cuts : List Cut) (q : Query) : Prop :=
  ∃ conditions, c.predicates cuts = .ok conditions ∧ q.IsAbout c.table conditions

theorem confines_summary {measure : Description} {o : AggregateOptions}
    (made : c.summary cuts measure o = .ok q) : c.Confines cuts q := by
  obtain ⟨m, conditions, -, compiled, rfl⟩ := summary_ok.1 made
  exact ⟨conditions, compiled, rfl, [], (List.append_nil _).symm⟩

theorem confines_drill {measure : Description} {o : AggregateOptions}
    (made : c.drill cuts measure o = .ok (some q)) : c.Confines cuts q := by
  obtain ⟨-, m, conditions, attributes, order, -, drills, rfl⟩ := drill_ok.1 made
  have grouped : (Query.scan c.table (c.groupedLayer m o attributes conditions order)).IsAbout
      c.table conditions := ⟨rfl, [], (List.append_nil _).symm⟩
  refine ⟨conditions, drills.compiled, ?_⟩
  unfold drilled
  split
  · exact ⟨grouped, rfl⟩
  · exact grouped

theorem confines_facts {o : QueryOptions} (made : c.facts cuts o = .ok q) : c.Confines cuts q := by
  obtain ⟨conditions, order, compiled, -, rfl⟩ := exists_of_facts made
  exact ⟨conditions, compiled, rfl, [], (List.append_nil _).symm⟩

theorem confines_values {dimension hierarchy : Description} {path : Value} {o : QueryOptions}
    (made : c.values dimension path cuts o hierarchy = .ok q) : c.Confines cuts q := by
  obtain ⟨d, h, items, conditions, along, key, order, -, -, compiled, -, -, -, rfl⟩ :=
    exists_of_values made
  exact ⟨conditions, compiled, rfl, _, List.append_assoc _ _ _⟩

theorem confines_detail {dimension hierarchy : Description} {path : Value}
    (made : c.detail dimension path cuts hierarchy = .ok q) : c.Confines cuts q := by
  obtain ⟨d, h, items, conditions, along, -, -, compiled, -, rfl⟩ := exists_of_detail made
  exact ⟨conditions, compiled, rfl, along, rfl⟩

end Compiler

/-! ### Actions over two databases -/

namespace Action

variable {α β : Type} {cuts : List Cut} {one two : Database}

/-- An action comes to the same over two databases, in sessions of a slice of certain cuts: to the
same outcome, slice and log. It leaves the databases and the cuts as they are. -/
def SameOver (cuts : List Cut) (one two : Database) (action : Action Database β) : Prop :=
  ∀ slice log, slice.cuts = cuts → ∃ outcome after lines, after.cuts = cuts ∧
    perform action ⟨slice, one, log⟩ = (outcome, ⟨after, one, lines⟩) ∧
    perform action ⟨slice, two, log⟩ = (outcome, ⟨after, two, lines⟩)

theorem sameOver_pure (b : β) : SameOver cuts one two (pure b) :=
  fun slice log same => ⟨.ok b, slice, log, same, rfl, rfl⟩

theorem sameOver_throw (fault : Fault) : SameOver cuts one two (throw fault : Action Database β) :=
  fun slice log same => ⟨.error fault, slice, log, same, rfl, rfl⟩

theorem sameOver_require (result : Result β) :
    SameOver cuts one two (Browser.require result : Action Database β) := fun slice log same =>
  ⟨result, slice, log, same, Browser.perform_require _ _, Browser.perform_require _ _⟩

theorem sameOver_bind {first : Action Database α} {next : α → Action Database β}
    (left : SameOver cuts one two first) (right : ∀ a, SameOver cuts one two (next a)) :
    SameOver cuts one two (first >>= next) := by
  intro slice log same
  obtain ⟨outcome, middle, lines, sameToo, here, there⟩ := left slice log same
  rw [perform_bind, perform_bind, here, there]
  cases outcome with
  | error fault => exact ⟨.error fault, middle, lines, sameToo, rfl, rfl⟩
  | ok a => exact right a middle lines sameToo

/-- What goes on with the outcome of a requirement may rely on the requirement. -/
theorem sameOver_require_bind {result : Result α} {next : α → Action Database β}
    (right : ∀ a, result = .ok a → SameOver cuts one two (next a)) :
    SameOver cuts one two (Browser.require result >>= next) := by
  cases result with
  | error fault => exact sameOver_throw fault
  | ok a => exact right a rfl

/-- What goes on with the session has to be the same for both sessions. -/
theorem sameOver_get_bind {next : Session Database → Action Database β}
    (right : ∀ slice log, slice.cuts = cuts → ∃ action, SameOver cuts one two action ∧
      next ⟨slice, one, log⟩ = action ∧ next ⟨slice, two, log⟩ = action) :
    SameOver cuts one two (get >>= next) := by
  intro slice log same
  obtain ⟨action, comes, here, there⟩ := right slice log same
  rw [perform_bind, perform_bind]
  simp only [perform_get, here, there]
  exact comes slice log same

/-- Keeping a summary leaves the cuts as they are. -/
theorem sameOver_keep (change : Summaries → Summaries) :
    SameOver cuts one two (modify fun session => { session with
      slice := { session.slice with summaries := change session.slice.summaries } }) :=
  fun slice log same =>
    ⟨.ok ⟨⟩, { slice with summaries := change slice.summaries }, log, same, rfl, rfl⟩

end Action

/-! ### Readings -/

namespace Browser

open Olap.Action

/-- A question about a slice, with everything that can be asked for along with it. -/
inductive Reading
  | aggregate (call : AggregateCall)
  | facts (options : Description) (overrides : Fields Part) (patience : Patience)
  | fact (key : Value) (patience : Patience)
  | values (dimension : Description) (path : Value) (options : Description)
      (overrides : Fields Part) (hierarchy : Description) (patience : Patience)
  | detail (dimension : Description) (path : Value) (hierarchy : Description)
      (patience : Patience)

/-- What a reading comes to. -/
inductive Answer
  | aggregation (result : Aggregation)
  | facts (list : Facts)
  | members (rows : List Row)
  | row (fields : Row)

variable {σ : Type}

/-- Reads the slice in use. -/
def read (b : Browser σ) : Reading → Action σ Answer
  | .aggregate call => do return .aggregation (← b.call call)
  | .facts options overrides patience => do return .facts (← b.facts options overrides patience)
  | .fact key patience => do return .row (← b.fact key patience)
  | .values dimension path options overrides hierarchy patience => do
    return .members (← b.values dimension path options overrides hierarchy patience)
  | .detail dimension path hierarchy patience => do
    return .row (← b.detail dimension path hierarchy patience)

/-- What readings come to, one after the other. -/
def readAll (b : Browser σ) : List Reading → Session σ → List (Result Answer)
  | [], _ => []
  | reading :: rest, session =>
    let (outcome, after) := (b.read reading).perform session
    outcome :: b.readAll rest after

variable {b : Browser Database} {cuts : List Cut} {one two : Database} {table other : Table}

/-- A browser over databases with tables of facts of which some are the same: those that cuts agree
on. The store, if there is one, goes by the tables. -/
structure OverTwo (b : Browser Database) (cuts : List Cut) (one two : Database)
    (table other : Table) : Prop where
  follows : ∀ store, b.store = some store → store.Follows
  known : one.table? b.compiler.table = some table
  knownToo : two.table? b.compiler.table = some other
  shared : ∀ conditions, b.compiler.predicates cuts = .ok conditions →
    table.SharesFacts conditions other

/-- Announcing a query has nothing to do with the tables. -/
theorem sameOver_announce (q : Query) : SameOver cuts one two (b.announce q) := by
  unfold announce
  split
  · exact sameOver_require_bind fun text _ slice log same =>
      ⟨.ok ⟨⟩, slice, _, same, rfl, rfl⟩
  · exact sameOver_pure _

/-- A store that goes by its tables gives the same reply where the answer is the same. -/
theorem sameOver_ask {store : Store Database} (follows : store.Follows) {request : Request}
    (same : one.answer? request.query = two.answer? request.query) :
    SameOver cuts one two (ask store request) := by
  intro slice log sameCuts
  refine ⟨(store.execute request one).1.outcome.mapError (storeFault request.query), slice,
    log ++ (store.execute request one).1.log, sameCuts, ?_, ?_⟩
  · rw [perform_ask, follows.stays]
  · rw [perform_ask, follows.stays, follows.replies request one two same]

theorem sameOver_execute (follows : ∀ store, b.store = some store → store.Follows) {q : Query}
    (same : one.answer? q = two.answer? q) (patience : Patience) :
    SameOver cuts one two (b.execute q patience) := by
  unfold execute
  split
  · exact sameOver_throw _
  · rename_i store present
    exact sameOver_bind (sameOver_announce q) fun _ => sameOver_ask (follows store present) same

namespace OverTwo

/-- A query about the facts that cuts agree on finds the same in both tables. -/
theorem execute (both : b.OverTwo cuts one two table other) {q : Query}
    (confined : b.compiler.Confines cuts q) (patience : Patience) :
    SameOver cuts one two (b.execute q patience) := by
  obtain ⟨conditions, compiled, about⟩ := confined
  have same := Database.answer?_congr both.known both.knownToo (both.shared conditions compiled) about
  exact sameOver_execute both.follows same patience

theorem summary (both : b.OverTwo cuts one two table other) (measure : Option String)
    (o : AggregateOptions) (patience : Patience) :
    SameOver cuts one two (b.summary measure o patience) := by
  unfold Browser.summary
  refine sameOver_get_bind fun slice log same => ⟨_, ?_, rfl, rfl⟩
  refine sameOver_require_bind fun key _ => ?_
  split
  · exact sameOver_pure _
  · refine sameOver_require_bind fun query made => ?_
    have executed := both.execute (same ▸ Compiler.confines_summary made) patience
    refine sameOver_bind executed fun rows => ?_
    exact sameOver_bind (sameOver_keep fun all => all.put key _) fun _ => sameOver_pure _

theorem drillDown (both : b.OverTwo cuts one two table other) (measure : Option String)
    (o : AggregateOptions) (computed : List ComputedField) (summary : Row) (patience : Patience) :
    SameOver cuts one two (b.drillDown measure o computed summary patience) := by
  unfold Browser.drillDown
  refine sameOver_get_bind fun slice log same => ⟨_, ?_, rfl, rfl⟩
  refine sameOver_require_bind fun drilled made => ?_
  split
  · exact sameOver_pure _
  · exact sameOver_bind (both.execute (same ▸ Compiler.confines_drill made) patience) fun found =>
      sameOver_require _

theorem aggregate (both : b.OverTwo cuts one two table other) (call : AggregateCall) :
    SameOver cuts one two (b.call call) :=
  sameOver_require_bind fun o _ => sameOver_require_bind fun m _ =>
    sameOver_require_bind fun computed _ =>
      sameOver_bind (both.summary m.name o call.patience) fun summary =>
        both.drillDown m.name o computed summary call.patience

theorem facts (both : b.OverTwo cuts one two table other) (options : Description)
    (overrides : Fields Part) (patience : Patience) :
    SameOver cuts one two (b.facts options overrides patience) := by
  refine sameOver_require_bind fun o _ => ?_
  refine sameOver_get_bind fun slice log same => ⟨_, ?_, rfl, rfl⟩
  refine sameOver_require_bind fun query made => ?_
  exact sameOver_bind (both.execute (same ▸ Compiler.confines_facts made) patience) fun rows =>
    sameOver_pure _

/-- The fact of a key is the same when both tables have the same facts of the key. -/
theorem fact (both : b.OverTwo cuts one two table other) {key : Value}
    (shared : table.SharesFacts [.equals b.cube.keyField key] other) (patience : Patience) :
    SameOver cuts one two (b.fact key patience) := by
  have about : (b.compiler.fact key).IsAbout b.compiler.table [.equals b.cube.keyField key] :=
    ⟨rfl, [], rfl⟩
  have same := Database.answer?_congr both.known both.knownToo shared about
  refine sameOver_bind (sameOver_execute both.follows same patience) fun rows => ?_
  split
  · exact sameOver_pure _
  · exact sameOver_throw _

theorem values (both : b.OverTwo cuts one two table other) (dimension : Description) (path : Value)
    (options : Description) (overrides : Fields Part) (hierarchy : Description)
    (patience : Patience) :
    SameOver cuts one two (b.values dimension path options overrides hierarchy patience) := by
  refine sameOver_require_bind fun o _ => ?_
  refine sameOver_get_bind fun slice log same => ⟨_, ?_, rfl, rfl⟩
  refine sameOver_require_bind fun query made => ?_
  exact both.execute (same ▸ Compiler.confines_values made) patience

theorem detail (both : b.OverTwo cuts one two table other) (dimension : Description) (path : Value)
    (hierarchy : Description) (patience : Patience) :
    SameOver cuts one two (b.detail dimension path hierarchy patience) := by
  refine sameOver_get_bind fun slice log same => ⟨_, ?_, rfl, rfl⟩
  refine sameOver_require_bind fun query made => ?_
  have executed := both.execute (same ▸ Compiler.confines_detail made) patience
  refine sameOver_bind executed fun rows => ?_
  split
  · exact sameOver_pure _
  · split
    · exact sameOver_throw _
    · exact sameOver_require_bind fun items _ => sameOver_throw _

/-- A reading comes to the same over both tables. -/
theorem read (both : b.OverTwo cuts one two table other) (reading : Reading)
    (looked : ∀ key patience, reading = .fact key patience →
      table.SharesFacts [.equals b.cube.keyField key] other) :
    SameOver cuts one two (b.read reading) := by
  have finish {β : Type} {action : Action Database β} (answer : β → Answer)
      (same : SameOver cuts one two action) :
      SameOver cuts one two (do return answer (← action)) :=
    sameOver_bind same fun _ => sameOver_pure _
  cases reading with
  | aggregate call => exact finish _ (both.aggregate call)
  | facts options overrides patience => exact finish _ (both.facts options overrides patience)
  | fact key patience => exact finish _ (both.fact (looked key patience rfl) patience)
  | values dimension path options overrides hierarchy patience =>
    exact finish _ (both.values dimension path options overrides hierarchy patience)
  | detail dimension path hierarchy patience =>
    exact finish _ (both.detail dimension path hierarchy patience)

end OverTwo

/-- A slice shows nothing but the facts that its cuts agree on. Over two databases in which these
facts are the same, all readings come to the same results and failures, one after the other. Only of
the keys whose facts are looked up both tables must have the same facts, in the slice or not. -/
theorem readAll_eq (both : b.OverTwo cuts one two table other) {readings : List Reading}
    (looked : ∀ key patience, Reading.fact key patience ∈ readings →
      table.SharesFacts [.equals b.cube.keyField key] other)
    {slice : Slice} (same : slice.cuts = cuts) (log : List LogLine) :
    b.readAll readings ⟨slice, one, log⟩ = b.readAll readings ⟨slice, two, log⟩ := by
  induction readings generalizing slice log with
  | nil => rfl
  | cons reading rest inductionHypothesis =>
    obtain ⟨outcome, after, lines, sameToo, here, there⟩ := both.read reading
      (fun key patience asked => looked key patience (asked ▸ List.mem_cons_self)) slice log same
    rw [readAll, readAll, here, there]
    exact congrArg _ (inductionHypothesis
      (fun key patience later => looked key patience (List.mem_cons_of_mem _ later)) sameToo lines)

end Browser

/-! ### Sales at home and abroad -/

namespace Market

/-- A sale in the country. -/
def homeTable : Table :=
  { name := "sales"
    columns := [("id", .text), ("place.country", .text), ("place.city", .text),
      ("amount", .integer)]
    rows := [[("id", .text "home"), ("place.country", .text "AT"), ("place.city", .text "Linz"),
      ("amount", .int 3)]] }

/-- One more sale, in another country. -/
def worldTable : Table :=
  { homeTable with
    rows := [("id", .text "away"), ("place.country", .text "DE"), ("place.city", .text "Ulm"),
      ("amount", .int 4)] :: homeTable.rows }

/-- A store that answers from its tables. -/
def tables : Store Database where
  execute request db :=
    (⟨(db.answer? request.query).elim (.error (.outside .wrongType)) .ok, []⟩, db)

theorem tables_follows : tables.Follows where
  replies request one two same := by
    show Reply.mk ((one.answer? request.query).elim _ .ok) [] = _
    rw [same]
    rfl
  stays _ _ := rfl

def connected : Browser Database := ⟨sales, some tables, .unset⟩

theorem connected_overTwo :
    connected.OverTwo inAustria.cuts [worldTable] [homeTable] worldTable homeTable where
  follows store given := by
    cases given
    exact tables_follows
  known := rfl
  knownToo := rfl
  shared conditions compiled := by
    cases compiled
    exact ⟨rfl, fun _ _ => rfl⟩

end Market

namespace Browser

open Olap.Action Market

/-- The sales of the country, its cities and the sale with a key are the same with the sale in the
other country and without it. -/
theorem readAll_eq_inAustria :
    connected.readAll
        [.aggregate byCity, .facts .null [] ⟨.null, none⟩, .fact (.text "home") ⟨.null, none⟩,
          .values (.text "place") (.list [.text "AT"]) .null [] .null ⟨.null, none⟩,
          .detail (.text "place") (.list [.text "AT", .text "Linz"]) .null ⟨.null, none⟩]
        ⟨inAustria, [worldTable], []⟩ =
      connected.readAll
        [.aggregate byCity, .facts .null [] ⟨.null, none⟩, .fact (.text "home") ⟨.null, none⟩,
          .values (.text "place") (.list [.text "AT"]) .null [] .null ⟨.null, none⟩,
          .detail (.text "place") (.list [.text "AT", .text "Linz"]) .null ⟨.null, none⟩]
        ⟨inAustria, [homeTable], []⟩ := by
  refine readAll_eq connected_overTwo (fun key patience asked => ?_) rfl []
  obtain ⟨rfl, -⟩ : key = .text "home" ∧ patience = ⟨.null, none⟩ := by simpa using asked
  exact ⟨by cbv, fun _ _ => rfl⟩

/-- The sale in the other country is not in the slice of the country, but the slice gives it when
asked for its key. -/
theorem exists_fact_outside_cuts :
    connected.OverTwo inAustria.cuts [worldTable] [homeTable] worldTable homeTable ∧
      (perform (connected.fact (.text "away") ⟨.null, none⟩) ⟨inAustria, [worldTable], []⟩).1 =
        .ok [("id", .text "away"), ("place.country", .text "DE"), ("place.city", .text "Ulm"),
          ("amount", .int 4)] ∧
      (perform (connected.fact (.text "away") ⟨.null, none⟩) ⟨inAustria, [homeTable], []⟩).1 =
        fail (.noFact "sales" "'away'" "away") := by
  refine ⟨connected_overTwo, ?_, ?_⟩
  · cbv
  · cbv

end Browser

end Olap
