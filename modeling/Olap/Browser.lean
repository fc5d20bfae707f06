/-
Browsing. A browser answers questions about the slices of one cube: it compiles a question into
queries, has them executed by a store, and puts the answers together. What is asked happens in a
session, in which a slice is used; whatever fails, the session goes on with the summaries that were
computed and with the store in the state it was left in.
-/

import Olap.Aggregation
import Olap.Formula
import Olap.Slice
import Olap.Sql.Text
import Olap.Store.Basic

namespace Olap

/-- What a session has come to: the slice in use, the state of the store, and the log. -/
structure Session (σ : Type) where
  slice : Slice
  store : σ
  log : List LogLine

/-- Something done in a session. Whether it fails or not, the session goes on. -/
abbrev Action (σ β : Type) := ExceptT Fault (StateM (Session σ)) β

/-- Options of a browser. -/
structure BrowserOptions where
  /-- The table or view of the facts, in place of the cube's own. -/
  viewName : Value
  /-- Statements are logged as information. -/
  debug : Bool
  /-- How long to wait for a statement unless something else is said. -/
  timeout : Value
deriving Inhabited

namespace BrowserOptions

def unset : BrowserOptions := ⟨.null, false, .null⟩

def ofRecord (fields : Row) : BrowserOptions :=
  { viewName := (Record.get? fields "view_name").getD .null
    debug := ((Record.get? fields "debug").getD .null).isTruthy
    timeout := (Record.get? fields "timeout").getD .null }

end BrowserOptions

/-- How long a caller waits, and whether it has called off its request. -/
structure Patience where
  timeout : Value
  cancel : Option Bool

/-- A list of facts, with the names of their fields. -/
structure Facts where
  attributes : List String
  rows : List Row

/-- A browser of a cube, over a store if there is one. -/
structure Browser (σ : Type) where
  cube : Cube
  store : Option (Store σ)
  options : BrowserOptions

namespace Browser

variable {σ : Type}

def compiler (b : Browser σ) : Compiler := Compiler.of b.cube b.options.viewName.text?

/-- Writes lines to the log. -/
def note (lines : List LogLine) : Action σ Unit :=
  modify fun session => { session with log := session.log ++ lines }

/-- Part of a session that may fail and changes nothing. -/
def require {β : Type} (result : Result β) : Action σ β :=
  match result with
  | .ok b => pure b
  | .error fault => throw fault

/-- The statement of a query in messages, with places for its values. -/
def statement (q : Query) : Result String := Sql.text .generic .bound q

/-- A failure that is reported with the statement of a query, as far as there is a statement. -/
def executionFault (q : Query) (reason : Reason) : Fault :=
  match statement q with
  | .ok text => .problem (.statementFailed q.title reason text)
  | .error other => other

/-- What a failure of the store is to the caller. The library's own problems stay what they are,
all others are reported with the statement. -/
def storeFault (q : Query) (fault : Fault) : Fault :=
  match fault with
  | .problem p => .problem p
  | .invalid details => executionFault q (.invalid details)
  | .outside failure => executionFault q (.outside failure)

/-- Logs a statement when statements are to be logged. -/
def announce (b : Browser σ) (q : Query) : Action σ Unit :=
  if b.options.debug then do
    let text ← require (statement q)
    note [⟨.info, "SQL(" ++ q.label ++ "): " ++ text⟩]
  else pure ()

/-- Has a store execute a request. -/
def ask (store : Store σ) (request : Request) : Action σ (List Row) := do
  let session ← get
  let (reply, after) := store.execute request session.store
  set { session with store := after, log := session.log ++ reply.log }
  match reply.outcome with
  | .ok rows => return rows
  | .error fault => throw (storeFault request.query fault)

/-- Executes a query, once. -/
def execute (b : Browser σ) (q : Query) (patience : Patience) : Action σ (List Row) :=
  match b.store with
  | none => throw (.problem (.noStore b.cube.name))
  | some store => do
    b.announce q
    let timeout := if patience.timeout.isNull then b.options.timeout else patience.timeout
    ask store ⟨q, timeout, patience.cancel⟩

/-! ### Aggregations -/

/-- The name of the field of an operator. -/
def fieldOf (measure : Option String) (operator : String) : String :=
  aggregatedName (shownName measure) operator

/-- The fields of an aggregation. -/
def aggregatedFields (measure : Option String) (operators : List String) : List String :=
  operators.map (fieldOf measure) ++ [recordCount]

/-- The number in a field of a row; it may have been written as a text. -/
def numberIn (row : Row) (field : String) : Value :=
  ((Record.get? row field).getD .null).numbered

/-- The summary that a row of aggregates is. -/
def summaryOf (row : Row) (measure : Option String) (operators : List String) : Row :=
  Record.ofPairs
    ((operators.map fun operator => (operator, numberIn row (fieldOf measure operator))) ++
      [(recordCount, numberIn row recordCount)])

/-- A row in which the aggregated fields that it has are numbers. -/
def numberFields (fields : List String) (row : Row) : Row :=
  row.map fun (key, value) => (key, if fields.contains key then value.numbered else value)

/-- What counts as false counts as zero. -/
def orZero (value : Value) : Value := if value.isTruthy then value else .int 0

/-- The sum of a field over rows. -/
def totalOf (field : String) (rows : List Row) : Result Value :=
  rows.foldlM (fun total row =>
    Number.calculate Number.add total (orZero ((Record.get? row field).getD .null))) (.int 0)

/-- What rows leave out of one value of a summary. -/
def leftOut (summary : Row) (key field : String) (rows : List Row) : Result Value := do
  let total ← totalOf field rows
  Datum.minus (orZero ((Record.get? summary key).getD .null)) total

/-- What rows leave out of a summary: of the sum if there is one, and of the number of records. -/
def remainderOf (summary : Row) (rows : List Row) (measure : Option String)
    (operators : List String) : Result Row := do
  let sums ←
    if operators.contains "sum" then do
      let sum ← leftOut summary "sum" (fieldOf measure "sum") rows
      pure [("sum", sum)]
    else pure []
  let records ← leftOut summary recordCount recordCount rows
  return sums ++ [(recordCount, records)]

/-- The summary of the slice in use: one that has been computed before, or else a new one. -/
def summary (b : Browser σ) (measure : Option String) (o : AggregateOptions)
    (patience : Patience) : Action σ Row := do
  let slice := (← get).slice
  let key ← require (slice.summaryKey measure o.operators)
  match slice.summaries.find? key with
  | some found => return found
  | none =>
    let query ← require (b.compiler.summary slice.cuts (.ofOption measure) o)
    let rows ← b.execute query patience
    let computed := summaryOf (rows.headD []) measure o.operators
    modify fun session =>
      { session with
        slice := { session.slice with summaries := session.slice.summaries.put key computed } }
    return computed

/-- The rows of a result, with numbers for aggregates and with the computed fields. -/
def finishRows (measure : Option String) (o : AggregateOptions) (computed : List ComputedField)
    (rows : List Row) : Result (List Row) :=
  ComputedField.extendAll computed
    (rows.map (numberFields (aggregatedFields measure o.operators)))

/-- A result with the rows that were found, and with the remainder if there is a limit. -/
def withRows (bare : Aggregation) (computed : List ComputedField) (found : List Row) :
    Result Aggregation := do
  let rows ← finishRows bare.measure bare.options computed found
  if bare.options.hasLimit then
    let remainder ← remainderOf bare.summary rows bare.measure bare.options.operators
    return { bare with rows, remainder }
  else return { bare with rows }

/-- Completes an aggregation whose summary is known: drills down, if that is asked for. -/
def drillDown (b : Browser σ) (measure : Option String) (o : AggregateOptions)
    (computed : List ComputedField) (summary : Row) (patience : Patience) :
    Action σ Aggregation := do
  let cuts := (← get).slice.cuts
  let bare : Aggregation :=
    { cube := some b.cube, measure, summary, options := o, cuts, rows := [], remainder := [] }
  match ← require (b.compiler.drill cuts (.ofOption measure) o) with
  | none => return bare
  | some query =>
    let found ← b.execute query patience
    require (withRows bare computed found)

/-- Aggregates a measure in the slice in use. -/
def aggregate (b : Browser σ) (measure options : Description) (overrides : Fields Part)
    (computed : Result (List ComputedField)) (patience : Patience) : Action σ Aggregation := do
  let o ← require (AggregateOptions.accept options overrides)
  let measure := (← require (b.cube.measure measure)).name
  let computed ← require computed
  let summary ← b.summary measure o patience
  b.drillDown measure o computed summary patience

/-! ### Facts and members -/

/-- The facts of the slice in use. -/
def facts (b : Browser σ) (options : Description) (overrides : Fields Part)
    (patience : Patience) : Action σ Facts := do
  let o ← require (QueryOptions.accept options overrides)
  let query ← require (b.compiler.facts (← get).slice.cuts o.base)
  let rows ← b.execute query patience
  return ⟨query.aliases, rows⟩

/-- The fact of a key, in the slice or not. -/
def fact (b : Browser σ) (key : Value) (patience : Patience) : Action σ Row := do
  let rows ← b.execute (b.compiler.fact key) patience
  match rows with
  | row :: _ => return row
  | [] => throw (.problem (.noFact b.cube.name key.quoted key.shown))

/-- The members of a dimension right below a path, as far as the slice in use has facts about
them. -/
def values (b : Browser σ) (dimension : Description) (path : Value) (options : Description)
    (overrides : Fields Part) (hierarchy : Description) (patience : Patience) :
    Action σ (List Row) := do
  let o ← require (QueryOptions.accept options overrides)
  let query ← require
    (b.compiler.values dimension path (← get).slice.cuts o.base hierarchy)
  b.execute query patience

/-- What is known about the member of a dimension at a path. That there is none can only be told of
a path that was given. -/
def detail (b : Browser σ) (dimension : Description) (path : Value) (hierarchy : Description)
    (patience : Patience) : Action σ Row := do
  let query ← require (b.compiler.detail dimension path (← get).slice.cuts hierarchy)
  let rows ← b.execute query patience
  match rows with
  | row :: _ => return row
  | [] =>
    if path.isNull then throw (.outside .wrongType)
    let items ← require path.pathItems
    throw (.problem (.noMember items dimension.dimensionName.shown))

end Browser

end Olap
