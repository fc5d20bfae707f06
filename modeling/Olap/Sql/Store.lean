/-
The store that speaks SQL. It writes a query as a statement, logs it, and has it executed by a
database; the one at hand is a database of finite tables. What it is asked for can go wrong in three
ways: a query may have no statement, which is the failure of the writing itself; the caller may have
lost interest; and the database may refuse the statement, which is reported together with the
statement.
-/

import Olap.Coerce
import Olap.Sql.Fetch
import Olap.Sql.Text
import Olap.Store.Basic
import Olap.Table

namespace Olap.Sql

/-! ### Connections -/

/-- A database that statements are sent to, and how. -/
structure Connection where
  address : String
  mode : Mode
  /-- Rows that are fetched at a time. -/
  fetchSize : Nat
  fetchSize_pos : 0 < fetchSize

/-- Rows that are fetched at a time unless something else is asked for. -/
def defaultFetchSize : Nat := 1000

/-- The address of a database that is kept in memory. -/
def memoryAddress : String := "sqlite://"

/-- Databases that are known but can not be talked to. -/
def foreignDialects : List String := ["postgresql", "mysql", "mariadb", "oracle", "mssql"]

/-- Splits an address at the first colon that two slashes follow. -/
def splitAddress : List Char → Option (List Char × List Char)
  | ':' :: '/' :: '/' :: rest => some ([], rest)
  | c :: rest => (splitAddress rest).map fun (scheme, location) => (c :: scheme, location)
  | [] => none

/-- Characters of the word before the colon. -/
def isSchemeChar (c : Char) : Bool := c.isAlphanum || c == '_' || c == '+'

/-- A database in a file is found by a path after a third slash; there is no host to name. -/
def checkLocation (location : List Char) : Result Unit :=
  match location with
  | [] | '/' :: _ | '?' :: _ => .ok ()
  | _ => .error (.outside .sqlAddress)

/-- Whether an address is one of a database that can be talked to. -/
def checkAddress (address : String) : Result Unit :=
  match splitAddress address.toList with
  | none => .error (.outside .sqlAddress)
  | some (scheme, location) =>
    let word := String.ofList scheme
    if scheme.isEmpty || !scheme.all isSchemeChar then .error (.outside .sqlAddress)
    else if word == "sqlite" || word == "sqlite+pysqlite" then checkLocation location
    else if foreignDialects.contains word then .error (.outside .missingDriver)
    else .error (.outside .sqlUnknownDialect)

/-- Whether the tables of a database are lost when the connection is closed: they are kept in memory
when no file is named. -/
def isTransient (address : String) : Bool :=
  match splitAddress address.toList with
  | none => true
  | some (_, location) =>
    ["", "/", "/:memory:"].contains (String.ofList (location.takeWhile (· != '?')))

/-- The integer that a datum gives when fractions are dropped. -/
def wholeNumber (value : Value) : Result Int :=
  match value with
  | .int i => .ok i
  | .bool b => .ok (if b then 1 else 0)
  | .float x =>
    match Decimal.units? x with
    | some units => .ok (units.tdiv Decimal.unitsPerOne)
    | none => .error (.outside (if x.isNaN then .badValue else .overflow))
  | value =>
    match value.text? with
    | none => .error (.outside .wrongType)
    | some s =>
      match Decimal.readInteger? s with
      | some i => .ok i
      | none => .error (.outside .badValue)

/-- How a connection is asked for. -/
structure ConnectionOptions where
  renderLiterals : Value
  fetchSize : Value

namespace ConnectionOptions

def usual : ConnectionOptions := ⟨.bool false, .int defaultFetchSize⟩

def ofRecord (fields : Row) : ConnectionOptions :=
  { renderLiterals := (Record.get? fields "render_literals").getD usual.renderLiterals
    fetchSize := (Record.get? fields "fetch_size").getD usual.fetchSize }

end ConnectionOptions

namespace Connection

/-- A connection with a positive number of rows to fetch at a time. -/
def make (address : String) (options : ConnectionOptions) : Result Connection :=
  if options.fetchSize.isNull then fail .fetchSize
  else
    match wholeNumber options.fetchSize with
    | .error fault => .error fault
    | .ok size =>
      if positive : 0 < size then
        .ok
          { address, mode := if options.renderLiterals.isTruthy then .literal else .bound
            fetchSize := size.toNat, fetchSize_pos := Coerce.toNat_pos positive }
      else fail .fetchSize

/-- A connection to a database in memory. -/
def inMemory (options : ConnectionOptions) : Result Connection := make memoryAddress options

/-- A connection to the database at an address. -/
def toAddress (address : Value) (options : ConnectionOptions) : Result Connection :=
  if !address.isTruthy then fail .noEngine
  else
    match address.text? with
    | none => .error (.outside .sqlAddress)
    | some text => do
      checkAddress text
      make text options

def quoted (c : Connection) : String := "<SQLStore " ++ c.address ++ ">"

/-- The statement of a query as it is sent to the database. -/
def statement (c : Connection) (q : Query) : Result String := text .sqlite c.mode q

end Connection

/-! ### What the database refuses -/

/-- The counts in the clauses that cut out a part of the rows. -/
def counts : Query → List Int
  | .scan _ layer => layer.limit.toList ++ layer.offset.toList
  | .derived source layer => counts source ++ layer.limit.toList ++ layer.offset.toList

/-- The failure of sending a value beside the statement, if it can not be sent. -/
def bindingFailure? : Value → Option Outside
  | .list _ | .record _ | .wildcard => some .sqlProgramming
  | .int i => if Numeral.isWord i then none else some .overflow
  | _ => none

/-- The values that stand in a statement. -/
def slotValues : List Piece → List Value
  | [] => []
  | .slot _ value :: rest => value :: slotValues rest
  | _ :: rest => slotValues rest

/-- A value that travels beside a statement with literals is one that nobody sends. -/
def hasFixed (pieces : List Piece) : Bool :=
  pieces.any fun piece => match piece with
    | .fixed _ => true
    | _ => false

/-- Doubles without a numeral are taken for the names of columns, which are not there. -/
def isUnreadable : Value → Bool
  | .float x => x.isNaN || x.isInf
  | _ => false

/-- Why the database fails on a statement for which it has the tables. -/
def statementFailure? (mode : Mode) (q : Query) (pieces : List Piece) : Option Outside :=
  match mode with
  | .bound => (boundText .sqlite [] pieces).2.findSome? fun parameter => bindingFailure? parameter.2
  | .literal =>
    if (slotValues pieces).any isUnreadable then some .sqlOperational
    else if hasFixed pieces then some .sqlProgramming
    else if (counts q).any (!Numeral.isWord ·) then some .sqlMismatch
    else none

/-- A failure of the database: those in words of SQL are reported with the statement, all others
stay what they are. -/
def databaseFault (q : Query) (statement : String) (failure : Outside) : Fault :=
  if failure.isOfSql then .problem (.statementFailed q.title (.outside failure) statement)
  else .outside failure

/-- A row as it reaches the caller, keyed by name. Columns that share a name can not be told apart,
unless nothing is known of the statement but its text: then the last one is taken. -/
def keyed (mode : Mode) (row : Row) : Except Outside Row :=
  match mode with
  | .literal => .ok (Record.ofPairs row)
  | .bound =>
    if isAmbiguous (Record.keys row) then .error .sqlAmbiguous else .ok row

/-- The answer of the database to a statement. -/
def databaseAnswer (mode : Mode) (db : Database) (q : Query) : Except Outside (List Row) :=
  match db.answer? q with
  | none => .error .sqlOperational
  | some rows =>
    match queryPieces .sqlite false q with
    | .error _ => .error .sqlOperational
    | .ok pieces =>
      match statementFailure? mode q pieces with
      | some failure => .error failure
      | none => .ok rows

/-! ### Engines -/

/-- What executes statements: a database, which a statement may change whether it succeeds or not,
and its driver. Along with a statement there is the query that it was written from. -/
structure Engine (σ : Type) where
  driver : Driver
  run : Mode → Query → String → σ → Except Outside (List Row) × σ

/-- The largest number of rows that the driver can be asked for. -/
def mostRows : Nat := 2147483647

/-- The database of finite tables. Queries do not change them. -/
def tableEngine : Engine Database where
  driver := .prompt (some mostRows)
  run mode q _ db := (databaseAnswer mode db q, db)

/-! ### Requests -/

def Interruption.problem (statement : String) : Interruption → Problem
  | cancelled => .wasCancelled statement
  | expired => .expired statement

def Stop.fault (q : Query) (statement : String) : Stop → Fault
  | interrupted interruption => .problem (interruption.problem statement)
  | failed failure => databaseFault q statement failure

/-- Whether a request has waited too long from the start; time to wait never runs out later. -/
def isExpired (timeout : Value) : Result Bool :=
  match timeout with
  | .null => .ok false
  | timeout =>
    match Number.of? timeout with
    | none => .error (.outside .wrongType)
    | some n =>
      match n.toFloat with
      | .ok seconds => .ok ((Number.float seconds).atMost (.int 0))
      | .error failure => .error (.outside failure.outside)

/-- The schedule of a caller that does not change its mind. -/
def scheduleOf (request : Request) : Result Schedule :=
  (isExpired request.timeout).map fun isLate _ => ⟨request.cancel == some true, isLate⟩

variable {σ : Type}

/-- Has a statement executed and fetches the answer, unless the caller does not go on. -/
def runStatement (c : Connection) (engine : Engine σ) (schedule : Schedule) (q : Query)
    (statement : String) (state : σ) : Except Stop (List Row) × σ :=
  match (schedule 0).interruption? with
  | some interruption => (.error (.interrupted interruption), state)
  | none =>
    match engine.run c.mode q statement state with
    | (.error failure, after) => (.error (.failed failure), after)
    | (.ok rows, after) =>
      (fetch engine.driver c.fetchSize c.fetchSize_pos schedule (keyed c.mode) 1 rows, after)

/-- Writes a query and has the statement executed, as long as the schedule of the caller lets it. -/
def executeRequest (c : Connection) (engine : Engine σ) (schedule : Result Schedule) (q : Query)
    (state : σ) : Reply × σ :=
  match c.statement q with
  | .error fault => (⟨.error fault, []⟩, state)
  | .ok statement =>
    let log := [⟨.debug, "SQL(" ++ q.title ++ "): " ++ statement⟩]
    match schedule with
    | .error fault => (⟨.error fault, log⟩, state)
    | .ok schedule =>
      let (outcome, after) := runStatement c engine schedule q statement state
      (⟨outcome.mapError (·.fault q statement), log⟩, after)

/-- The store of a connection to an engine. -/
def Connection.storeOn (c : Connection) (engine : Engine σ) : Store σ where
  execute request state := executeRequest c engine (scheduleOf request) request.query state

/-- The store of a connection to finite tables. -/
def Connection.store (c : Connection) : Store Database := c.storeOn tableEngine

end Olap.Sql
