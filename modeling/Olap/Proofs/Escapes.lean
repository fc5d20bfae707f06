/-
What escapes from a connection. A request to the store of a connection ends with rows, or with a problem
of the store: the database refused the statement, or the caller did not go on. Both tell the statement,
so there has to be one, and that is the first thing that can be missing: a limit may be about names that
are not apart, and a value may have no literal. What the driver says in words of its own escapes as
well: it refuses numbers that are too large before it sends them.
-/

import Olap.Proofs.Batches
import Olap.Proofs.Literals
import Olap.Proofs.Renderings

namespace Olap.Sql

/-! ### Values in a statement -/

/-- The values that the conditions of a query compare with. -/
def comparedIn (q : Query) : List Value :=
  (layers q).flatMap fun layer => layer.predicates.flatMap comparedValues

theorem comparedIn_scan (table : String) (layer : Layer) :
    comparedIn (.scan table layer) = layer.predicates.flatMap comparedValues := by
  rw [comparedIn, layers, List.flatMap_singleton]

theorem comparedIn_derived (source : Query) (layer : Layer) :
    comparedIn (.derived source layer) =
      comparedIn source ++ layer.predicates.flatMap comparedValues := by
  rw [comparedIn, layers, List.flatMap_append, List.flatMap_singleton]
  rfl

/-- The value in a piece, if it has to be written and can not be. -/
def unwrittenIn (dialect : Dialect) : Piece → List Value
  | .slot _ value => if (literal? dialect value).isNone then [value] else []
  | _ => []

variable {dialect : Dialect} {pieces : List Piece}

theorem unwrittenIn_places (p : Predicate) :
    (places p).flatMap (unwrittenIn dialect) =
      (comparedValues p).filter fun value => (literal? dialect value).isNone := by
  have one (column : String) (value : Value) :
      [Piece.slot column value].flatMap (unwrittenIn dialect) =
        [value].filter fun value => (literal? dialect value).isNone := by
    rw [List.flatMap_singleton, unwrittenIn, List.filter_singleton]
    cases literal? dialect value <;> rfl
  cases p with
  | equals column value => cases value <;> rfl
  | between column low high =>
    have both := congrArg₂ (· ++ ·) (one column low) (one column high)
    rwa [← List.flatMap_append, ← List.filter_append] at both
  | _ => rfl

theorem unwrittenIn_limitPieces (limit offset : Option Int) :
    (limitPieces dialect limit offset).flatMap (unwrittenIn dialect) = [] := by
  cases dialect <;> cases limit <;> cases offset <;> rfl

theorem unwritten_of_layerPieces {inner : Bool} {source : List Piece} {columns : Columns}
    {layer : Layer} (written : layerPieces dialect inner source columns layer = .ok pieces) :
    pieces.flatMap (unwrittenIn dialect) = source.flatMap (unwrittenIn dialect) ++
      (layer.predicates.flatMap comparedValues).filter fun value =>
        (literal? dialect value).isNone := by
  have unnamed (names : List String) :
      (names.flatMap fun name => unwrittenIn dialect (.name name)) = [] :=
    List.flatMap_eq_nil_iff.mpr fun _ _ => rfl
  rw [flatMap_layer (fun _ => rfl) written]
  simp only [unnamed, unwrittenIn_places, unwrittenIn_limitPieces, List.append_nil,
    List.nil_append, List.filter_flatMap]

/-- Numbers of rows can be written, so the values that can not are among those that are compared with. -/
theorem unwritten_of_queryPieces {inner : Bool} {q : Query}
    (written : queryPieces dialect inner q = .ok pieces) :
    pieces.flatMap (unwrittenIn dialect) =
      (comparedIn q).filter fun value => (literal? dialect value).isNone := by
  induction q generalizing inner pieces with
  | scan table layer =>
    rw [unwritten_of_layerPieces written, comparedIn_scan]
    rfl
  | derived source layer inductionHypothesis =>
    obtain ⟨below, found, written⟩ := exists_of_derivedPieces written
    rw [unwritten_of_layerPieces written, comparedIn_derived, List.filter_append,
      ← inductionHypothesis found]
    simp [unwrittenIn]

/-- A text with values in it exists when all of them can be written. -/
theorem literalText_cases (dialect : Dialect) (pieces : List Piece) :
    (pieces.flatMap (unwrittenIn dialect) = [] ∧ ∃ text, literalText dialect pieces = .ok text) ∨
      (pieces.flatMap (unwrittenIn dialect) ≠ [] ∧
        literalText dialect pieces = .error (.outside .sqlLiteral)) := by
  induction pieces with
  | nil => exact .inl ⟨rfl, "", rfl⟩
  | cons piece rest inductionHypothesis =>
    -- A piece that is written lets the rest decide.
    have goes {opening : String} (bare : unwrittenIn dialect piece = [])
        (same : literalText dialect (piece :: rest) =
          (literalText dialect rest).map (opening ++ ·)) :
        ((piece :: rest).flatMap (unwrittenIn dialect) = [] ∧
            ∃ text, literalText dialect (piece :: rest) = .ok text) ∨
          ((piece :: rest).flatMap (unwrittenIn dialect) ≠ [] ∧
            literalText dialect (piece :: rest) = .error (.outside .sqlLiteral)) := by
      rw [List.flatMap_cons, bare, List.nil_append, same]
      obtain ⟨all, text, written⟩ | ⟨some, failed⟩ := inductionHypothesis
      · exact .inl ⟨all, opening ++ text, by rw [written]; rfl⟩
      · exact .inr ⟨some, by rw [failed]; rfl⟩
    cases piece with
    | raw text => exact goes rfl rfl
    | name text => exact goes rfl rfl
    | fixed value => exact goes rfl rfl
    | slot column value =>
      cases shown : literal? dialect value with
      | some text =>
        exact goes (by rw [unwrittenIn, shown]; rfl) (by rw [literalText, shown])
      | none =>
        refine .inr ⟨?_, by rw [literalText, shown]⟩
        rw [List.flatMap_cons, unwrittenIn, shown]
        exact List.cons_ne_nil _ _

/-! ### Statements of a connection -/

section Statements

variable (c : Connection) {q : Query}

/-- A query has a statement, or it fails by its names, or it fails by a value without a literal. -/
theorem Connection.statement_cases (hinges : q.HingesOnNames) :
    (∃ statement, c.statement q = .ok statement ∧ (q.isDerived = true → q.aliases.Nodup) ∧
        (c.mode = .literal → ∀ value ∈ comparedIn q, literal? .sqlite value ≠ none)) ∨
      (q.isDerived = true ∧ ¬q.aliases.Nodup ∧ c.statement q = .error (.outside .sqlAmbiguous)) ∨
      ((q.isDerived = true → q.aliases.Nodup) ∧ c.mode = .literal ∧
        (∃ value ∈ comparedIn q, literal? .sqlite value = none) ∧
        c.statement q = .error (.outside .sqlLiteral)) := by
  unfold statement text
  obtain ⟨apart, pieces, written⟩ | ⟨⟨derived, repeated⟩, failed⟩ := hinges .sqlite
  · rw [written]
    cases mode : c.mode with
    | bound => exact .inl ⟨_, rfl, apart, fun literal => by cases literal⟩
    | literal =>
      have unwritten := unwritten_of_queryPieces written
      obtain ⟨none, text, done⟩ | ⟨some, failed⟩ := literalText_cases .sqlite pieces
      · refine .inl ⟨text, done, apart, fun _ value compared missing => ?_⟩
        rw [none, eq_comm, List.filter_eq_nil_iff] at unwritten
        exact unwritten value compared (by rw [missing]; rfl)
      · refine .inr (.inr ⟨apart, rfl, ?_, failed⟩)
        rw [unwritten, ne_eq, List.filter_eq_nil_iff] at some
        push Not at some
        obtain ⟨value, compared, missing⟩ := some
        exact ⟨value, compared, Option.isNone_iff_eq_none.mp missing⟩
  · rw [failed]
    exact .inr (.inl ⟨derived, repeated, rfl⟩)

end Statements

/-! ### Answers of finite tables -/

section Tables

variable {mode : Mode} {q : Query} {db : Database} {failure : Outside}

/-- What is sent beside a statement is refused by the first value that can not be sent. -/
theorem statementFailure?_bound (written : queryPieces .sqlite false q = .ok pieces) :
    statementFailure? .bound q pieces = (sentValues .sqlite q).findSome? bindingFailure? := by
  rw [← values_of_queryPieces written, ← values_boundText .sqlite [], List.findSome?_map]
  rfl

/-- With the values in it, a statement fails in words of SQL or not at all. -/
theorem isOfSql_of_statementFailure? (failed : statementFailure? .literal q pieces = some failure) :
    failure.isOfSql = true := by
  unfold statementFailure? at failed
  dsimp only at failed
  split at failed
  next => cases failed; rfl
  next =>
    split at failed
    next => cases failed; rfl
    next =>
      split at failed
      next => cases failed; rfl
      next => cases failed

theorem bindingFailure?_cases {value : Value} (failed : bindingFailure? value = some failure) :
    failure = .sqlProgramming ∨ failure = .overflow := by
  unfold bindingFailure? at failed
  split at failed
  next => cases failed; exact .inl rfl
  next => cases failed; exact .inl rfl
  next => cases failed; exact .inl rfl
  next =>
    split at failed
    next => cases failed
    next => cases failed; exact .inr rfl
  next => cases failed

/-- The database refuses a statement in words of SQL. Only its driver, which takes no numbers beyond 64
bits, has words of its own. -/
theorem databaseAnswer_error (written : queryPieces .sqlite false q = .ok pieces)
    (failed : databaseAnswer mode db q = .error failure) :
    failure.isOfSql = true ∨
      (failure = .overflow ∧ mode = .bound ∧ (∃ rows, db.answer? q = some rows) ∧
        (sentValues .sqlite q).findSome? bindingFailure? = some .overflow) := by
  unfold databaseAnswer at failed
  rw [written] at failed
  cases found : db.answer? q with
  | none =>
    rw [found] at failed
    cases failed
    exact .inl rfl
  | some rows =>
    rw [found] at failed
    dsimp only at failed
    split at failed
    next refused told =>
      cases failed
      cases mode with
      | literal => exact .inl (isOfSql_of_statementFailure? told)
      | bound =>
        rw [statementFailure?_bound written] at told
        obtain ⟨value, -, unsent⟩ := List.exists_of_findSome?_eq_some told
        obtain rfl | rfl := bindingFailure?_cases unsent
        · exact .inl rfl
        · exact .inr ⟨rfl, rfl, ⟨rows, rfl⟩, told⟩
    next => cases failed

theorem databaseAnswer_of_unsent (written : queryPieces .sqlite false q = .ok pieces)
    {rows : List Row} (found : db.answer? q = some rows)
    (unsent : (sentValues .sqlite q).findSome? bindingFailure? = some .overflow) :
    databaseAnswer .bound db q = .error .overflow := by
  unfold databaseAnswer
  rw [found, written]
  dsimp only
  rw [statementFailure?_bound written, unsent]

end Tables

/-! ### Callers with a time to wait -/

/-- The schedule of a caller, if the time that it waits is one. -/
def timed (timeout : Value) (schedule : Schedule) : Result Schedule :=
  (isExpired timeout).map fun _ => schedule

/-- A time to wait that is no number fails, and so does one that is too large. -/
theorem isExpired_error {timeout : Value} {fault : Fault} (failed : isExpired timeout = .error fault) :
    ∃ failure, fault = .outside failure := by
  unfold isExpired at failed
  split at failed
  next => cases failed
  next =>
    split at failed
    next => cases failed; exact ⟨_, rfl⟩
    next =>
      split at failed
      next => cases failed
      next => cases failed; exact ⟨_, rfl⟩

theorem timed_cases (timeout : Value) (schedule : Schedule) :
    (∃ failure, timed timeout schedule = .error (.outside failure)) ∨
      timed timeout schedule = .ok schedule := by
  unfold timed
  cases expired : isExpired timeout with
  | error fault =>
    obtain ⟨failure, rfl⟩ := isExpired_error expired
    exact .inl ⟨failure, rfl⟩
  | ok isLate => exact .inr rfl

/-- A request to the store of a connection is one of a caller that does not change its mind. -/
theorem exists_store_execute_eq (c : Connection) (request : Request) (db : Database) :
    ∃ schedule, c.store.execute request db =
      executeRequest c tableEngine (timed request.timeout schedule) request.query db := by
  obtain ⟨schedule, same⟩ :
      ∃ schedule, scheduleOf request = timed request.timeout schedule := by
    unfold scheduleOf timed
    cases isExpired request.timeout with
    | error fault => exact ⟨fun _ => default, rfl⟩
    | ok isLate => exact ⟨_, rfl⟩
  exact ⟨schedule, congrArg (executeRequest c tableEngine · request.query db) same⟩

/-! ### How a request ends -/

section Endings

variable {c : Connection} {q : Query} {statement : String} {db : Database} {schedule : Schedule}

theorem queryPieces_of_statement (written : c.statement q = .ok statement) :
    ∃ pieces, queryPieces .sqlite false q = .ok pieces := by
  obtain ⟨pieces, made, -⟩ := Result.bind_ok.1 written
  exact ⟨pieces, made⟩

/-- An interruption at the first look is all that comes of a request. -/
theorem outcome_of_interrupted (written : c.statement q = .ok statement) {interruption : Interruption}
    (now : (schedule 0).interruption? = some interruption) :
    (executeRequest c tableEngine (.ok schedule) q db).1.outcome =
      .error (.problem (interruption.problem statement)) := by
  rw [executeRequest_of_written c tableEngine schedule q written, runStatement, now]
  rfl

theorem outcome_of_failed (written : c.statement q = .ok statement) (quiet : schedule.IsQuiet 0)
    {failure : Outside} (failed : databaseAnswer c.mode db q = .error failure) :
    (executeRequest c tableEngine (.ok schedule) q db).1.outcome =
      .error (databaseFault q statement failure) := by
  have ran : tableEngine.run c.mode q statement db = (.error failure, db) := congrArg (·, db) failed
  rw [executeRequest_of_written c tableEngine schedule q written, runStatement, quiet, ran]
  rfl

theorem outcome_of_answered (written : c.statement q = .ok statement) (quiet : schedule.IsQuiet 0)
    {rows : List Row} (answered : databaseAnswer c.mode db q = .ok rows) :
    (executeRequest c tableEngine (.ok schedule) q db).1.outcome =
      (fetch tableEngine.driver c.fetchSize c.fetchSize_pos schedule (keyed c.mode) 1 rows).mapError
        (·.fault q statement) := by
  have ran : tableEngine.run c.mode q statement db = (.ok rows, db) := congrArg (·, db) answered
  rw [executeRequest_of_written c tableEngine schedule q written, runStatement, quiet, ran]

/-- A request ends with rows or with a problem of the store, which tells the statement. -/
def IsOwn (q : Query) (statement : String) (outcome : Result (List Row)) : Prop :=
  (∃ rows, outcome = .ok rows) ∨
    (∃ failure, failure.isOfSql = true ∧
      outcome = .error (.problem (.statementFailed q.title (.outside failure) statement))) ∨
    ∃ interruption : Interruption, outcome = .error (.problem (interruption.problem statement))

theorem IsOwn.ne_outside {outcome : Result (List Row)} (own : IsOwn q statement outcome)
    (failure : Outside) : outcome ≠ .error (.outside failure) := by
  obtain ⟨rows, rfl⟩ | ⟨other, -, rfl⟩ | ⟨interruption, rfl⟩ := own
  · exact fun same => by cases same
  · exact fun same => by cases same
  · exact fun same => by cases same

/-- A failure of the database is reported when it is one in words of SQL. -/
theorem isOwn_databaseFault {failure : Outside} (own : failure.isOfSql = true) (q : Query)
    (statement : String) : IsOwn q statement (.error (databaseFault q statement failure)) :=
  .inr (.inl ⟨failure, own, by rw [databaseFault, if_pos own]⟩)

end Endings

/-! ### What escapes -/

section Escaping

variable (c : Connection) (q : Query) (timeout : Value) (schedule : Schedule) (db : Database)

/-- The failures that are not reported with a statement. -/
inductive Escapes : Outside → Prop
  /-- A limit is about the rows of a query that selects two columns of one name. -/
  | names (derived : q.isDerived = true) (repeated : ¬q.aliases.Nodup) : Escapes .sqlAmbiguous
  /-- A value has to stand in the statement and has no literal. -/
  | literal (apart : q.isDerived = true → q.aliases.Nodup) (within : c.mode = .literal) (value : Value)
      (compared : value ∈ comparedIn q) (unwritten : literal? .sqlite value = none) :
      Escapes .sqlLiteral
  /-- The time to wait is none. -/
  | timeout (statement : String) (written : c.statement q = .ok statement) (failure : Outside)
      (untimed : timed timeout schedule = .error (.outside failure)) : Escapes failure
  /-- The first value that can not be sent beside the statement is a number that is too large. -/
  | number (statement : String) (written : c.statement q = .ok statement)
      (waits : timed timeout schedule = .ok schedule) (quiet : schedule.IsQuiet 0)
      (beside : c.mode = .bound) (rows : List Row) (found : db.answer? q = some rows)
      (unsent : (sentValues .sqlite q).findSome? bindingFailure? = some .overflow) :
      Escapes .overflow
  /-- There is an answer, and too many of its rows are asked for at a time. -/
  | size (statement : String) (written : c.statement q = .ok statement)
      (waits : timed timeout schedule = .ok schedule) (quiet : schedule.IsQuiet 0)
      (quietToo : schedule.IsQuiet 1) (rows : List Row)
      (answered : databaseAnswer c.mode db q = .ok rows) (large : mostRows < c.fetchSize) :
      Escapes .overflow

variable {c q timeout schedule db}

/-- What escapes is what the request ends with. -/
theorem Escapes.outcome_eq (hinges : q.HingesOnNames) {failure : Outside}
    (escapes : Escapes c q timeout schedule db failure) :
    (executeRequest c tableEngine (timed timeout schedule) q db).1.outcome =
      .error (.outside failure) := by
  cases escapes with
  | names derived repeated =>
    obtain ⟨_, -, apart, -⟩ | ⟨-, -, failed⟩ | ⟨apart, -⟩ := c.statement_cases hinges
    · exact absurd (apart derived) repeated
    · unfold executeRequest
      rw [failed]
    · exact absurd (apart derived) repeated
  | literal apart within value compared unwritten =>
    obtain ⟨_, -, -, all⟩ | ⟨derived, repeated, -⟩ | ⟨-, -, -, failed⟩ := c.statement_cases hinges
    · exact absurd unwritten (all within value compared)
    · exact absurd (apart derived) repeated
    · unfold executeRequest
      rw [failed]
  | timeout statement written failure untimed =>
    unfold executeRequest
    rw [written, untimed]
  | number statement written waits quiet beside rows found unsent =>
    obtain ⟨pieces, made⟩ := queryPieces_of_statement written
    have failed := databaseAnswer_of_unsent made found unsent
    rw [← beside] at failed
    rw [waits, outcome_of_failed written quiet failed]
    rfl
  | size statement written waits quiet quietToo rows answered large =>
    have refused : tableEngine.driver.takes c.fetchSize = false :=
      decide_eq_false (Nat.not_le.mpr large)
    rw [waits, outcome_of_answered written quiet answered, fetch_of_refused _ _ _ _ refused quietToo]
    rfl

/-- A request from which nothing escapes has an end of its own. -/
theorem escapes_or_isOwn (hinges : q.HingesOnNames) (c : Connection) (timeout : Value)
    (schedule : Schedule) (db : Database) :
    (∃ failure, Escapes c q timeout schedule db failure) ∨
      ∃ statement, c.statement q = .ok statement ∧
        IsOwn q statement (executeRequest c tableEngine (timed timeout schedule) q db).1.outcome := by
  obtain ⟨statement, written, -⟩ | ⟨derived, repeated, -⟩ |
    ⟨apart, within, ⟨value, compared, unwritten⟩, -⟩ := c.statement_cases hinges
  · obtain ⟨failure, untimed⟩ | waits := timed_cases timeout schedule
    · exact .inl ⟨failure, .timeout statement written failure untimed⟩
    rw [waits]
    cases first : (schedule 0).interruption? with
    | some interruption =>
      refine .inr ⟨statement, written, ?_⟩
      rw [outcome_of_interrupted written first]
      exact .inr (.inr ⟨interruption, rfl⟩)
    | none =>
      obtain ⟨pieces, made⟩ := queryPieces_of_statement written
      cases answered : databaseAnswer c.mode db q with
      | error failure =>
        obtain own | ⟨rfl, beside, ⟨rows, found⟩, unsent⟩ := databaseAnswer_error made answered
        · refine .inr ⟨statement, written, ?_⟩
          rw [outcome_of_failed written first answered]
          exact isOwn_databaseFault own _ _
        · exact .inl ⟨_, .number statement written waits first beside rows found unsent⟩
      | ok rows =>
        obtain large | small := Nat.lt_or_ge mostRows c.fetchSize
        · cases second : (schedule 1).interruption? with
          | some interruption =>
            refine .inr ⟨statement, written, ?_⟩
            rw [outcome_of_answered written first answered, fetch_of_interrupted _ _ _ _ second]
            exact .inr (.inr ⟨interruption, rfl⟩)
          | none => exact .inl ⟨_, .size statement written waits first second rows answered large⟩
        · refine .inr ⟨statement, written, ?_⟩
          obtain ⟨-, -, whole⟩ | ⟨interruption, _, -, ended⟩ | ⟨-, refused⟩ :=
            outcome_cases c tableEngine schedule q written (decide_eq_true small)
              (congrArg (·, db) answered)
          · exact .inl ⟨_, whole⟩
          · exact .inr (.inr ⟨interruption, ended⟩)
          · exact .inr (.inl ⟨_, rfl, refused⟩)
  · exact .inl ⟨_, .names derived repeated⟩
  · exact .inl ⟨_, .literal apart within value compared unwritten⟩

end Escaping

/-! ### Requests about a market -/

section Market

open Market

/-- The facts of a place that is looked for by a list. -/
def listedPlace : Request :=
  ⟨.scan "sales" (salesBrowser.compiler.factLayer [.equals "place.country" (.list [.int 1])] [] .unset),
    .null, none⟩

def literally : Connection := { pairwise with mode := .literal }

theorem makes_listedPlace :
    salesBrowser.compiler.Makes [.point "place" none [.list [.int 1]]] listedPlace.query :=
  .inl ⟨.facts .unset, trivial, rfl⟩

/-- The fact of a key of more than 64 bits. -/
def farFact : Request := ⟨salesBrowser.compiler.fact (.int 9223372036854775808), .null, none⟩

end Market

end Olap.Sql
