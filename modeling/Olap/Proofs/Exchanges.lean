/-
What a reading exchanges with its store. A reading has a plan: the requests that it makes as long as the
store answers them. It makes them one after the other, and the first one that fails is the last; then the
reading fails as well. An aggregation plans two requests, and between them it keeps the summary that came
of the first one.
-/

import Olap.Proofs.Confinement
import Olap.Proofs.Requests

namespace Olap

/-! ### Exchanges with a store -/

/-- A request, and what the store said to it. -/
structure Exchange where
  request : Request
  outcome : Result (List Row)

namespace Exchange

def Succeeds (exchange : Exchange) : Prop := ∃ rows, exchange.outcome = .ok rows

end Exchange

namespace Store

variable {σ : Type}

/-- Makes requests one after the other, until one of them fails. -/
def converse (store : Store σ) : List Request → σ → List Exchange × σ
  | [], state => ([], state)
  | request :: rest, state =>
    let (reply, after) := store.execute request state
    match reply.outcome with
    | .error fault => ([⟨request, .error fault⟩], after)
    | .ok rows =>
      let (later, last) := converse store rest after
      (⟨request, .ok rows⟩ :: later, last)

variable {store : Store σ} {request : Request} {state : σ}

theorem converse_cons_of_error {fault : Fault}
    (failed : (store.execute request state).1.outcome = .error fault) (rest : List Request) :
    store.converse (request :: rest) state =
      ([⟨request, .error fault⟩], (store.execute request state).2) := by
  rw [converse]
  dsimp only
  rw [failed]

theorem converse_cons_of_ok {rows : List Row}
    (answered : (store.execute request state).1.outcome = .ok rows) (rest : List Request) :
    store.converse (request :: rest) state =
      (⟨request, .ok rows⟩ :: (store.converse rest (store.execute request state).2).1,
        (store.converse rest (store.execute request state).2).2) := by
  rw [converse]
  dsimp only
  rw [answered]

/-- No request is made but the planned ones, in their order. -/
theorem requests_converse (store : Store σ) (plan : List Request) (state : σ) :
    (store.converse plan state).1.map (·.request) <+: plan := by
  induction plan generalizing state with
  | nil => exact List.prefix_rfl
  | cons request rest inductionHypothesis =>
    cases replied : (store.execute request state).1.outcome with
    | error fault =>
      rw [converse_cons_of_error replied]
      exact List.cons_prefix_cons.mpr ⟨rfl, List.nil_prefix⟩
    | ok rows =>
      rw [converse_cons_of_ok replied]
      exact List.cons_prefix_cons.mpr ⟨rfl, inductionHypothesis _⟩

/-- A request that others came after was answered. -/
theorem pairwise_converse (store : Store σ) (plan : List Request) (state : σ) :
    (store.converse plan state).1.Pairwise fun earlier _ => earlier.Succeeds := by
  induction plan generalizing state with
  | nil => exact .nil
  | cons request rest inductionHypothesis =>
    cases replied : (store.execute request state).1.outcome with
    | error fault =>
      rw [converse_cons_of_error replied]
      exact List.pairwise_singleton _ _
    | ok rows =>
      rw [converse_cons_of_ok replied]
      exact .cons (fun _ _ => ⟨rows, rfl⟩) (inductionHypothesis _)

/-- Nothing but a failure keeps a planned request from being made. -/
theorem complete_converse (store : Store σ) (plan : List Request) (state : σ)
    (answered : ∀ exchange ∈ (store.converse plan state).1, exchange.Succeeds) :
    (store.converse plan state).1.map (·.request) = plan := by
  induction plan generalizing state with
  | nil => rfl
  | cons request rest inductionHypothesis =>
    cases replied : (store.execute request state).1.outcome with
    | error fault =>
      rw [converse_cons_of_error replied] at answered
      obtain ⟨rows, same⟩ := answered _ List.mem_cons_self
      cases same
    | ok rows =>
      rw [converse_cons_of_ok replied] at answered ⊢
      exact congrArg (request :: ·)
        (inductionHypothesis _ fun exchange member => answered exchange (List.mem_cons_of_mem _ member))

end Store

/-! ### Plans -/

namespace Browser

open Olap.Action

variable {σ α β : Type}

/-- The request for a query, if it compiles. -/
def requestsFor (b : Browser σ) (made : Result Query) (patience : Patience) : List Request :=
  match made with
  | .ok q => [b.requestFor q patience]
  | .error _ => []

/-- The requests for an aggregation: for its summary, unless there is one, and for its rows. -/
def callRequests (b : Browser σ) (slice : Slice) (measure : Option String) (o : AggregateOptions)
    (patience : Patience) : List Request :=
  match slice.summaryKey measure o.operators with
  | .error _ => []
  | .ok key =>
    if (slice.summaries.find? key).isSome then b.drillRequests slice.cuts measure o patience
    else
      match b.compiler.summary slice.cuts (.ofOption measure) o with
      | .error _ => []
      | .ok q => b.requestFor q patience :: b.drillRequests slice.cuts measure o patience

/-- The requests that a reading makes as long as none of them fails. -/
def plan (b : Browser σ) (slice : Slice) : Reading → List Request
  | .aggregate call =>
    match AggregateOptions.accept call.options call.overrides, b.cube.measure call.measure,
      call.computed with
    | .ok o, .ok m, .ok _ => b.callRequests slice m.name o call.patience
    | _, _, _ => []
  | .facts options overrides patience =>
    b.requestsFor (QueryOptions.accept options overrides >>= fun o =>
      b.compiler.facts slice.cuts o.base) patience
  | .fact key patience => b.requestsFor (.ok (b.compiler.fact key)) patience
  | .values dimension path options overrides hierarchy patience =>
    b.requestsFor (QueryOptions.accept options overrides >>= fun o =>
      b.compiler.values dimension path slice.cuts o.base hierarchy) patience
  | .detail dimension path hierarchy patience =>
    b.requestsFor (b.compiler.detail dimension path slice.cuts hierarchy) patience

/-- In a session, an action makes the requests of a plan, and it fails by the one that fails. -/
structure Asks (store : Store σ) (plan : List Request) (session : Session σ) (action : Action σ β) :
    Prop where
  state : (perform action session).2.store = (store.converse plan session.store).2
  fails : ∀ exchange ∈ (store.converse plan session.store).1, ∀ fault,
    exchange.outcome = .error fault →
      (perform action session).1 = .error (storeFault exchange.request.query fault)

variable {b : Browser σ} {store : Store σ} {session : Session σ} {plan : List Request}

/-- Nothing is asked for by what leaves the store alone. -/
theorem asks_nothing {action : Action σ β}
    (alone : (perform action session).2.store = session.store) : Asks store [] session action where
  state := alone
  fails _ member := absurd member List.not_mem_nil

/-- What comes after the requests and leaves the store alone does not change them. -/
theorem Asks.bind_alone {first : Action σ α} {next : α → Action σ β}
    (asks : Asks store plan session first)
    (alone : ∀ a middle, (perform (next a) middle).2.store = middle.store) :
    Asks store plan session (first >>= next) := by
  obtain ⟨state, fails⟩ := asks
  rcases done : perform first session with ⟨fault | a, middle⟩
  · rw [done] at state fails
    refine ⟨by rw [perform_bind, done]; exact state, fun exchange member other failed => ?_⟩
    rw [perform_bind, done]
    cases fails exchange member other failed
    rfl
  · rw [done] at state fails
    refine ⟨by rw [perform_bind, done]; exact (alone a middle).trans state,
      fun exchange member other failed => ?_⟩
    cases fails exchange member other failed

/-- An action that comes to the same as another one, later on, asks for what the other one does. -/
theorem Asks.of_perform {action other : Action σ β} {middle : Session σ}
    (asks : Asks store plan middle other) (same : perform action session = perform other middle)
    (unasked : middle.store = session.store) : Asks store plan session action := by
  obtain ⟨state, fails⟩ := asks
  rw [unasked] at state fails
  exact ⟨by rw [same, state], fun exchange member fault failed => by
    rw [same, fails exchange member fault failed]⟩

/-- A request that is answered comes before the requests that are made from then on. -/
theorem Asks.after_answer {action other : Action σ β} {middle : Session σ} {request : Request}
    {rows : List Row} (asks : Asks store plan middle other)
    (same : perform action session = perform other middle)
    (answered : (store.execute request session.store).1.outcome = .ok rows)
    (state : middle.store = (store.execute request session.store).2) :
    Asks store (request :: plan) session action := by
  have told := Store.converse_cons_of_ok answered plan
  rw [← state] at told
  refine ⟨by rw [told, same, asks.state], fun exchange member fault failed => ?_⟩
  rw [told] at member
  rw [same]
  obtain rfl | later := List.mem_cons.mp member
  · cases failed
  · exact asks.fails exchange later fault failed

/-- A request that fails is the last one of a plan. -/
theorem asks_of_failure {action : Action σ β} {request : Request} {fault : Fault} {middle : Session σ}
    (failed : (store.execute request session.store).1.outcome = .error fault)
    (done : perform action session = (.error (storeFault request.query fault), middle))
    (state : middle.store = (store.execute request session.store).2) (rest : List Request) :
    Asks store (request :: rest) session action := by
  have told := Store.converse_cons_of_error failed rest
  refine ⟨by rw [told, done, state], fun exchange member other failed => ?_⟩
  rw [told] at member
  cases List.mem_singleton.mp member
  cases failed
  rw [done]

/-- A query is asked for once. -/
theorem asks_execute (present : b.store = some store) {q : Query} (announced : b.CanAnnounce q)
    (patience : Patience) (session : Session σ) :
    Asks store [b.requestFor q patience] session (b.execute q patience) := by
  obtain ⟨log, done⟩ := perform_execute_eq present announced patience session
  cases replied : (store.execute (b.requestFor q patience) session.store).1.outcome with
  | error fault =>
    rw [replied] at done
    exact asks_of_failure replied done rfl []
  | ok rows =>
    rw [replied] at done
    exact Asks.after_answer (asks_nothing rfl) (done.trans (perform_pure _ rows).symm) replied rfl

theorem asks_get_bind {next : Session σ → Action σ β} (asks : Asks store plan session (next session)) :
    Asks store plan session (get >>= next) := ⟨asks.state, asks.fails⟩

/-- Nothing is asked for when something that is required fails. -/
theorem asks_require_bind {result : Result α} {next : α → Action σ β}
    (asks : ∀ a, result = .ok a → Asks store plan session (next a))
    (empty : ∀ fault, result = .error fault → plan = []) :
    Asks store plan session (require result >>= next) := by
  cases result with
  | ok a => exact asks a rfl
  | error fault =>
    rw [empty fault rfl]
    exact asks_nothing rfl

theorem asks_requestsFor {made : Result Query} {patience : Patience} {next : Query → Action σ β}
    (asks : ∀ q, made = .ok q → Asks store [b.requestFor q patience] session (next q)) :
    Asks store (b.requestsFor made patience) session (require made >>= next) := by
  refine asks_require_bind (fun q compiled => ?_) fun fault failed => ?_
  · rw [compiled]
    exact asks q compiled
  · rw [failed]
    rfl

/-- A query over a table can always be announced. -/
theorem canAnnounce_scan (b : Browser σ) (table : String) {layer : Layer}
    (known : ∀ p ∈ layer.predicates, Sql.IsKnown p) : b.CanAnnounce (.scan table layer) :=
  fun _ => exists_statement_scan table known

/-! ### Aggregations -/

section Aggregations

variable {measure : Option String} {o : AggregateOptions} {fields : List ComputedField}
  {patience : Patience}

theorem asks_drillDown (present : b.store = some store) (measure : Option String)
    (o : AggregateOptions) (fields : List ComputedField) (summary : Row) (patience : Patience)
    (session : Session σ) :
    Asks store (b.drillRequests session.slice.cuts measure o patience) session
      (b.drillDown measure o fields summary patience) := by
  refine asks_get_bind (asks_require_bind (fun drilled made => ?_) fun fault failed => ?_)
  · unfold drillRequests
    rw [made]
    cases drilled with
    | none =>
      rw [ite_self]
      exact asks_nothing rfl
    | some query =>
      have levels : o.levels.isEmpty = false := by
        obtain ⟨drills, -⟩ := Compiler.drill_ok.1 made
        simpa [AggregateOptions.isDrillDown] using drills
      rw [levels, if_neg Bool.false_ne_true]
      dsimp only
      by_cases announced : b.CanAnnounce query
      · rw [(canAnnounce_iff b query).mp announced, if_neg Bool.false_ne_true]
        refine (asks_execute present announced patience session).bind_alone fun found middle => ?_
        rw [perform_require]
      · obtain ⟨fault, failed⟩ := perform_execute_of_not_announced present announced patience session
        rw [canAnnounce_iff, Bool.not_eq_false] at announced
        rw [announced, if_pos rfl]
        refine asks_nothing ?_
        rw [perform_bind, failed]
  · unfold drillRequests
    rw [failed]
    exact ite_self _

/-- The four ways in which a summary comes of a session: it can not be asked for, or it is found, or the
store fails, or the store answers and the summary is kept. -/
theorem summary_by_store (present : b.store = some store) (measure : Option String)
    (o : AggregateOptions) (patience : Patience) (session : Session σ) :
    (b.callRequests session.slice measure o patience = [] ∧
      ∃ fault, perform (b.summary measure o patience) session = (.error fault, session)) ∨
    (b.callRequests session.slice measure o patience =
        b.drillRequests session.slice.cuts measure o patience ∧
      ∃ found, perform (b.summary measure o patience) session = (.ok found, session)) ∨
    ∃ key query, session.slice.summaryKey measure o.operators = .ok key ∧
      b.compiler.summary session.slice.cuts (.ofOption measure) o = .ok query ∧
      b.callRequests session.slice measure o patience =
        b.requestFor query patience :: b.drillRequests session.slice.cuts measure o patience ∧
      ((∃ fault log,
        (store.execute (b.requestFor query patience) session.store).1.outcome = .error fault ∧
        perform (b.summary measure o patience) session = (.error (storeFault query fault),
          ⟨session.slice, (store.execute (b.requestFor query patience) session.store).2, log⟩)) ∨
      ∃ rows log,
        (store.execute (b.requestFor query patience) session.store).1.outcome = .ok rows ∧
        perform (b.summary measure o patience) session =
          (.ok (summaryOf (rows.headD []) measure o.operators),
            ⟨{ session.slice with summaries := session.slice.summaries ++
                [(key, summaryOf (rows.headD []) measure o.operators)] },
              (store.execute (b.requestFor query patience) session.store).2, log⟩)) := by
  unfold callRequests summary
  simp only [perform_bind, perform_get, perform_require]
  cases keyed : session.slice.summaryKey measure o.operators with
  | error fault => exact .inl ⟨rfl, fault, rfl⟩
  | ok key =>
    cases looked : session.slice.summaries.find? key with
    | some found =>
      refine .inr (.inl ⟨?_, found, ?_⟩)
      · simp only [looked, Option.isSome_some, if_true]
      · simp only [looked, perform_pure]
    | none =>
      simp only [looked, perform_bind, perform_require, Option.isSome_none, Bool.false_eq_true,
        if_false]
      cases compiled : b.compiler.summary session.slice.cuts (.ofOption measure) o with
      | error fault => exact .inl ⟨rfl, fault, rfl⟩
      | ok query =>
        obtain ⟨m, conditions, -, restricted, rfl⟩ := Compiler.summary_ok.1 compiled
        have announced : b.CanAnnounce (.scan b.compiler.table
            (b.compiler.summaryLayer m o.operators conditions)) :=
          b.canAnnounce_scan _ (Compiler.isKnown_of_predicates restricted)
        obtain ⟨log, done⟩ := perform_execute_eq present announced patience session
        refine .inr (.inr ⟨key, _, rfl, rfl, rfl, ?_⟩)
        dsimp only
        rw [done]
        cases replied : (store.execute (b.requestFor (.scan b.compiler.table
            (b.compiler.summaryLayer m o.operators conditions)) patience) session.store).1.outcome with
        | error fault => exact .inl ⟨fault, log, rfl, rfl⟩
        | ok rows =>
          refine .inr ⟨rows, log, rfl, ?_⟩
          rw [← Summaries.put_of_find?_eq_none looked]
          rfl

/-- An accepted aggregation asks for its summary, unless there is one, and then for its rows. -/
theorem asks_call (present : b.store = some store) (measure : Option String) (o : AggregateOptions)
    (fields : List ComputedField) (patience : Patience) (session : Session σ) :
    Asks store (b.callRequests session.slice measure o patience) session
      (b.summary measure o patience >>= fun summary =>
        b.drillDown measure o fields summary patience) := by
  obtain ⟨nothing, fault, failed⟩ | ⟨rowsOnly, found, done⟩ |
    ⟨key, query, -, -, both, ⟨fault, log, replied, failed⟩ | ⟨rows, log, replied, done⟩⟩ :=
    summary_by_store present measure o patience session
  · rw [nothing]
    refine asks_nothing ?_
    rw [perform_bind, failed]
  · rw [rowsOnly]
    refine (asks_drillDown present measure o fields found patience session).of_perform ?_ rfl
    rw [perform_bind, done]
  · have ended : perform (b.summary measure o patience >>= fun summary =>
        b.drillDown measure o fields summary patience) session = (.error (storeFault query fault),
          ⟨session.slice, (store.execute (b.requestFor query patience) session.store).2, log⟩) := by
      rw [perform_bind, failed]
    rw [both]
    exact asks_of_failure replied ended rfl _
  · rw [both]
    refine Asks.after_answer (asks_drillDown present measure o fields
      (summaryOf (rows.headD []) measure o.operators) patience ⟨{ session.slice with
        summaries := session.slice.summaries ++
          [(key, summaryOf (rows.headD []) measure o.operators)] }, _, log⟩) ?_ replied rfl
    rw [perform_bind, done]

end Aggregations

/-! ### Readings -/

theorem plan_of_accepts {call : AggregateCall} {o : AggregateOptions} {m : Attribute}
    {fields : List ComputedField} (accepts : b.Accepts call o m fields) (slice : Slice) :
    b.plan slice (.aggregate call) = b.callRequests slice m.name o call.patience := by
  rw [plan, accepts.accepted, accepts.measured, accepts.computed]

theorem accepts_or_not (b : Browser σ) (call : AggregateCall) :
    (∀ o m fields, ¬b.Accepts call o m fields) ∨ ∃ o m fields, b.Accepts call o m fields := by
  by_cases accepted : ∃ o m fields, b.Accepts call o m fields
  · exact .inr accepted
  · exact .inl fun o m fields accepts => accepted ⟨o, m, fields, accepts⟩

theorem plan_of_not_accepts {call : AggregateCall}
    (refused : ∀ o m fields, ¬b.Accepts call o m fields) (slice : Slice) :
    b.plan slice (.aggregate call) = [] := by
  rw [plan]
  split
  next o m fields accepted measured computed =>
    exact absurd ⟨accepted, measured, computed⟩ (refused o m fields)
  next => rfl

/-- A reading makes the requests of its plan. -/
theorem asks_read (present : b.store = some store) (session : Session σ) (reading : Reading) :
    Asks store (b.plan session.slice reading) session (b.read reading) := by
  cases reading with
  | aggregate call =>
    refine Asks.bind_alone ?_ fun result middle => rfl
    obtain refused | ⟨o, m, fields, accepts⟩ := b.accepts_or_not call
    · rw [plan_of_not_accepts refused]
      exact asks_nothing (by rw [perform_call_of_not_accepts refused])
    · rw [plan_of_accepts accepts]
      exact (asks_call present m.name o fields call.patience session).of_perform
        (accepts.perform_call session) rfl
  | facts options overrides patience =>
    refine Asks.bind_alone ?_ fun list middle => rfl
    refine asks_require_bind (fun o accepted => asks_get_bind ?_) fun fault refused => ?_
    · rw [plan, accepted]
      refine asks_requestsFor fun q made => ?_
      obtain ⟨conditions, order, compiled, -, rfl⟩ := Compiler.exists_of_facts made
      exact (asks_execute present (b.canAnnounce_scan _ (Compiler.isKnown_of_predicates compiled))
        patience session).bind_alone fun rows middle => rfl
    · rw [plan, refused]
      rfl
  | fact key patience =>
    refine Asks.bind_alone ?_ fun row middle => rfl
    have announced : b.CanAnnounce (b.compiler.fact key) :=
      b.canAnnounce_scan _ (List.forall_mem_singleton.mpr trivial)
    refine (asks_execute present announced patience session).bind_alone fun rows middle => ?_
    cases rows <;> rfl
  | values dimension path options overrides hierarchy patience =>
    refine Asks.bind_alone ?_ fun rows middle => rfl
    refine asks_require_bind (fun o accepted => asks_get_bind ?_) fun fault refused => ?_
    · rw [plan, accepted]
      refine asks_requestsFor fun q made => ?_
      obtain ⟨d, h, items, conditions, along, key, order, -, -, compiled, pathCompiled, -, -, rfl⟩ :=
        Compiler.exists_of_values made
      exact asks_execute present (b.canAnnounce_scan _
        (Compiler.isKnown_of_listing compiled pathCompiled _)) patience session
    · rw [plan, refused]
      rfl
  | detail dimension path hierarchy patience =>
    refine Asks.bind_alone (asks_get_bind (asks_requestsFor fun q made => ?_)) fun row middle => rfl
    obtain ⟨d, h, items, conditions, along, -, -, compiled, pathCompiled, rfl⟩ :=
      Compiler.exists_of_detail made
    refine (asks_execute present (b.canAnnounce_scan _ (List.forall_mem_append.mpr
      ⟨Compiler.isKnown_of_predicates compiled, Compiler.isKnown_of_pathConditions pathCompiled⟩))
      patience session).bind_alone fun rows middle => ?_
    cases rows with
    | cons row rest => rfl
    | nil =>
      dsimp only
      split
      · rfl
      · rw [perform_bind, perform_require]
        cases path.pathItems <;> rfl

end Browser

end Olap
