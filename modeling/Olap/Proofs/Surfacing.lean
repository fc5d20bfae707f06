/-
How failures of a store come to the surface. What a reading fails with tells what the store said: a problem
of the library is passed on as it is, and everything else is reported with the statement. So there has to
be a statement of every query that is asked for, and there is one unless a limit is about two columns of
one name. Failing or not, a reading leaves the cuts alone, and it keeps the summaries that there were.
-/

import Olap.Proofs.Exchanges
import Olap.Proofs.Renderings

namespace Olap

/-- The fault of a failure that is not a problem of the library. -/
def Reason.fault : Reason → Fault
  | invalid details => .invalid details
  | outside failure => .outside failure

namespace Browser

open Olap.Action

variable {σ : Type} {b : Browser σ} {store : Store σ}

/-! ### What a reading leaves behind -/

/-- None but an aggregation changes the slice. -/
theorem slice_of_read (b : Browser σ) {reading : Reading} (other : ∀ call, reading ≠ .aggregate call)
    (session : Session σ) : (perform (b.read reading) session).2.slice = session.slice := by
  have keeps (q : Query) (patience : Patience) :=
    keeps_execute (· = session.slice) b q patience
  have kept : Keeps (· = session.slice) (b.read reading) := by
    cases reading with
    | aggregate call => exact absurd rfl (other call)
    | facts options overrides patience =>
      exact keeps_bind (keeps_bind (keeps_require _ _) fun _ => keeps_bind keeps_get fun _ =>
        keeps_bind (keeps_require _ _) fun _ => keeps_bind (keeps _ _) fun _ => keeps_pure _)
        fun _ => keeps_pure _
    | fact key patience =>
      refine keeps_bind (keeps_bind (keeps _ _) fun rows => ?_) fun _ => keeps_pure _
      cases rows with
      | nil => exact keeps_throw _
      | cons row rest => exact keeps_pure _
    | values dimension path options overrides hierarchy patience =>
      exact keeps_bind (keeps_bind (keeps_require _ _) fun _ => keeps_bind keeps_get fun _ =>
        keeps_bind (keeps_require _ _) fun _ => keeps _ _) fun _ => keeps_pure _
    | detail dimension path hierarchy patience =>
      refine keeps_bind (keeps_bind keeps_get fun _ => keeps_bind (keeps_require _ _) fun _ =>
        keeps_bind (keeps _ _) fun rows => ?_) fun _ => keeps_pure _
      cases rows with
      | cons row rest => exact keeps_pure _
      | nil =>
        dsimp only
        split
        · exact keeps_throw _
        · exact keeps_bind (keeps_require _ _) fun _ => keeps_throw _
  exact kept session rfl

theorem slice_of_read_aggregate (b : Browser σ) (call : AggregateCall) (session : Session σ) :
    (perform (b.read (.aggregate call)) session).2.slice =
      (perform (b.call call) session).2.slice := by
  show (perform (b.call call >>= fun result => pure (Answer.aggregation result)) session).2.slice = _
  rw [perform_bind]
  rcases perform (b.call call) session with ⟨fault | result, after⟩ <;> rfl

/-- A reading leaves the cuts as they are, whatever becomes of it. -/
theorem cuts_of_read (b : Browser σ) (reading : Reading) (session : Session σ) :
    (perform (b.read reading) session).2.slice.cuts = session.slice.cuts := by
  cases reading with
  | aggregate call =>
    rw [slice_of_read_aggregate]
    obtain refused | ⟨o, m, fields, accepts⟩ := b.accepts_or_not call
    · rw [perform_call_of_not_accepts refused]
    · rw [accepts.perform_call, slice_of_summary_drillDown, cuts_after_summary]
  | _ => rw [slice_of_read b (fun _ same => (by cases same))]

/-- Among the exchanges of an aggregation there is the one that a summary came of. -/
def Brings (b : Browser σ) (slice : Slice) (reading : Reading) (exchanges : List Exchange)
    (key : SummaryKey) (summary : Row) : Prop :=
  ∃ call o m fields query rows, reading = .aggregate call ∧ b.Accepts call o m fields ∧
    slice.summaryKey m.name o.operators = .ok key ∧
    b.compiler.summary slice.cuts (.ofOption m.name) o = .ok query ∧
    ⟨b.requestFor query call.patience, .ok rows⟩ ∈ exchanges ∧
    summary = summaryOf (rows.headD []) m.name o.operators

/-- The summaries stay, and at most the one that came of a request is added. -/
theorem summaries_of_read (present : b.store = some store) (session : Session σ) (reading : Reading) :
    (perform (b.read reading) session).2.slice.summaries = session.slice.summaries ∨
      ∃ key summary,
        (perform (b.read reading) session).2.slice.summaries =
          session.slice.summaries ++ [(key, summary)] ∧
        b.Brings session.slice reading
          (store.converse (b.plan session.slice reading) session.store).1 key summary := by
  cases reading with
  | aggregate call =>
    rw [slice_of_read_aggregate]
    obtain refused | ⟨o, m, fields, accepts⟩ := b.accepts_or_not call
    · rw [perform_call_of_not_accepts refused]
      exact .inl rfl
    · rw [accepts.perform_call, slice_of_summary_drillDown, plan_of_accepts accepts]
      obtain ⟨-, fault, failed⟩ | ⟨-, found, done⟩ |
        ⟨key, query, keyed, compiled, both, ⟨fault, log, -, failed⟩ | ⟨rows, log, replied, done⟩⟩ :=
        summary_by_store present m.name o call.patience session
      · rw [failed]
        exact .inl rfl
      · rw [done]
        exact .inl rfl
      · rw [failed]
        exact .inl rfl
      · rw [done, both, Store.converse_cons_of_ok replied]
        exact .inr ⟨key, _, rfl, call, o, m, fields, query, rows, rfl, accepts, keyed, compiled,
          List.mem_cons_self, rfl⟩
  | _ =>
    rw [slice_of_read b (fun _ same => (by cases same))]
    exact .inl rfl

/-! ### What a failure of the store comes to -/

theorem storeFault_reason (q : Query) (reason : Reason) :
    storeFault q reason.fault = executionFault q reason := by
  cases reason <;> rfl

section Faults

variable {q : Query} (hinges : q.HingesOnNames) (reason : Reason)

include hinges

/-- A failure is reported with the statement when the names are apart that a limit is about. -/
theorem executionFault_of_apart (apart : q.isDerived = true → q.aliases.Nodup) :
    ∃ text, statement q = .ok text ∧
      executionFault q reason = .problem (.statementFailed q.title reason text) := by
  obtain ⟨-, written⟩ | ⟨⟨derived, repeated⟩, -⟩ := hinges .generic
  · obtain ⟨text, written⟩ := exists_statement written
    exact ⟨text, written, by rw [executionFault, written]⟩
  · exact absurd (apart derived) repeated

/-- Otherwise there is no statement, and that is what is told. -/
theorem executionFault_of_repeated (derived : q.isDerived = true) (repeated : ¬q.aliases.Nodup) :
    executionFault q reason = .outside .sqlAmbiguous := by
  obtain ⟨apart, -⟩ | ⟨-, failed⟩ := hinges .generic
  · exact absurd (apart derived) repeated
  · have unwritten : statement q = .error (.outside .sqlAmbiguous) := by
      unfold statement Sql.text
      rw [failed]
      rfl
    rw [executionFault, unwritten]

end Faults

/-! ### What a reading asks for -/

variable {slice : Slice}

theorem mem_requestsFor {made : Result Query} {patience : Patience} {request : Request}
    (member : request ∈ b.requestsFor made patience) :
    made = .ok request.query := by
  cases made with
  | error fault => cases member
  | ok q =>
    cases List.mem_singleton.mp member
    rfl

theorem mem_drillRequests {cuts : List Cut} {measure : Option String} {o : AggregateOptions}
    {patience : Patience} {request : Request}
    (member : request ∈ b.drillRequests cuts measure o patience) :
    b.compiler.drill cuts (.ofOption measure) o = .ok (some request.query) := by
  unfold drillRequests at member
  split at member
  next => cases member
  next =>
    split at member
    next query made =>
      split at member
      next => cases member
      next =>
        cases List.mem_singleton.mp member
        exact made
    next => cases member

/-- The requests of an aggregation are for its summary and for its rows. -/
theorem mem_callRequests {measure : Option String} {o : AggregateOptions} {patience : Patience}
    {request : Request} (member : request ∈ b.callRequests slice measure o patience) :
    b.compiler.summary slice.cuts (.ofOption measure) o = .ok request.query ∨
      b.compiler.drill slice.cuts (.ofOption measure) o = .ok (some request.query) := by
  unfold callRequests at member
  split at member
  next => cases member
  next =>
    split at member
    next => exact .inr (mem_drillRequests member)
    next =>
      split at member
      next => cases member
      next q made =>
        obtain rfl | later := List.mem_cons.mp member
        · exact .inl made
        · exact .inr (mem_drillRequests later)

/-- Options that are given as an object were accepted when they were made. -/
def Reading.IsLawful (reading : Reading) : Prop :=
  ∀ call given, reading = .aggregate call → call.options = .object (.aggregateOptions given) →
    given.IsAccepted

/-- What a reading asks for is compiled from the cuts of the slice. -/
theorem makes_of_mem_plan {reading : Reading} (lawful : reading.IsLawful) {request : Request}
    (member : request ∈ b.plan slice reading) : b.compiler.Makes slice.cuts request.query := by
  cases reading with
  | aggregate call =>
    obtain refused | ⟨o, m, fields, accepts⟩ := b.accepts_or_not call
    · rw [plan_of_not_accepts refused] at member
      cases member
    · rw [plan_of_accepts accepts] at member
      have accepted : o.IsAccepted := AggregateOptions.isAccepted_of_accept
        (fun given same => lawful call given rfl same) accepts.accepted
      obtain made | made := mem_callRequests member
      · refine .inl ⟨.summary (.ofOption m.name) o, accepted, ?_⟩
        rw [Compiler.compile, made]
        rfl
      · exact .inl ⟨.drill (.ofOption m.name) o, accepted, made⟩
  | facts options overrides patience =>
    obtain ⟨o, -, made⟩ := Result.bind_ok.1 (mem_requestsFor member)
    refine .inl ⟨.facts o.base, trivial, ?_⟩
    rw [Compiler.compile, made]
    rfl
  | fact key patience => exact .inr ⟨key, (Except.ok.inj (mem_requestsFor member)).symm⟩
  | values dimension path options overrides hierarchy patience =>
    obtain ⟨o, -, made⟩ := Result.bind_ok.1 (mem_requestsFor member)
    refine .inl ⟨.values dimension path o.base hierarchy, trivial, ?_⟩
    rw [Compiler.compile, made]
    rfl
  | detail dimension path hierarchy patience =>
    refine .inl ⟨.detail dimension path hierarchy, trivial, ?_⟩
    rw [Compiler.compile, mem_requestsFor member]
    rfl

theorem label_of_summary {c : Compiler} {cuts : List Cut} {measure : Description}
    {o : AggregateOptions} {q : Query} (made : c.summary cuts measure o = .ok q) :
    q.label = "summary" := by
  obtain ⟨m, conditions, -, -, rfl⟩ := Compiler.summary_ok.1 made
  rfl

theorem label_of_drill {c : Compiler} {cuts : List Cut} {measure : Description}
    {o : AggregateOptions} {q : Query} (made : c.drill cuts measure o = .ok (some q)) :
    q.label = "drill" := by
  obtain ⟨-, m, conditions, attributes, order, -, -, rfl⟩ := Compiler.drill_ok.1 made
  unfold Compiler.drilled
  split <;> rfl

theorem length_requestsFor_le (b : Browser σ) (made : Result Query) (patience : Patience) :
    (b.requestsFor made patience).length ≤ 1 := by
  cases made with
  | ok q => exact Nat.le_refl 1
  | error fault => exact Nat.zero_le 1

theorem length_drillRequests_le (b : Browser σ) (cuts : List Cut) (measure : Option String)
    (o : AggregateOptions) (patience : Patience) :
    (b.drillRequests cuts measure o patience).length ≤ 1 := by
  unfold drillRequests
  repeat' split
  all_goals simp

theorem nodup_of_length_le_one {α : Type} {items : List α} (short : items.length ≤ 1) : items.Nodup := by
  match items with
  | [] => exact List.nodup_nil
  | [item] => exact List.nodup_singleton item

/-- No two requests of a plan are for the same thing. -/
theorem nodup_labels_plan (b : Browser σ) (slice : Slice) (reading : Reading) :
    ((b.plan slice reading).map (·.query.label)).Nodup := by
  have one {made : Result Query} {patience : Patience} :
      ((b.requestsFor made patience).map (·.query.label)).Nodup :=
    nodup_of_length_le_one (by rw [List.length_map]; exact length_requestsFor_le b made patience)
  cases reading with
  | aggregate call =>
    obtain refused | ⟨o, m, fields, accepts⟩ := b.accepts_or_not call
    · rw [plan_of_not_accepts refused]
      exact List.nodup_nil
    · have rows : ((b.drillRequests slice.cuts m.name o call.patience).map (·.query.label)).Nodup :=
        nodup_of_length_le_one (by
          rw [List.length_map]
          exact length_drillRequests_le b slice.cuts m.name o call.patience)
      rw [plan_of_accepts accepts]
      unfold callRequests
      split
      next => exact List.nodup_nil
      next =>
        split
        next => exact rows
        next =>
          split
          next => exact List.nodup_nil
          next q made =>
            refine List.nodup_cons.mpr ⟨fun member => ?_, rows⟩
            obtain ⟨request, among, same⟩ := List.mem_map.mp member
            rw [label_of_drill (mem_drillRequests among)] at same
            exact absurd (same.trans (label_of_summary made)) (by decide)
  | _ =>
    rw [plan]
    exact one

section Market

open Market

/-- A store that answers and then fails. -/
def losing : List Scripted := [.ok [[("record_count", .int 2)]], .error (.outside (.store "lost"))]

end Market

end Browser

end Olap
