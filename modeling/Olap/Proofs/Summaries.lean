/-
Kept summaries are true. A slice keeps the summaries that were computed for it and forgets them when
its cuts change, so what it keeps was computed for the cuts it has. A summary is found again by the
fingerprint, the measure and the operators, and the query for it depends on nothing else: neither the
levels that are drilled down to, nor order, pages or limits have a bearing on it. Hence a summary that
is found is one that the store has given for the very query that would be asked now.

What a store may answer is a relation between queries and rows; a store may fail whenever it likes.
-/

import Olap.Proofs.Session

namespace Olap

/-- All rows that the store gives for a query are an answer to it. It may also fail. -/
def Store.Answers {σ : Type} (store : Store σ) (answers : Query → List Row → Prop) : Prop :=
  ∀ request state rows,
    (store.execute request state).1.outcome = .ok rows → answers request.query rows

namespace Summaries

/-- A summary that is found was stored for the same measure and operators. -/
theorem exists_mem_of_find? {all : Summaries} {key : SummaryKey} {summary : Row}
    (found : all.find? key = some summary) :
    ∃ known, (known, summary) ∈ all ∧ known.measure = key.measure ∧
      known.operators = key.operators := by
  unfold find? at found
  rw [Option.map_eq_some_iff] at found
  obtain ⟨⟨known, stored⟩, first, rfl⟩ := found
  have same := List.find?_some first
  rw [SummaryKey.same, Bool.and_eq_true, Bool.and_eq_true, beq_iff_eq, beq_iff_eq] at same
  exact ⟨known, List.mem_of_find?_eq_some first, same.1.2, same.2⟩

theorem mem_put {all : Summaries} {key known : SummaryKey} {summary stored : Row}
    (member : (known, stored) ∈ all.put key summary) :
    (known, stored) ∈ all ∨
      stored = summary ∧ known.measure = key.measure ∧ known.operators = key.operators := by
  induction all with
  | nil =>
    rw [put, List.mem_singleton, Prod.mk.injEq] at member
    obtain ⟨rfl, rfl⟩ := member
    exact Or.inr ⟨rfl, rfl, rfl⟩
  | cons entry rest inductionHypothesis =>
    rw [put] at member
    split at member
    · rename_i same
      rw [SummaryKey.same, Bool.and_eq_true, Bool.and_eq_true, beq_iff_eq, beq_iff_eq] at same
      rcases List.mem_cons.mp member with head | tail
      · rw [Prod.mk.injEq] at head
        obtain ⟨rfl, rfl⟩ := head
        exact Or.inr ⟨rfl, same.1.2, same.2⟩
      · exact Or.inl (List.mem_cons_of_mem _ tail)
    · rcases List.mem_cons.mp member with head | tail
      · exact Or.inl (head ▸ List.mem_cons_self)
      · exact (inductionHypothesis tail).imp_left (List.mem_cons_of_mem _)

end Summaries

/-- Of all options only the operators count for the query of a summary. -/
theorem Compiler.summary_congr (c : Compiler) (cuts : List Cut) (measure : Description)
    {o p : AggregateOptions} (same : o.operators = p.operators) :
    c.summary cuts measure o = c.summary cuts measure p := by
  unfold summary
  rw [same]

namespace Browser

open Olap.Action

variable {σ : Type}

/-! ### True summaries -/

/-- The summary was put together from an answer to the query for it. -/
def IsSummary (b : Browser σ) (answers : Query → List Row → Prop) (cuts : List Cut)
    (measure : Option String) (operators : List String) (summary : Row) : Prop :=
  ∃ o query rows, o.operators = operators ∧
    b.compiler.summary cuts (.ofOption measure) o = .ok query ∧ b.CanAnnounce query ∧
    answers query rows ∧ summary = summaryOf (rows.headD []) measure operators

/-- All summaries that a slice has kept are summaries of its cuts. -/
def KeepsTrue (b : Browser σ) (answers : Query → List Row → Prop) (slice : Slice) : Prop :=
  ∀ entry ∈ slice.summaries,
    b.IsSummary answers slice.cuts entry.1.measure entry.1.operators entry.2

/-- A slice without summaries keeps nothing false. -/
theorem keepsTrue_of_nil (b : Browser σ) (answers : Query → List Row → Prop) {slice : Slice}
    (empty : slice.summaries = []) : b.KeepsTrue answers slice := by
  intro entry member
  rw [empty] at member
  cases member

variable {b : Browser σ} {answers : Query → List Row → Prop} {slice : Slice}

/-- What is found among true summaries is one for the measure and the operators asked for. -/
theorem KeepsTrue.isSummary_of_find? (kept : b.KeepsTrue answers slice) {key : SummaryKey}
    {summary : Row} (found : slice.summaries.find? key = some summary) :
    b.IsSummary answers slice.cuts key.measure key.operators summary := by
  obtain ⟨known, member, measure, operators⟩ := Summaries.exists_mem_of_find? found
  rw [← measure, ← operators]
  exact kept _ member

/-- One more summary of the cuts may be kept. -/
theorem KeepsTrue.put (kept : b.KeepsTrue answers slice) {key : SummaryKey} {summary : Row}
    (computed : b.IsSummary answers slice.cuts key.measure key.operators summary) :
    b.KeepsTrue answers { slice with summaries := slice.summaries.put key summary } := by
  rintro ⟨known, stored⟩ member
  rcases Summaries.mem_put member with old | ⟨rfl, measure, operators⟩
  · exact kept _ old
  · show b.IsSummary answers slice.cuts known.measure known.operators stored
    rw [measure, operators]
    exact computed

/-! ### Summaries in a session -/

theorem summaryKey_parts {measure : Option String} {operators : List String} {key : SummaryKey}
    (keyed : slice.summaryKey measure operators = .ok key) :
    key.measure = measure ∧ key.operators = operators := by
  unfold Slice.summaryKey at keyed
  obtain ⟨fingerprint, -, rest⟩ := Result.bind_ok.1 keyed
  split at rest
  · cases rest
  · cases rest
    exact ⟨rfl, rfl⟩

/-- The three ways in which a summary is asked for: it fails and the slice stays as it is, or it is
found, or it is computed and kept. -/
theorem summary_cases (b : Browser σ) (measure : Option String) (o : AggregateOptions)
    (patience : Patience) (session : Session σ) :
    (∃ fault after, perform (b.summary measure o patience) session = (.error fault, after) ∧
        after.slice = session.slice) ∨
      (∃ key found, session.slice.summaryKey measure o.operators = .ok key ∧
        session.slice.summaries.find? key = some found ∧
        perform (b.summary measure o patience) session = (.ok found, session)) ∨
      ∃ key query rows after, session.slice.summaryKey measure o.operators = .ok key ∧
        b.compiler.summary session.slice.cuts (.ofOption measure) o = .ok query ∧
        (∃ middle, perform (b.execute query patience) session = (.ok rows, middle)) ∧
        perform (b.summary measure o patience) session =
          (.ok (summaryOf (rows.headD []) measure o.operators), after) ∧
        after.slice = { session.slice with
          summaries := session.slice.summaries.put key
            (summaryOf (rows.headD []) measure o.operators) } := by
  unfold summary
  simp only [perform_bind, perform_get, perform_require]
  cases keyed : session.slice.summaryKey measure o.operators with
  | error fault => exact Or.inl ⟨fault, session, rfl, rfl⟩
  | ok key =>
    cases looked : session.slice.summaries.find? key with
    | some found => exact Or.inr (Or.inl ⟨key, found, rfl, looked, by simp only [looked]; rfl⟩)
    | none =>
      simp only [looked, perform_bind, perform_require]
      cases compiled : b.compiler.summary session.slice.cuts (.ofOption measure) o with
      | error fault => exact Or.inl ⟨fault, session, rfl, rfl⟩
      | ok query =>
        have stays := keeps_execute (· = session.slice) b query patience session rfl
        rcases done : perform (b.execute query patience) session with ⟨fault | rows, middle⟩
        · rw [done] at stays
          exact Or.inl ⟨fault, middle, by simp only [done], stays⟩
        · rw [done] at stays
          refine Or.inr (Or.inr ⟨key, query, rows, _, rfl, rfl, ⟨middle, done⟩,
            by simp only [done, perform_modify]; rfl, ?_⟩)
          rw [← stays]

theorem summaryKey_of_summary {b : Browser σ} {measure : Option String} {o : AggregateOptions}
    {patience : Patience} {session after : Session σ} {summary : Row}
    (done : perform (b.summary measure o patience) session = (.ok summary, after)) :
    ∃ key, session.slice.summaryKey measure o.operators = .ok key := by
  unfold Browser.summary at done
  simp only [perform_bind_ok, perform_require_ok, perform_get, Prod.mk.injEq,
    Except.ok.injEq] at done
  obtain ⟨_, _, ⟨rfl, rfl⟩, key, _, ⟨keyed, -⟩, -⟩ := done
  exact ⟨key, keyed⟩

/-- A summary leaves the cuts as they are. -/
theorem cuts_of_summary {b : Browser σ} {measure : Option String} {o : AggregateOptions}
    {patience : Patience} {session after : Session σ} {summary : Row}
    (done : perform (b.summary measure o patience) session = (.ok summary, after)) :
    after.slice.cuts = session.slice.cuts := by
  rcases summary_cases b measure o patience session with
    ⟨_, _, failed, -⟩ | ⟨_, _, -, -, came⟩ | ⟨_, _, _, _, -, -, -, came, changed⟩
  · rw [failed] at done
    cases done
  · rw [came] at done
    cases done
    rfl
  · rw [came] at done
    cases done
    rw [changed]

/-- The store of a browser, if it has one, gives only answers. -/
def StoreAnswers (b : Browser σ) (answers : Query → List Row → Prop) : Prop :=
  ∀ store, b.store = some store → store.Answers answers

/-- A query that was executed could be announced and has an answer. -/
theorem StoreAnswers.of_execute (given : b.StoreAnswers answers) {q : Query}
    {patience : Patience} {session after : Session σ} {rows : List Row}
    (done : perform (b.execute q patience) session = (.ok rows, after)) :
    b.CanAnnounce q ∧ answers q rows := by
  obtain ⟨store, state, present, announced, answered⟩ := execute_ok done
  exact ⟨announced, given store present _ state rows answered⟩

/-- The summary of a slice whose summaries are true is a summary of its cuts, whether it was found
or computed. -/
theorem StoreAnswers.of_summary (given : b.StoreAnswers answers) {measure : Option String}
    {o : AggregateOptions} {patience : Patience} {session after : Session σ} {summary : Row}
    (kept : b.KeepsTrue answers session.slice)
    (done : perform (b.summary measure o patience) session = (.ok summary, after)) :
    b.IsSummary answers session.slice.cuts measure o.operators summary := by
  rcases summary_cases b measure o patience session with
    ⟨_, _, failed, -⟩ | ⟨key, found, keyed, looked, came⟩ |
    ⟨key, query, rows, _, -, compiled, ⟨_, executed⟩, came, -⟩
  · rw [failed] at done
    cases done
  · rw [came] at done
    cases done
    obtain ⟨measured, operated⟩ := summaryKey_parts keyed
    rw [← measured, ← operated]
    exact kept.isSummary_of_find? looked
  · rw [came] at done
    cases done
    obtain ⟨announced, answered⟩ := given.of_execute executed
    exact ⟨o, query, rows, rfl, compiled, announced, answered, rfl⟩

/-- A summary that is kept is handed out. -/
theorem perform_summary_of_find? {measure : Option String} {o : AggregateOptions}
    {session : Session σ} {key : SummaryKey} {found : Row}
    (keyed : session.slice.summaryKey measure o.operators = .ok key)
    (looked : session.slice.summaries.find? key = some found) (patience : Patience) :
    perform (b.summary measure o patience) session = (.ok found, session) := by
  unfold summary
  simp only [perform_bind, perform_get, perform_require, keyed, looked]
  rfl

/-- Where none is kept, the summary is made of the row that is found for its query. -/
theorem exists_perform_summary_of_execute {measure : Option String} {o : AggregateOptions}
    {patience : Patience} {session : Session σ} {state : σ} {log : List LogLine} {key : SummaryKey}
    {query : Query} {rows : List Row}
    (keyed : session.slice.summaryKey measure o.operators = .ok key)
    (missing : session.slice.summaries.find? key = none)
    (compiled : b.compiler.summary session.slice.cuts (.ofOption measure) o = .ok query)
    (executed : perform (b.execute query patience) session =
      (.ok rows, ⟨session.slice, state, log⟩)) :
    ∃ after, perform (b.summary measure o patience) session =
        (.ok (summaryOf (rows.headD []) measure o.operators), after) ∧
      after.slice.cuts = session.slice.cuts := by
  unfold summary
  simp only [perform_bind, perform_get, perform_require, keyed, missing, compiled, executed,
    perform_modify]
  exact ⟨_, rfl, rfl⟩

/-- A summary of the cuts succeeds when the store answers the query for it, and only one answer is
possible: then it does not matter whether the summary was kept. -/
theorem perform_summary {store : Store σ} {measure : Option String} {o : AggregateOptions}
    {patience : Patience} {session : Session σ} {key : SummaryKey} {query : Query}
    {rows : List Row} (present : b.store = some store)
    (kept : b.KeepsTrue answers session.slice)
    (keyed : session.slice.summaryKey measure o.operators = .ok key)
    (compiled : b.compiler.summary session.slice.cuts (.ofOption measure) o = .ok query)
    (announced : b.CanAnnounce query)
    (answered : ∀ state,
      (store.execute (b.requestFor query patience) state).1.outcome = .ok rows)
    (only : ∀ others, answers query others → others = rows) :
    ∃ after, perform (b.summary measure o patience) session =
        (.ok (summaryOf (rows.headD []) measure o.operators), after) ∧
      after.slice.cuts = session.slice.cuts := by
  rcases looked : session.slice.summaries.find? key with _ | found
  · obtain ⟨state, log, executed⟩ := perform_execute present announced answered session
    exact exists_perform_summary_of_execute keyed looked compiled executed
  · refine ⟨session, (perform_summary_of_find? keyed looked patience).trans ?_, rfl⟩
    obtain ⟨measured, operated⟩ := summaryKey_parts keyed
    obtain ⟨p, asked, others, operators, compiledThen, -, answeredThen, rfl⟩ :=
      kept.isSummary_of_find? looked
    rw [measured, b.compiler.summary_congr _ _ (operators.trans operated), compiled] at compiledThen
    cases compiledThen
    rw [only others answeredThen, measured, operated]

/-- A slice with certain cuts and true summaries of them. -/
def IsTrueOf (b : Browser σ) (answers : Query → List Row → Prop) (cuts : List Cut)
    (slice : Slice) : Prop :=
  slice.cuts = cuts ∧ b.KeepsTrue answers slice

/-- Asking for a summary keeps the cuts, and what is kept stays true. -/
theorem StoreAnswers.keeps_summary (given : b.StoreAnswers answers) (cuts : List Cut)
    (measure : Option String) (o : AggregateOptions) (patience : Patience) :
    Keeps (b.IsTrueOf answers cuts) (b.summary measure o patience) := by
  rintro session ⟨same, kept⟩
  rcases summary_cases b measure o patience session with
    ⟨_, _, failed, stays⟩ | ⟨_, _, -, -, came⟩ |
    ⟨key, query, rows, after, keyed, compiled, ⟨_, executed⟩, came, changed⟩
  · rw [failed, stays]
    exact ⟨same, kept⟩
  · rw [came]
    exact ⟨same, kept⟩
  · rw [came, changed]
    obtain ⟨announced, answered⟩ := given.of_execute executed
    obtain ⟨measured, operated⟩ := summaryKey_parts keyed
    refine ⟨same, kept.put ?_⟩
    rw [measured, operated]
    exact ⟨o, query, rows, rfl, compiled, announced, answered, rfl⟩

theorem keeps_drillDown (property : Slice → Prop) (b : Browser σ) (measure : Option String)
    (o : AggregateOptions) (computed : List ComputedField) (summary : Row)
    (patience : Patience) :
    Keeps property (b.drillDown measure o computed summary patience) := by
  refine keeps_bind keeps_get fun session => keeps_bind (keeps_require property _) fun drilled => ?_
  cases drilled with
  | none => exact keeps_pure _
  | some query =>
    exact keeps_bind (keeps_execute property b query patience) fun _ => keeps_require property _

/-- Aggregating keeps the cuts, and what is kept stays true, even when the call fails. -/
theorem StoreAnswers.keeps_aggregate (given : b.StoreAnswers answers) (cuts : List Cut)
    (measure options : Description) (overrides : Fields Part)
    (computed : Result (List ComputedField)) (patience : Patience) :
    Keeps (b.IsTrueOf answers cuts) (b.aggregate measure options overrides computed patience) :=
  keeps_bind (keeps_require _ _) fun _ => keeps_bind (keeps_require _ _) fun _ =>
    keeps_bind (keeps_require _ _) fun _ =>
      keeps_bind (given.keeps_summary cuts _ _ _) fun _ => keeps_drillDown _ _ _ _ _ _ _

/-! ### What an aggregation comes to -/

/-- A result without rows. -/
def bareResult (b : Browser σ) (measure : Option String) (o : AggregateOptions)
    (summary : Row) (cuts : List Cut) : Aggregation :=
  { cube := some b.cube, measure, summary, options := o, cuts, rows := [], remainder := [] }

/-- Without a limit a result has the finished rows. -/
theorem withRows_unlimited (bare : Aggregation) (unlimited : bare.options.hasLimit = false)
    (computed : List ComputedField) (found : List Row) :
    withRows bare computed found =
      (finishRows bare.measure bare.options computed found).map fun rows => { bare with rows } := by
  unfold withRows
  rw [unlimited]
  cases finishRows bare.measure bare.options computed found <;> rfl

/-- With a limit it has the finished rows and what they leave out of the summary. -/
theorem withRows_limited (bare : Aggregation) (limited : bare.options.hasLimit = true)
    {computed : List ComputedField} {found rows : List Row}
    (finished : finishRows bare.measure bare.options computed found = .ok rows) :
    withRows bare computed found =
      (remainderOf bare.summary rows bare.measure bare.options.operators).map fun remainder =>
        { bare with rows, remainder } := by
  unfold withRows
  rw [finished, limited]
  show (remainderOf bare.summary rows bare.measure bare.options.operators >>= fun remainder =>
    pure { bare with rows, remainder }) = _
  cases remainderOf bare.summary rows bare.measure bare.options.operators <;> rfl

/-- The finished rows, with what they leave out, are all that is added to a result. -/
theorem withRows_ok {bare a : Aggregation} {computed : List ComputedField} {found : List Row}
    (made : withRows bare computed found = .ok a) :
    ∃ rows remainder, finishRows bare.measure bare.options computed found = .ok rows ∧
      a = { bare with rows, remainder } := by
  obtain ⟨rows, finished, made⟩ := Result.bind_ok.1 made
  split at made
  · obtain ⟨remainder, -, made⟩ := Result.bind_ok.1 made
    exact ⟨rows, remainder, finished, (Except.ok.inj made).symm⟩
  · exact ⟨rows, bare.remainder, finished, (Except.ok.inj made).symm⟩

/-- Without levels to drill down to the result is bare; with some it has the rows of one query. -/
theorem drillDown_ok {measure : Option String} {o : AggregateOptions}
    {computed : List ComputedField} {summary : Row} {patience : Patience}
    {session after : Session σ} {a : Aggregation} :
    perform (b.drillDown measure o computed summary patience) session = (.ok a, after) ↔
      (b.compiler.drill session.slice.cuts (.ofOption measure) o = .ok none ∧
          a = b.bareResult measure o summary session.slice.cuts ∧ session = after) ∨
        ∃ query found, b.compiler.drill session.slice.cuts (.ofOption measure) o =
            .ok (some query) ∧
          perform (b.execute query patience) session = (.ok found, after) ∧
          withRows (b.bareResult measure o summary session.slice.cuts) computed found = .ok a := by
  unfold drillDown
  simp only [perform_bind, perform_get, perform_require]
  cases b.compiler.drill session.slice.cuts (.ofOption measure) o with
  | error fault => simp
  | ok drilled =>
    cases drilled with
    | none => simp [perform_pure, bareResult, eq_comm]
    | some query =>
      simp only [perform_bind_ok, perform_require_ok, bareResult]
      constructor
      · rintro ⟨found, middle, executed, extended, rfl⟩
        exact Or.inr ⟨query, found, rfl, executed, extended⟩
      · rintro (⟨none, -⟩ | ⟨_, found, ⟨⟩, executed, extended⟩)
        · cases none
        · exact ⟨found, after, executed, extended, rfl⟩

/-- An aggregation succeeds when what is given is accepted, there is a summary, and drilling down
succeeds. -/
theorem aggregate_ok {measure options : Description} {overrides : Fields Part}
    {computed : Result (List ComputedField)} {patience : Patience} {session after : Session σ}
    {a : Aggregation} :
    perform (b.aggregate measure options overrides computed patience) session = (.ok a, after) ↔
      ∃ o m fields summary middle, AggregateOptions.accept options overrides = .ok o ∧
        b.cube.measure measure = .ok m ∧ computed = .ok fields ∧
        perform (b.summary m.name o patience) session = (.ok summary, middle) ∧
        perform (b.drillDown m.name o fields summary patience) middle = (.ok a, after) := by
  unfold aggregate
  simp only [perform_bind_ok, perform_require_ok]
  constructor
  · rintro ⟨o, _, ⟨accepted, rfl⟩, m, _, ⟨known, rfl⟩, fields, _, ⟨given, rfl⟩, summary, middle,
      summed, drilled⟩
    exact ⟨o, m, fields, summary, middle, accepted, known, given, summed, drilled⟩
  · rintro ⟨o, m, fields, summary, middle, accepted, known, given, summed, drilled⟩
    exact ⟨o, _, ⟨accepted, rfl⟩, m, _, ⟨known, rfl⟩, fields, _, ⟨given, rfl⟩, summary, middle,
      summed, drilled⟩

/-- The result of an aggregation is about the cube and the cuts of the slice in use, and it has either no
rows, because there is nothing to drill down to, or the finished rows of one query. -/
theorem rows_of_aggregate {measure options : Description} {overrides : Fields Part}
    {computed : Result (List ComputedField)} {patience : Patience} {session after : Session σ}
    {a : Aggregation}
    (done : perform (b.aggregate measure options overrides computed patience) session = (.ok a, after)) :
    ∃ m fields, AggregateOptions.accept options overrides = .ok a.options ∧
      b.cube.measure measure = .ok m ∧ computed = .ok fields ∧ a.cube = some b.cube ∧
      a.cuts = session.slice.cuts ∧
      (b.compiler.drill a.cuts (.ofOption m.name) a.options = .ok none ∧ a.rows = [] ∨
        ∃ query found middle, b.compiler.drill a.cuts (.ofOption m.name) a.options = .ok (some query) ∧
          perform (b.execute query patience) middle = (.ok found, after) ∧
          finishRows m.name a.options fields found = .ok a.rows) := by
  obtain ⟨o, m, fields, summary, middle, accepted, known, given, summed, drilled⟩ := aggregate_ok.1 done
  refine ⟨m, fields, ?_⟩
  rcases drillDown_ok.1 drilled with ⟨bare, rfl, -⟩ | ⟨query, found, compiled, executed, made⟩
  · exact ⟨accepted, known, given, rfl, cuts_of_summary summed, Or.inl ⟨bare, rfl⟩⟩
  · obtain ⟨rows, remainder, finished, rfl⟩ := withRows_ok made
    exact ⟨accepted, known, given, rfl, cuts_of_summary summed,
      Or.inr ⟨query, found, middle, compiled, executed, finished⟩⟩

end Browser

end Olap
