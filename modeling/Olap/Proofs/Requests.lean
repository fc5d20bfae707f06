/-
What a store is asked for. A summary is asked for once and kept until the cuts of the slice change, so
that a store is not asked again for what is known already. What is kept are the summaries that calls came
to have since the slice was made or changed, and nothing else: a statement that fails leaves nothing
behind and is asked for again by the next call that needs it. The rows of a drill-down are not kept, so
every call that has its summary asks for them, once. A statement that is logged has to be written first,
and what can not be written is not asked for.
-/

import Mathlib
import Olap.Proofs.Cuts
import Olap.Proofs.Family
import Olap.Proofs.Statements

namespace Olap

/-! ### Summaries that are found -/

namespace Datum

theorem equal_int_self (i : Int) : (Number.int i).equal (.int i) = true := by
  have place : (Number.int i).place? = some (.finite (i * Decimal.unitsPerOne)) := rfl
  unfold Number.equal
  rw [place]
  exact beq_self_eq_true (Place.finite _)

/-- A value that can be part of a key is found again, even when it is no number. -/
theorem alikeBy_self {value : Value} (key : Cut.isKeyValue value = true) :
    value.alikeBy true value = true := by
  cases value with
  | null | wildcard => rfl
  | bool b => exact equal_int_self _
  | int i => exact equal_int_self i
  | float x =>
    -- A float that is not equal to itself is found as the same object.
    show ((Number.float x).equal (.float x) || (true && x.toBits == x.toBits)) = true
    rw [beq_self_eq_true, Bool.and_true, Bool.or_true]
  | text s => exact beq_self_eq_true s
  | direction d => exact beq_self_eq_true d.name
  | list | record => cases key
  | object o => exact nomatch o

theorem alikeItems_self {items : List Value} (each : ∀ item ∈ items, item.alikeBy true item = true) :
    alikeItems true items items = true := by
  induction items with
  | nil => rfl
  | cons item rest inductionHypothesis =>
    obtain ⟨first, others⟩ := List.forall_mem_cons.mp each
    rw [alikeItems, first, inductionHypothesis others]
    rfl

end Datum

namespace Cut

theorem isKeyValue_describeElement {value : Value} (key : isKeyValue value = true) :
    isKeyValue (describeElement value) = true := by
  cases value with
  | wildcard => rfl
  | _ => exact key

theorem alikeBy_describePath_self {path : List Value} (keys : ∀ value ∈ path, isKeyValue value = true) :
    (describePath path).alikeBy true (describePath path) = true := by
  refine Datum.alikeItems_self fun item member => ?_
  obtain ⟨value, inside, rfl⟩ := List.mem_map.mp member
  exact Datum.alikeBy_self (isKeyValue_describeElement (keys value inside))

/-- The fingerprint of a cut that can be used as a key is found again. -/
theorem alikeBy_fingerprint_self {c : Cut} {mark : Value} (hashable : c.isHashable = true)
    (marked : c.fingerprint = .ok mark) : mark.alikeBy true mark = true := by
  have keys := List.all_eq_true.mp hashable
  have content : Datum.alikeItems true c.content c.content = true := by
    cases c with
    | point _ _ path =>
      exact Datum.alikeItems_self (List.forall_mem_singleton.mpr (alikeBy_describePath_self keys))
    | range _ _ low high =>
      exact Datum.alikeItems_self fun item member => Datum.alikeBy_self (keys item member)
    | set _ _ paths =>
      refine Datum.alikeItems_self (List.forall_mem_singleton.mpr (Datum.alikeItems_self ?_))
      intro item member
      obtain ⟨path, inside, rfl⟩ := List.mem_map.mp member
      exact alikeBy_describePath_self fun value member => keys value (List.mem_flatten_of_mem inside member)
    | bare => rfl
  have same : c.mark.alikeBy true c.mark = true := by
    rw [alikeBy_mark, content]
    simp
  cases c with
  | bare => cases marked
  | _ =>
    cases marked
    exact same

end Cut

namespace Slice

variable {slice other : Slice} {measure : Option String} {operators : List String} {key : SummaryKey}

/-- Keys of a slice are the same when they are for the same measure and the same operators. -/
theorem same_summaryKey {another : Option String} {more : List String} {anotherKey : SummaryKey}
    (keyed : slice.summaryKey measure operators = .ok key)
    (keyedToo : slice.summaryKey another more = .ok anotherKey) :
    key.same anotherKey = true ↔ measure = another ∧ operators = more := by
  unfold summaryKey at keyed keyedToo
  obtain ⟨marks, marked, made⟩ := Result.bind_ok.1 keyed
  obtain ⟨_, markedToo, madeToo⟩ := Result.bind_ok.1 keyedToo
  cases marked.symm.trans markedToo
  split at made
  · cases made
  · rename_i hashable
    rw [if_neg hashable] at madeToo
    cases made
    cases madeToo
    have found : Datum.alikeItems true marks marks = true := by
      refine Datum.alikeItems_self fun mark member => ?_
      obtain ⟨c, inside, own⟩ := exists_of_mem_allOf marked member
      have all : slice.cuts.all Cut.isHashable = true := by simpa [isHashable] using hashable
      exact Cut.alikeBy_fingerprint_self (List.all_eq_true.mp all c inside) own
    unfold SummaryKey.same
    rw [found, Bool.true_and, Bool.and_eq_true, beq_iff_eq, beq_iff_eq]

/-- A slice that has one key has one for every measure and all operators. -/
theorem exists_summaryKey (keyed : slice.summaryKey measure operators = .ok key)
    (another : Option String) (more : List String) :
    ∃ anotherKey, slice.summaryKey another more = .ok anotherKey := by
  unfold summaryKey at keyed ⊢
  obtain ⟨marks, marked, made⟩ := Result.bind_ok.1 keyed
  split at made
  · cases made
  · rename_i hashable
    rw [marked]
    exact ⟨_, if_neg hashable⟩

theorem summaryKey_congr (same : slice.cuts = other.cuts) (measure : Option String)
    (operators : List String) : slice.summaryKey measure operators = other.summaryKey measure operators := by
  unfold summaryKey fingerprint isHashable
  rw [same]

end Slice

namespace Summaries

variable {all : Summaries} {key other : SummaryKey} {summary : Row}

theorem put_of_find?_eq_none (missing : all.find? key = none) :
    all.put key summary = all ++ [(key, summary)] := by
  induction all with
  | nil => rfl
  | cons entry rest inductionHypothesis =>
    unfold find? at missing
    rw [Option.map_eq_none_iff, List.find?_cons] at missing
    rw [put]
    split at missing
    · cases missing
    · rename_i different
      rw [different, if_neg Bool.false_ne_true,
        inductionHypothesis (Option.map_eq_none_iff.mpr missing)]
      rfl

/-- After a summary was put among those that are kept, it is found as well as what was found before. -/
theorem isSome_find?_put (missing : all.find? key = none) :
    ((all.put key summary).find? other).isSome = true ↔
      (all.find? other).isSome = true ∨ key.same other = true := by
  rw [put_of_find?_eq_none missing]
  unfold find?
  rw [Option.isSome_map, Option.isSome_map, List.find?_isSome, List.find?_isSome]
  simp

end Summaries

/-! ### What happens with a slice -/

/-- Something that happens with the slice in use: its cuts are changed, or it is aggregated. -/
inductive Event
  | change (change : Change)
  | aggregate (call : AggregateCall)

/-- Whether the slice is changed. Only what is no cut is refused. -/
def Event.isChange : Event → Bool
  | .change (.addCut (.other _)) => false
  | .change _ => true
  | .aggregate _ => false

theorem Event.exists_apply_of_isChange {change : Change} (changes : (Event.change change).isChange = true)
    (slice : Slice) : ∃ changed, change.apply slice = .ok changed := by
  cases change with
  | addCut argument =>
    cases argument with
    | cut c => exact ⟨_, rfl⟩
    | other type => cases changes
  | removeCuts dimension => exact ⟨_, rfl⟩

theorem Event.exists_apply_error {change : Change} (refused : (Event.change change).isChange = false)
    (slice : Slice) : ∃ fault, change.apply slice = .error fault := by
  cases change with
  | addCut argument =>
    cases argument with
    | cut c => cases refused
    | other type => exact ⟨_, rfl⟩
  | removeCuts dimension => cases refused

namespace Browser

open Olap.Action

variable {σ : Type}

/-- The session after an event. A change that is refused changes nothing, and a call that fails leaves what
it came to. -/
def occur (b : Browser σ) (session : Session σ) : Event → Session σ
  | .change change =>
    match change.apply session.slice with
    | .ok slice => { session with slice }
    | .error _ => session
  | .aggregate call => ((b.call call).perform session).2

/-- The session after one event after the other. -/
def occurAll (b : Browser σ) (session : Session σ) (history : List Event) : Session σ :=
  history.foldl b.occur session

/-- A call is accepted as it is given, and goes on to its summary. -/
structure Accepts (b : Browser σ) (call : AggregateCall) (o : AggregateOptions) (m : Attribute)
    (fields : List ComputedField) : Prop where
  accepted : AggregateOptions.accept call.options call.overrides = .ok o
  measured : b.cube.measure call.measure = .ok m
  computed : call.computed = .ok fields

/-- In a session, a call comes to have the summary of a measure by some operators, found or asked for. -/
def Completes (b : Browser σ) (session : Session σ) (call : AggregateCall) (measure : Option String)
    (operators : List String) : Prop :=
  ∃ o m fields, b.Accepts call o m fields ∧ m.name = measure ∧ o.operators = operators ∧
    ∃ summary, (perform (b.summary m.name o call.patience) session).1 = .ok summary

/-- Since the slice was made or changed for the last time, some call came to have the summary of a measure
by some operators. -/
def IsCompleted (b : Browser σ) (start : Session σ) (history : List Event) (measure : Option String)
    (operators : List String) : Prop :=
  ∃ before call later, history = before ++ .aggregate call :: later ∧
    (∀ event ∈ later, event.isChange = false) ∧
    b.Completes (b.occurAll start before) call measure operators

variable {b : Browser σ} {start session : Session σ} {history : List Event} {call : AggregateCall}
  {measure : Option String} {operators : List String} {o : AggregateOptions} {m : Attribute}
  {fields : List ComputedField} {patience : Patience}

theorem occurAll_concat (b : Browser σ) (start : Session σ) (history : List Event) (event : Event) :
    b.occurAll start (history ++ [event]) = b.occur (b.occurAll start history) event :=
  List.foldl_concat _ _ _ _

theorem occur_aggregate (b : Browser σ) (session : Session σ) (call : AggregateCall) :
    b.occur session (.aggregate call) = (perform (b.call call) session).2 := rfl

/-- With one more event, what was completed before stays completed unless the event is a change. -/
theorem isCompleted_concat {event : Event} :
    b.IsCompleted start (history ++ [event]) measure operators ↔
      event.isChange = false ∧ b.IsCompleted start history measure operators ∨
        ∃ call, event = .aggregate call ∧
          b.Completes (b.occurAll start history) call measure operators := by
  constructor
  · rintro ⟨before, call, later, same, unchanged, completes⟩
    -- Either the call is the new event itself, or the new event is the last one after it.
    rcases List.eq_nil_or_concat later with rfl | ⟨others, last, rfl⟩
    · obtain ⟨rfl, single⟩ := List.append_inj' same rfl
      exact Or.inr ⟨call, List.singleton_injective single, completes⟩
    · rw [List.concat_eq_append, ← List.cons_append, ← List.append_assoc] at same
      rw [List.concat_eq_append] at unchanged
      obtain ⟨rfl, single⟩ := List.append_inj' same rfl
      cases List.singleton_injective single
      exact Or.inl ⟨unchanged _ List.mem_concat_self, before, call, others, rfl,
        fun other member => unchanged other (List.mem_append_left _ member), completes⟩
  · rintro (⟨unchanged, before, call, later, rfl, others, completes⟩ | ⟨call, rfl, completes⟩)
    · refine ⟨before, call, later ++ [event], by simp, ?_, completes⟩
      intro other member
      rcases List.mem_append.mp member with old | new
      · exact others other old
      · rwa [List.mem_singleton.mp new]
    · exact ⟨history, call, [], rfl, List.forall_mem_nil _, completes⟩

theorem isCompleted_concat_change {change : Change} :
    b.IsCompleted start (history ++ [Event.change change]) measure operators ↔
      (Event.change change).isChange = false ∧ b.IsCompleted start history measure operators := by
  rw [isCompleted_concat]
  refine or_iff_left ?_
  rintro ⟨_, ⟨⟩, -⟩

theorem isCompleted_concat_aggregate :
    b.IsCompleted start (history ++ [Event.aggregate call]) measure operators ↔
      b.IsCompleted start history measure operators ∨
        b.Completes (b.occurAll start history) call measure operators := by
  rw [isCompleted_concat]
  refine or_congr (and_iff_right rfl) ⟨?_, fun completes => ⟨call, rfl, completes⟩⟩
  rintro ⟨_, ⟨⟩, completes⟩
  exact completes

/-! ### Summaries that are kept -/

theorem Accepts.unique {p : AggregateOptions} {n : Attribute} {others : List ComputedField}
    (accepts : b.Accepts call o m fields) (acceptsToo : b.Accepts call p n others) :
    o = p ∧ m = n ∧ fields = others :=
  ⟨Except.ok.inj (accepts.accepted.symm.trans acceptsToo.accepted),
    Except.ok.inj (accepts.measured.symm.trans acceptsToo.measured),
    Except.ok.inj (accepts.computed.symm.trans acceptsToo.computed)⟩

theorem completes_iff (accepts : b.Accepts call o m fields) :
    b.Completes session call measure operators ↔
      (m.name = measure ∧ o.operators = operators) ∧
        ∃ summary, (perform (b.summary m.name o call.patience) session).1 = .ok summary := by
  constructor
  · rintro ⟨_, _, _, acceptsToo, named, operated, completed⟩
    obtain ⟨rfl, rfl, -⟩ := accepts.unique acceptsToo
    exact ⟨⟨named, operated⟩, completed⟩
  · rintro ⟨⟨named, operated⟩, completed⟩
    exact ⟨o, m, fields, accepts, named, operated, completed⟩

/-- A call that is accepted asks for its summary and then drills down. -/
theorem Accepts.perform_call (accepts : b.Accepts call o m fields) (session : Session σ) :
    perform (b.call call) session =
      perform (b.summary m.name o call.patience >>= fun summary =>
        b.drillDown m.name o fields summary call.patience) session := by
  unfold Browser.call aggregate
  rw [perform_bind, accepts.accepted, perform_require]
  dsimp only
  rw [perform_bind, accepts.measured, perform_require]
  dsimp only
  rw [perform_bind, accepts.computed, perform_require]

/-- A call that is not accepted comes to nothing. -/
theorem perform_call_of_not_accepts (refused : ∀ o m fields, ¬b.Accepts call o m fields)
    (session : Session σ) : (perform (b.call call) session).2 = session := by
  unfold Browser.call aggregate
  rw [perform_bind, perform_require]
  cases accepted : AggregateOptions.accept call.options call.overrides with
  | error fault => rfl
  | ok o =>
    dsimp only
    rw [perform_bind, perform_require]
    cases measured : b.cube.measure call.measure with
    | error fault => rfl
    | ok m =>
      dsimp only
      rw [perform_bind, perform_require]
      cases computed : call.computed with
      | error fault => rfl
      | ok fields => exact absurd ⟨accepted, measured, computed⟩ (refused o m fields)

/-- Drilling down has no bearing on the slice. -/
theorem slice_of_summary_drillDown (session : Session σ) :
    (perform (b.summary measure o patience >>= fun summary =>
        b.drillDown measure o fields summary patience) session).2.slice =
      (perform (b.summary measure o patience) session).2.slice := by
  rw [perform_bind]
  rcases perform (b.summary measure o patience) session with ⟨fault | summary, middle⟩
  · rfl
  · exact keeps_drillDown (· = middle.slice) b measure o fields summary patience middle rfl

/-- Asking for a summary leaves the cuts as they are, whether there comes to be one or not. -/
theorem cuts_after_summary (b : Browser σ) (measure : Option String) (o : AggregateOptions)
    (patience : Patience) (session : Session σ) :
    (perform (b.summary measure o patience) session).2.slice.cuts = session.slice.cuts := by
  rcases summary_cases b measure o patience session with
    ⟨_, _, failed, stays⟩ | ⟨_, _, -, -, came⟩ | ⟨_, _, _, _, -, -, -, came, changed⟩
  · rw [failed, stays]
  · rw [came]
  · rw [came, changed]

/-- A summary is found afterwards if there is one, like all that was found before. -/
theorem isSome_find?_after_summary {key other : SummaryKey} {another : Option String}
    (keyed : session.slice.summaryKey measure o.operators = .ok key)
    (keyedToo : session.slice.summaryKey another operators = .ok other) :
    ((perform (b.summary measure o patience) session).2.slice.summaries.find? other).isSome = true ↔
      (session.slice.summaries.find? other).isSome = true ∨
        (measure = another ∧ o.operators = operators) ∧
          ∃ summary, (perform (b.summary measure o patience) session).1 = .ok summary := by
  cases looked : session.slice.summaries.find? key with
  | some found =>
    rw [perform_summary_of_find? keyed looked patience]
    refine ⟨Or.inl, ?_⟩
    rintro (before | ⟨⟨rfl, rfl⟩, -⟩)
    · exact before
    · cases keyed.symm.trans keyedToo
      rw [looked]
      rfl
  | none =>
    rcases summary_cases b measure o patience session with
      ⟨fault, after, failed, stays⟩ | ⟨known, found, knownKey, foundKey, -⟩ |
      ⟨known, query, rows, after, knownKey, -, -, came, changed⟩
    · rw [failed, stays]
      simp
    · cases keyed.symm.trans knownKey
      cases looked.symm.trans foundKey
    · cases keyed.symm.trans knownKey
      rw [came, changed]
      dsimp only
      rw [Summaries.isSome_find?_put looked, Slice.same_summaryKey keyed keyedToo]
      simp

/-- The summaries that are found are those that some call came to have. -/
def KeepsCompleted (b : Browser σ) (start : Session σ) (history : List Event) : Prop :=
  ∀ measure operators key,
    (b.occurAll start history).slice.summaryKey measure operators = .ok key →
      (((b.occurAll start history).slice.summaries.find? key).isSome = true ↔
        b.IsCompleted start history measure operators)

theorem keepsCompleted_nil (empty : start.slice.summaries = []) : b.KeepsCompleted start [] := by
  intro measure operators key _
  refine iff_of_false ?_ ?_
  · rw [show b.occurAll start [] = start from rfl, empty]
    exact Bool.false_ne_true
  · rintro ⟨before, call, later, same, -⟩
    cases before <;> cases same

/-- A change forgets all summaries, unless it is refused. -/
theorem KeepsCompleted.change (kept : b.KeepsCompleted start history) (change : Change) :
    b.KeepsCompleted start (history ++ [Event.change change]) := by
  intro measure operators key keyed
  rw [isCompleted_concat_change]
  rw [occurAll_concat] at keyed ⊢
  cases changes : (Event.change change).isChange with
  | true =>
    obtain ⟨changed, applied⟩ := Event.exists_apply_of_isChange changes (b.occurAll start history).slice
    have after : (b.occur (b.occurAll start history) (.change change)).slice = changed := by
      simp only [occur, applied]
    rw [after, Change.summaries_apply applied]
    exact iff_of_false Bool.false_ne_true (fun both => Bool.false_ne_true both.1.symm)
  | false =>
    obtain ⟨fault, refused⟩ := Event.exists_apply_error changes (b.occurAll start history).slice
    have after : b.occur (b.occurAll start history) (.change change) = b.occurAll start history := by
      simp only [occur, refused]
    rw [after] at keyed ⊢
    rw [kept measure operators key keyed, and_iff_right rfl]

/-- A call adds the summary that it comes to have, even if it fails afterwards. -/
theorem KeepsCompleted.aggregate (kept : b.KeepsCompleted start history) (call : AggregateCall) :
    b.KeepsCompleted start (history ++ [Event.aggregate call]) := by
  intro measure operators key keyed
  rw [isCompleted_concat_aggregate]
  rw [occurAll_concat, occur_aggregate] at keyed ⊢
  by_cases refused : ∀ o m fields, ¬b.Accepts call o m fields
  · rw [perform_call_of_not_accepts refused] at keyed ⊢
    rw [kept measure operators key keyed]
    refine (or_iff_left ?_).symm
    rintro ⟨o, m, fields, accepts, -⟩
    exact refused o m fields accepts
  · push Not at refused
    obtain ⟨o, m, fields, accepts⟩ := refused
    rw [accepts.perform_call, slice_of_summary_drillDown] at keyed ⊢
    rw [Slice.summaryKey_congr (cuts_after_summary _ _ _ _ _)] at keyed
    obtain ⟨own, ownKey⟩ := Slice.exists_summaryKey keyed m.name o.operators
    rw [isSome_find?_after_summary ownKey keyed, kept measure operators key keyed,
      completes_iff accepts]

/-- Whatever happens with a slice, it is so. -/
theorem keepsCompleted (b : Browser σ) (empty : start.slice.summaries = []) (history : List Event) :
    b.KeepsCompleted start history := by
  -- From the end, since the last event decides what is kept of those before it.
  induction history using List.reverseRecOn with
  | nil => exact keepsCompleted_nil empty
  | append_singleton history event kept =>
    cases event with
    | change change => exact kept.change change
    | aggregate call => exact kept.aggregate call

/-- After a call that is accepted its summary is completed exactly when it comes to have one. -/
theorem isCompleted_of_accepts (fresh : start.slice.summaries = []) (accepts : b.Accepts call o m fields)
    {key : SummaryKey}
    (keyed : (b.occurAll start history).slice.summaryKey m.name o.operators = .ok key) :
    b.IsCompleted start (history ++ [Event.aggregate call]) m.name o.operators ↔
      ∃ summary, (perform (b.summary m.name o call.patience) (b.occurAll start history)).1 =
        .ok summary := by
  have kept := keepsCompleted b fresh history m.name o.operators key keyed
  rw [isCompleted_concat_aggregate, completes_iff accepts, and_iff_right ⟨rfl, rfl⟩, ← kept]
  refine or_iff_right_of_imp fun found => ?_
  obtain ⟨summary, looked⟩ := Option.isSome_iff_exists.mp found
  exact ⟨summary, congrArg Prod.fst (perform_summary_of_find? keyed looked call.patience)⟩

/-! ### What a call asks the store for -/

/-- The request for the summary of some cuts, if it compiles. -/
def summaryRequests (b : Browser σ) (cuts : List Cut) (measure : Option String) (o : AggregateOptions)
    (patience : Patience) : List Request :=
  match b.compiler.summary cuts (.ofOption measure) o with
  | .ok query => [b.requestFor query patience]
  | .error _ => []

/-- The request for the rows of some levels, if there are levels and it compiles. Where statements are
logged, its statement must be one that can be written. -/
def drillRequests (b : Browser σ) (cuts : List Cut) (measure : Option String) (o : AggregateOptions)
    (patience : Patience) : List Request :=
  if o.levels.isEmpty then []
  else
    match b.compiler.drill cuts (.ofOption measure) o with
    | .ok (some query) =>
      if b.options.debug && !(statement query).toBool then [] else [b.requestFor query patience]
    | _ => []

section Recorded

variable {b : Browser (σ × List Request)} {store : Store σ} {session : Session (σ × List Request)}
  {query : Query}

/-- A query that can be announced is asked for once, whatever the store answers. -/
theorem requests_of_execute (present : b.store = some store.recorded) (announced : b.CanAnnounce query)
    (patience : Patience) (session : Session (σ × List Request)) :
    (perform (b.execute query patience) session).2.store.2 =
      session.store.2 ++ [b.requestFor query patience] := by
  obtain ⟨log, done⟩ := perform_execute_eq present announced patience session
  rw [done]
  rfl

theorem canAnnounce_iff (b : Browser σ) (query : Query) :
    b.CanAnnounce query ↔ (b.options.debug && !(statement query).toBool) = false := by
  unfold CanAnnounce
  cases b.options.debug <;> cases statement query <;> simp [Except.toBool]

/-- A summary that is found is not asked for; any other is asked for once, if it compiles. -/
theorem requests_of_summary (present : b.store = some store.recorded) {key : SummaryKey}
    (keyed : session.slice.summaryKey measure o.operators = .ok key) (patience : Patience) :
    (perform (b.summary measure o patience) session).2.store.2 =
      session.store.2 ++ if (session.slice.summaries.find? key).isSome then []
        else b.summaryRequests session.slice.cuts measure o patience := by
  cases looked : session.slice.summaries.find? key with
  | some found =>
    rw [perform_summary_of_find? keyed looked patience]
    exact (List.append_nil _).symm
  | none =>
    unfold summary summaryRequests
    simp only [perform_bind, perform_get, perform_require, keyed, looked]
    cases compiled : b.compiler.summary session.slice.cuts (.ofOption measure) o with
    | error fault => exact (List.append_nil _).symm
    | ok query =>
      obtain ⟨m, conditions, -, restricted, rfl⟩ := Compiler.summary_ok.1 compiled
      have announced : b.CanAnnounce (.scan b.compiler.table
          (b.compiler.summaryLayer m o.operators conditions)) :=
        fun _ => exists_statement_scan _ (Compiler.isKnown_of_predicates restricted)
      have asked := requests_of_execute present announced patience session
      dsimp only
      rcases executed : perform (b.execute (.scan b.compiler.table
          (b.compiler.summaryLayer m o.operators conditions)) patience) session with
        ⟨fault | rows, middle⟩
      · rw [executed] at asked
        exact asked
      · rw [executed] at asked
        exact asked

/-- A drill-down asks for its rows once, if there are levels and it compiles. -/
theorem requests_of_drillDown (present : b.store = some store.recorded) (summary : Row) :
    (perform (b.drillDown measure o fields summary patience) session).2.store.2 =
      session.store.2 ++ b.drillRequests session.slice.cuts measure o patience := by
  unfold drillDown drillRequests
  simp only [perform_bind, perform_get, perform_require]
  cases bare : o.levels.isEmpty with
  | true =>
    have none : b.compiler.drill session.slice.cuts (.ofOption measure) o = .ok none :=
      Compiler.drill_none (by rw [AggregateOptions.isDrillDown, bare]; rfl)
    rw [none]
    exact (List.append_nil _).symm
  | false =>
    rw [if_neg Bool.false_ne_true]
    cases b.compiler.drill session.slice.cuts (.ofOption measure) o with
    | error fault => exact (List.append_nil _).symm
    | ok drilled =>
      cases drilled with
      | none => exact (List.append_nil _).symm
      | some query =>
        dsimp only
        rw [perform_bind]
        by_cases announced : b.CanAnnounce query
        · have asked := requests_of_execute present announced patience session
          rw [(canAnnounce_iff b query).mp announced, if_neg Bool.false_ne_true]
          rcases executed : perform (b.execute query patience) session with ⟨fault | rows, middle⟩ <;>
            rw [executed] at asked
          · exact asked
          · dsimp only
            rw [perform_require]
            exact asked
        · obtain ⟨fault, failed⟩ := perform_execute_of_not_announced present announced patience session
          rw [canAnnounce_iff, Bool.not_eq_false] at announced
          rw [failed, announced, if_pos rfl]
          exact (List.append_nil _).symm

theorem perform_summary_of_not_keyed
    (unkeyed : ∀ key, session.slice.summaryKey measure o.operators ≠ .ok key)
    (b : Browser (σ × List Request)) (patience : Patience) :
    ∃ fault, perform (b.summary measure o patience) session = (.error fault, session) := by
  cases keyed : session.slice.summaryKey measure o.operators with
  | ok key => exact absurd keyed (unkeyed key)
  | error fault =>
    refine ⟨fault, ?_⟩
    unfold summary
    simp only [perform_bind, perform_get, perform_require, keyed]

variable {start : Session (σ × List Request)}

open scoped Classical in
/-- A call that is accepted asks for its summary and then for its rows. -/
theorem requests_of_accepts (present : b.store = some store.recorded)
    (fresh : start.slice.summaries = []) (accepts : b.Accepts call o m fields) {key : SummaryKey}
    (keyed : (b.occurAll start history).slice.summaryKey m.name o.operators = .ok key) :
    (b.occurAll start (history ++ [Event.aggregate call])).store.2 =
      (b.occurAll start history).store.2 ++
        (if b.IsCompleted start history m.name o.operators then []
          else b.summaryRequests (b.occurAll start history).slice.cuts m.name o call.patience) ++
        (if b.IsCompleted start (history ++ [Event.aggregate call]) m.name o.operators
          then b.drillRequests (b.occurAll start history).slice.cuts m.name o call.patience
          else []) := by
  have kept := keepsCompleted b fresh history m.name o.operators key keyed
  have asked := requests_of_summary present keyed call.patience
  have cuts := cuts_after_summary b m.name o call.patience (b.occurAll start history)
  rw [occurAll_concat, occur_aggregate, accepts.perform_call, perform_bind,
    isCompleted_of_accepts fresh accepts keyed]
  rw [if_congr kept rfl rfl] at asked
  -- Without a summary, a call stops before it drills down.
  rcases outcome : perform (b.summary m.name o call.patience) (b.occurAll start history) with
    ⟨fault | summary, middle⟩ <;> rw [outcome] at asked cuts
  · have none : ¬∃ summary, (.error fault : Result Row) = .ok summary := by
      rintro ⟨_, ⟨⟩⟩
    rw [if_neg none, List.append_nil]
    exact asked
  · have one : ∃ found, (.ok summary : Result Row) = .ok found := ⟨summary, rfl⟩
    rw [if_pos one, ← asked, ← cuts]
    exact requests_of_drillDown present summary

open scoped Classical in
/-- What a store is asked for, whatever happens with a slice that starts without summaries. Changes ask for
nothing, and neither do calls that are not accepted or find no key for their summary, which leave the session
as it was. Any other call asks for its summary, if it compiles, exactly when none was completed since the
slice was made or changed. When there is one then, it asks once for the rows, if there are levels and it
compiles and can be written where it is logged. A summary that fails is not completed, so it is asked for
again by the next call. -/
theorem requests_exact (present : b.store = some store.recorded) (fresh : start.slice.summaries = [])
    (history : List Event) :
    (∀ change, (b.occurAll start (history ++ [Event.change change])).store =
      (b.occurAll start history).store) ∧
    ∀ call,
      (∀ o m fields key, b.Accepts call o m fields →
        (b.occurAll start history).slice.summaryKey m.name o.operators = .ok key →
          (b.occurAll start (history ++ [Event.aggregate call])).store.2 =
            (b.occurAll start history).store.2 ++
              (if b.IsCompleted start history m.name o.operators then []
                else b.summaryRequests (b.occurAll start history).slice.cuts m.name o call.patience) ++
              (if b.IsCompleted start (history ++ [Event.aggregate call]) m.name o.operators
                then b.drillRequests (b.occurAll start history).slice.cuts m.name o call.patience
                else []) ∧
          (b.IsCompleted start (history ++ [Event.aggregate call]) m.name o.operators ↔
            ∃ summary, (perform (b.summary m.name o call.patience) (b.occurAll start history)).1 =
              .ok summary)) ∧
      ((∀ o m fields key, b.Accepts call o m fields →
        (b.occurAll start history).slice.summaryKey m.name o.operators ≠ .ok key) →
          b.occurAll start (history ++ [Event.aggregate call]) = b.occurAll start history) := by
  refine ⟨fun change => ?_, fun call => ⟨fun o m fields key accepts keyed =>
    ⟨requests_of_accepts present fresh accepts keyed, isCompleted_of_accepts fresh accepts keyed⟩,
    fun unreached => ?_⟩⟩
  · rw [occurAll_concat]
    unfold occur
    dsimp only
    split <;> rfl
  · rw [occurAll_concat, occur_aggregate]
    by_cases refused : ∀ o m fields, ¬b.Accepts call o m fields
    · exact perform_call_of_not_accepts refused _
    · push Not at refused
      obtain ⟨o, m, fields, accepts⟩ := refused
      obtain ⟨fault, failed⟩ := perform_summary_of_not_keyed
        (fun key => unreached o m fields key accepts) b call.patience
      rw [accepts.perform_call, perform_bind, failed]

end Recorded

/-! ### Requests of a market -/

section Market

open Market

/-- A browser of sales over a store that fails when it is asked for the first time. -/
def hesitantBrowser : Browser (Bool × List Request) := ⟨sales, some (hesitant [austria]).recorded, .unset⟩

def hesitantStart : Session (Bool × List Request) := ⟨Slice.full sales, (false, []), []⟩

/-- The first sum fails and is asked for again, and the sums of the countries find it. -/
theorem requests_exact_hesitant :
    (hesitantBrowser.occurAll hesitantStart [.aggregate (sum []), .aggregate (sum []),
        .aggregate sumByCountry]).store.2.map (·.query.label) = ["summary", "summary", "drill"] ∧
      ¬hesitantBrowser.IsCompleted hesitantStart [.aggregate (sum [])] (some "amount") ["sum"] ∧
      hesitantBrowser.IsCompleted hesitantStart [.aggregate (sum []), .aggregate (sum [])]
        (some "amount") ["sum"] := by
  have accepts : hesitantBrowser.Accepts (sum []) .unset (.ofName .measure (some "amount")) [] :=
    ⟨rfl, rfl, rfl⟩
  have fresh : hesitantStart.slice.summaries = [] := rfl
  obtain ⟨key, keyed⟩ : ∃ key, hesitantStart.slice.summaryKey (some "amount") ["sum"] = .ok key :=
    ⟨_, rfl⟩
  have first := ((requests_exact rfl fresh []).2 (sum [])).1 _ _ _ key accepts keyed
  have second := ((requests_exact rfl fresh [.aggregate (sum [])]).2 (sum [])).1 _ _ _ key accepts keyed
  refine ⟨rfl, fun completed => ?_, second.2.mpr ⟨_, rfl⟩⟩
  obtain ⟨summary, done⟩ := first.2.mp completed
  cases done

/-- Sales of which there is a record, besides their number. -/
def recordedSales : Cube := { sales with measures := [.ofName .measure (some "record")] }

/-- The country with the greatest number of records. -/
def greatestCount : AggregateCall :=
  ⟨.text "record", .record [("row_dimension", .text "place"), ("row_levels", .text "country"),
    ("aggregations", .text "count"), ("limit", .text "rank"), ("limit_value", .int 1),
    ("limit_aggregation", .text "count")], [], .ok [], ⟨.null, none⟩⟩

/-- A browser of it that logs its statements, over a store that always answers. -/
def loggingBrowser : Browser (Unit × List Request) :=
  ⟨recordedSales, some (Store.steady fun _ => []).recorded, { BrowserOptions.unset with debug := true }⟩

def loggingStart : Session (Unit × List Request) := ⟨Slice.full recordedSales, ((), []), []⟩

/-- There are levels to drill down to and that compiles, and yet the rows are not asked for: when the
summary fails, and when statements are logged and two selected columns of one name are in the way. -/
theorem exists_drill_not_requested :
    (∃ o query, hesitantBrowser.Accepts sumByCountry o (.ofName .measure (some "amount")) [] ∧
      o.levels = ["country"] ∧
      hesitantBrowser.compiler.drill [] (.text "amount") o = .ok (some query) ∧
      (hesitantBrowser.occurAll hesitantStart [.aggregate sumByCountry]).store.2.map (·.query.label) =
        ["summary"]) ∧
    ∃ o query, loggingBrowser.Accepts greatestCount o (.ofName .measure (some "record")) [] ∧
      o.levels = ["country"] ∧
      loggingBrowser.compiler.drill [] (.text "record") o = .ok (some query) ∧
      statement query = .error (.outside .sqlAmbiguous) ∧
      (loggingBrowser.occurAll loggingStart [.aggregate greatestCount]).store.2.map (·.query.label) =
        ["summary"] := by
  constructor
  · exact ⟨_, _, ⟨rfl, rfl, rfl⟩, rfl, rfl, rfl⟩
  · exact ⟨_, _, ⟨rfl, rfl, rfl⟩, rfl, rfl, rfl, rfl⟩

end Market

end Browser

end Olap
