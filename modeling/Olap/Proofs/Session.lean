/-
What changes of a state come to, and what an action does in a session. An action is carried out in a
session and comes to an outcome and a session after it. Two facts are used everywhere: a sequence of
actions succeeds exactly when each of them does, and whatever a store is asked for, and whether it
answers or fails, the slice in use stays as it is. Only a new summary changes the slice.
-/

import Mathlib
import Olap.Browser

namespace Olap

namespace Result

theorem bind_ok {α β : Type} {first : Result α} {next : α → Result β} {b : β} :
    (first >>= next) = .ok b ↔ ∃ a, first = .ok a ∧ next a = .ok b := by
  cases first with
  | error fault => simp [bind, Except.bind]
  | ok a => simp [bind, Except.bind]

theorem bind_error {α β : Type} {first : Result α} {next : α → Result β} {fault : Fault} :
    (first >>= next) = .error fault ↔
      first = .error fault ∨ ∃ a, first = .ok a ∧ next a = .error fault := by
  cases first with
  | error other => simp [bind, Except.bind]
  | ok a => simp [bind, Except.bind]

theorem map_ok {α β : Type} {result : Result α} {f : α → β} {b : β} :
    result.map f = .ok b ↔ ∃ a, result = .ok a ∧ f a = b := by
  cases result with
  | error fault => simp [Except.map]
  | ok a => simp [Except.map]

theorem mapError_ok {β : Type} {result : Result β} {f : Fault → Fault} {b : β} :
    result.mapError f = .ok b ↔ result = .ok b := by
  cases result with
  | error fault => simp [Except.mapError]
  | ok a => simp [Except.mapError]

end Result

/-! ### What a change comes to -/

namespace Edit

variable {σ α β : Type}

/-- The outcome of a change, and the state after it. -/
def perform (edit : Edit σ β) (s : σ) : Result β × σ := edit.run.run s

theorem perform_require (s : σ) (result : Result β) :
    perform (liftM result) s = (result, s) := by
  cases result <;> rfl

theorem perform_bind (s : σ) (first : Edit σ α) (next : α → Edit σ β) :
    perform (first >>= next) s =
      match perform first s with
      | (.ok a, middle) => perform (next a) middle
      | (.error fault, middle) => (.error fault, middle) := by
  show (match perform first s with
    | (outcome, middle) => ExceptT.bindCont (m := StateM σ) next outcome middle) = _
  rcases perform first s with ⟨fault | a, middle⟩ <;> rfl

/-- A sequence of changes succeeds exactly when each of them does. -/
theorem perform_bind_ok {s after : σ} {first : Edit σ α} {next : α → Edit σ β} {b : β} :
    perform (first >>= next) s = (.ok b, after) ↔
      ∃ a middle, perform first s = (.ok a, middle) ∧ perform (next a) middle = (.ok b, after) := by
  rw [perform_bind]
  rcases perform first s with ⟨fault | a, middle⟩
  · simp
  · constructor
    · intro rest
      exact ⟨a, middle, rfl, rest⟩
    · rintro ⟨_, _, same, rest⟩
      cases same
      exact rest

theorem perform_require_ok {s after : σ} {result : Result β} {b : β} :
    perform (liftM result) s = (.ok b, after) ↔ result = .ok b ∧ s = after := by
  rw [perform_require, Prod.mk.injEq]

/-- A change after which something is still true of the state, whether it succeeds or fails. -/
def Keeps (property : σ → Prop) (edit : Edit σ β) : Prop :=
  ∀ s, property s → property (perform edit s).2

theorem keeps_pure (property : σ → Prop) (b : β) : Keeps property (pure b : Edit σ β) :=
  fun _ holds => holds

theorem keeps_throw (property : σ → Prop) (fault : Fault) :
    Keeps property (throw fault : Edit σ β) := fun _ holds => holds

theorem keeps_bind {property : σ → Prop} {first : Edit σ α} {next : α → Edit σ β}
    (keeps : Keeps property first) (later : ∀ a, Keeps property (next a)) :
    Keeps property (first >>= next) := by
  intro s holds
  have middle := keeps s holds
  rw [perform_bind]
  rcases outcome : perform first s with ⟨fault | a, between⟩ <;> rw [outcome] at middle
  · exact middle
  · exact later a between middle

end Edit

/-! ### What an action comes to -/

namespace Action

variable {σ α β : Type}

/-- What an action comes to in a session: its outcome, and the session after it. -/
def perform (action : Action σ β) (session : Session σ) : Result β × Session σ :=
  action.run.run session

theorem perform_pure (session : Session σ) (b : β) :
    perform (pure b) session = (.ok b, session) := rfl

theorem perform_throw (session : Session σ) (fault : Fault) :
    perform (throw fault : Action σ β) session = (.error fault, session) := rfl

theorem perform_get (session : Session σ) :
    perform (get : Action σ (Session σ)) session = (.ok session, session) := rfl

theorem perform_set (session next : Session σ) :
    perform (set next : Action σ PUnit) session = (.ok ⟨⟩, next) := rfl

theorem perform_modify (session : Session σ) (change : Session σ → Session σ) :
    perform (modify change : Action σ PUnit) session = (.ok ⟨⟩, change session) := rfl

theorem perform_bind (session : Session σ) (first : Action σ α) (next : α → Action σ β) :
    perform (first >>= next) session =
      match perform first session with
      | (.ok a, middle) => perform (next a) middle
      | (.error fault, middle) => (.error fault, middle) := by
  show (match perform first session with
    | (outcome, middle) => ExceptT.bindCont (m := StateM (Session σ)) next outcome middle) = _
  rcases perform first session with ⟨fault | a, middle⟩ <;> rfl

/-- A sequence of actions succeeds exactly when each of them does. -/
theorem perform_bind_ok {session after : Session σ} {first : Action σ α} {next : α → Action σ β}
    {b : β} :
    perform (first >>= next) session = (.ok b, after) ↔
      ∃ a middle, perform first session = (.ok a, middle) ∧
        perform (next a) middle = (.ok b, after) := Edit.perform_bind_ok

/-! ### What becomes of the slice -/

/-- A property of the slice in use that holds after the action when it held before, even when the
action fails. -/
def Keeps (property : Slice → Prop) (action : Action σ β) : Prop :=
  ∀ session, property session.slice → property (perform action session).2.slice

variable {property : Slice → Prop}

theorem keeps_pure (b : β) : Keeps property (pure b : Action σ β) := fun _ holds => holds

theorem keeps_throw (fault : Fault) : Keeps property (throw fault : Action σ β) :=
  fun _ holds => holds

theorem keeps_get : Keeps property (get : Action σ (Session σ)) := fun _ holds => holds

theorem keeps_bind {first : Action σ α} {next : α → Action σ β} (left : Keeps property first)
    (right : ∀ a, Keeps property (next a)) : Keeps property (first >>= next) :=
  Edit.keeps_bind left right

end Action

namespace Browser

open Olap.Action

variable {σ β : Type}

theorem perform_require (session : Session σ) (result : Result β) :
    perform (require result) session = (result, session) := by
  cases result <;> rfl

theorem perform_require_ok {session after : Session σ} {result : Result β} {b : β} :
    perform (require result) session = (.ok b, after) ↔ result = .ok b ∧ session = after := by
  rw [perform_require, Prod.mk.injEq]

theorem keeps_require (property : Slice → Prop) (result : Result β) :
    Keeps property (require result : Action σ β) := by
  intro session holds
  rwa [perform_require]

/-! ### Statements -/

/-- The statement of a query can be written where it is going to be logged. -/
def CanAnnounce (b : Browser σ) (q : Query) : Prop :=
  b.options.debug = true → ∃ text, statement q = .ok text

/-- The request that a query is executed by. -/
def requestFor (b : Browser σ) (q : Query) (patience : Patience) : Request :=
  ⟨q, if patience.timeout.isNull then b.options.timeout else patience.timeout, patience.cancel⟩

theorem perform_announce (b : Browser σ) (q : Query) (announced : b.CanAnnounce q)
    (session : Session σ) :
    ∃ log, perform (b.announce q) session = (.ok ⟨⟩, { session with log }) := by
  unfold announce
  by_cases debug : b.options.debug = true
  · obtain ⟨text, written⟩ := announced debug
    rw [if_pos debug, written]
    exact ⟨_, rfl⟩
  · rw [if_neg debug]
    exact ⟨session.log, rfl⟩

theorem canAnnounce_of_perform {b : Browser σ} {q : Query} {session after : Session σ} {u : Unit}
    (done : perform (b.announce q) session = (.ok u, after)) : b.CanAnnounce q := by
  intro debug
  rw [announce, if_pos debug, perform_bind_ok] at done
  obtain ⟨text, _, written, -⟩ := done
  exact ⟨text, (perform_require_ok.1 written).1⟩

theorem keeps_announce (property : Slice → Prop) (b : Browser σ) (q : Query) :
    Keeps property (b.announce q) := by
  unfold announce
  split
  · exact keeps_bind (keeps_require property _) fun _ _ holds => holds
  · exact keeps_pure _

/-- What asking a store comes to: its state and the log go on, and the slice stays. -/
theorem perform_ask (store : Store σ) (request : Request) (session : Session σ) :
    perform (ask store request) session =
      ((store.execute request session.store).1.outcome.mapError (storeFault request.query),
        ⟨session.slice, (store.execute request session.store).2,
          session.log ++ (store.execute request session.store).1.log⟩) := by
  unfold ask
  rw [perform_bind, perform_get]
  rcases executed : store.execute request session.store with ⟨⟨outcome, log⟩, after⟩
  simp only [executed, perform_bind, perform_set]
  cases outcome <;> rfl

theorem keeps_ask (property : Slice → Prop) (store : Store σ) (request : Request) :
    Keeps property (ask store request) := by
  intro session holds
  rwa [perform_ask]

/-- Executing a query has no bearing on the slice. -/
theorem keeps_execute (property : Slice → Prop) (b : Browser σ) (q : Query)
    (patience : Patience) : Keeps property (b.execute q patience) := by
  unfold execute
  split
  · exact keeps_throw _
  · exact keeps_bind (keeps_announce property b q) fun _ => keeps_ask property _ _

/-- A query that was executed was announced, and its rows are an answer of the store. -/
theorem execute_ok {b : Browser σ} {q : Query} {patience : Patience} {session after : Session σ}
    {rows : List Row} (done : perform (b.execute q patience) session = (.ok rows, after)) :
    ∃ store state, b.store = some store ∧ b.CanAnnounce q ∧
      (store.execute (b.requestFor q patience) state).1.outcome = .ok rows := by
  unfold execute at done
  cases present : b.store with
  | none => simp [present, perform_throw] at done
  | some store =>
    simp only [present, perform_bind_ok] at done
    obtain ⟨u, middle, announced, asked⟩ := done
    refine ⟨store, middle.store, rfl, canAnnounce_of_perform announced, ?_⟩
    rw [perform_ask, Prod.mk.injEq, Result.mapError_ok] at asked
    exact asked.1

/-- A query that can be announced is executed once, and what the store says about it is what comes of
it. -/
theorem perform_execute_eq {b : Browser σ} {q : Query} {store : Store σ} (present : b.store = some store)
    (announced : b.CanAnnounce q) (patience : Patience) (session : Session σ) :
    ∃ log, perform (b.execute q patience) session =
      ((store.execute (b.requestFor q patience) session.store).1.outcome.mapError (storeFault q),
        ⟨session.slice, (store.execute (b.requestFor q patience) session.store).2, log⟩) := by
  obtain ⟨log, wrote⟩ := perform_announce b q announced session
  refine ⟨log ++ (store.execute (b.requestFor q patience) session.store).1.log, ?_⟩
  unfold execute
  simp only [present, perform_bind, wrote]
  show perform (ask store (b.requestFor q patience)) _ = _
  rw [perform_ask]
  rfl

/-- A query that can not be announced is not executed. -/
theorem perform_execute_of_not_announced {b : Browser σ} {q : Query} {store : Store σ}
    (present : b.store = some store) (silent : ¬b.CanAnnounce q) (patience : Patience)
    (session : Session σ) :
    ∃ fault, perform (b.execute q patience) session = (.error fault, session) := by
  unfold CanAnnounce at silent
  push Not at silent
  obtain ⟨debug, unwritten⟩ := silent
  cases written : statement q with
  | ok text => exact absurd written (unwritten text)
  | error fault =>
    refine ⟨fault, ?_⟩
    unfold execute announce
    simp only [present, perform_bind, debug, if_true, written, perform_require]

/-- A query that can be announced has rows when the store, in the state that it is in, answers it. -/
theorem perform_execute_of_outcome {b : Browser σ} {q : Query} {patience : Patience}
    {store : Store σ} {rows : List Row} (present : b.store = some store)
    (announced : b.CanAnnounce q) {session : Session σ}
    (answered : (store.execute (b.requestFor q patience) session.store).1.outcome = .ok rows) :
    ∃ state log,
      perform (b.execute q patience) session = (.ok rows, ⟨session.slice, state, log⟩) := by
  obtain ⟨log, done⟩ := perform_execute_eq present announced patience session
  rw [answered] at done
  exact ⟨_, log, done⟩

/-- So it is when the store answers it in every state. -/
theorem perform_execute {b : Browser σ} {q : Query} {patience : Patience} {store : Store σ}
    {rows : List Row} (present : b.store = some store) (announced : b.CanAnnounce q)
    (answered : ∀ state,
      (store.execute (b.requestFor q patience) state).1.outcome = .ok rows)
    (session : Session σ) :
    ∃ state log,
      perform (b.execute q patience) session = (.ok rows, ⟨session.slice, state, log⟩) :=
  perform_execute_of_outcome present announced (answered session.store)

end Browser

end Olap
