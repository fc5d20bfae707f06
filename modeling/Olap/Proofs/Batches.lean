/-
Answers that come in batches. Whatever number of rows the driver hands over each time, the batches
put together are the answer, and each of them takes at least one row away from what is left. So
fetching ends, after one look at the caller for each batch and one more, and it either has all rows
in their order or nothing at all.

The rows reach the caller keyed by name. When values travel beside the statement, a row of two
columns with one name has no keyed form, and its answer is refused like a statement that failed.
-/

import Olap.Proofs.Names
import Olap.Sql.Store

namespace Olap.Sql

/-! ### Rows keyed by name -/

/-- A row keyed by name. Where only the text of a statement is known, the last column of a name is
taken. -/
def Mode.key (mode : Mode) (row : Row) : Row :=
  match mode with
  | .bound => row
  | .literal => Record.ofPairs row

/-- Whether all rows have keyed forms. -/
def Mode.Keys (mode : Mode) (rows : List Row) : Prop :=
  mode = .bound → ∀ row ∈ rows, (Record.keys row).Nodup

theorem keyed_of_keys {mode : Mode} {row : Row} (keys : mode.Keys [row]) :
    keyed mode row = .ok (mode.key row) := by
  cases mode with
  | literal => rfl
  | bound => exact keyed_of_nodup (keys rfl row List.mem_cons_self) .bound

theorem keyed_of_not_keys {mode : Mode} {row : Row} (unkeyed : ¬mode.Keys [row]) :
    keyed mode row = .error .sqlAmbiguous := by
  cases mode with
  | literal => exact absurd (fun bound => by cases bound) unkeyed
  | bound =>
    have repeated : ¬(Record.keys row).Nodup := fun distinct =>
      unkeyed fun _ other member => List.mem_singleton.mp member ▸ distinct
    unfold keyed
    dsimp only
    rw [if_pos (isAmbiguous_iff.mpr repeated)]

theorem Mode.keys_cons {mode : Mode} {row : Row} {rest : List Row} :
    mode.Keys (row :: rest) ↔ mode.Keys [row] ∧ mode.Keys rest := by
  simp only [Keys, List.forall_mem_cons, List.not_mem_nil, false_imp_iff, implies_true, and_true]
  exact ⟨fun keys => ⟨fun bound => (keys bound).1, fun bound => (keys bound).2⟩,
    fun keys bound => ⟨keys.1 bound, keys.2 bound⟩⟩

/-- Rows are keyed one by one, unless one of them can not be. -/
theorem mapM_keyed (mode : Mode) (rows : List Row) :
    (mode.Keys rows ∧ rows.mapM (keyed mode) = .ok (rows.map mode.key)) ∨
      (¬mode.Keys rows ∧ rows.mapM (keyed mode) = .error .sqlAmbiguous) := by
  induction rows with
  | nil => exact .inl ⟨fun _ _ member => absurd member List.not_mem_nil, rfl⟩
  | cons row rest inductionHypothesis =>
    rw [List.mapM_cons, Mode.keys_cons]
    by_cases first : mode.Keys [row]
    · rw [keyed_of_keys first]
      obtain ⟨keys, mapped⟩ | ⟨unkeyed, failed⟩ := inductionHypothesis
      · exact .inl ⟨⟨first, keys⟩, by rw [mapped]; rfl⟩
      · exact .inr ⟨fun both => unkeyed both.2, by rw [failed]; rfl⟩
    · rw [keyed_of_not_keys first]
      exact .inr ⟨fun both => first both.1, rfl⟩

/-! ### Batches -/

variable {α β : Type}

/-- The batches in which rows come, after some looks at the caller. -/
def batches (driver : Driver) (size : Nat) (positive : 0 < size) (looks : Nat) (rows : List α) :
    List (List α) :=
  match rows with
  | [] => []
  | row :: rest =>
    let count := driver.handed looks size (row :: rest).length
    (row :: rest).take count ::
      batches driver size positive (looks + 1) ((row :: rest).drop count)
termination_by rows.length
decreasing_by
  have := driver.handed_pos looks size (row :: rest).length positive (Nat.succ_pos _)
  simp only [List.length_drop, List.length_cons] at this ⊢
  omega

section Fetching

variable (driver : Driver) (size : Nat) (positive : 0 < size)

/-- No row is lost between batches, and none comes twice. -/
theorem flatten_batches (looks : Nat) (rows : List α) :
    (batches driver size positive looks rows).flatten = rows := by
  fun_induction batches driver size positive looks rows with
  | case1 => rfl
  | case2 looks row rest count inductionHypothesis =>
    rw [List.flatten_cons, inductionHypothesis, List.take_append_drop]

/-- A batch is never empty and never larger than it was asked to be. -/
theorem length_of_mem_batches (looks : Nat) (rows : List α) :
    ∀ batch ∈ batches driver size positive looks rows, 0 < batch.length ∧ batch.length ≤ size := by
  fun_induction batches driver size positive looks rows with
  | case1 => exact fun _ member => absurd member List.not_mem_nil
  | case2 looks row rest count inductionHypothesis =>
    refine List.forall_mem_cons.mpr ⟨?_, inductionHypothesis⟩
    have least : 0 < count := driver.handed_pos looks size _ positive (Nat.succ_pos _)
    have most : count ≤ size := driver.handed_le looks size _
    rw [List.length_take, List.length_cons]
    omega

/-- There are no more batches than rows. -/
theorem length_batches_le (looks : Nat) (rows : List α) :
    (batches driver size positive looks rows).length ≤ rows.length := by
  have total := congrArg List.length (flatten_batches driver size positive looks rows)
  rw [List.length_flatten] at total
  have filled : ∀ length ∈ (batches driver size positive looks rows).map List.length, 1 ≤ length := by
    intro length member
    obtain ⟨batch, among, rfl⟩ := List.mem_map.mp member
    exact (length_of_mem_batches driver size positive looks rows batch among).1
  have counted := List.length_le_sum_of_one_le _ filled
  rwa [List.length_map, total] at counted

/-- A driver that hands over all it is asked for needs as few batches as there can be. -/
theorem length_batches_prompt (most : Option Nat) (looks : Nat) (rows : List α) :
    (batches (.prompt most) size positive looks rows).length = (rows.length + size - 1) / size := by
  fun_induction batches (.prompt most) size positive looks rows with
  | case1 =>
    rw [List.length_nil, List.length_nil, Nat.zero_add, Nat.div_eq_of_lt (Nat.sub_lt positive one_pos)]
  | case2 looks row rest count inductionHypothesis =>
    have full : count = size := rfl
    rw [List.length_cons, inductionHypothesis, full, List.length_drop, List.length_cons]
    obtain below | above := Nat.le_total (rest.length + 1) size
    · rw [Nat.sub_eq_zero_of_le below, Nat.zero_add, Nat.div_eq_of_lt (Nat.sub_lt positive one_pos),
        Nat.div_eq_of_lt_le] <;> omega
    · rw [← Nat.add_div_right _ positive]
      congr 1
      omega

/-! ### Fetching -/

variable {schedule : Schedule}

/-- The caller goes on at a look. -/
def Schedule.IsQuiet (schedule : Schedule) (look : Nat) : Prop :=
  (schedule look).interruption? = none

/-- Of a number of looks at the caller, the first at which it does not go on. -/
structure Schedule.Interrupts (schedule : Schedule) (looks : Nat) (interruption : Interruption)
    (look : Nat) : Prop where
  within : look < looks
  before : ∀ earlier < look, schedule.IsQuiet earlier
  now : (schedule look).interruption? = some interruption

/-- What fetching comes to, when it takes a number of looks at the caller and the rows convert as they
do: all rows, or the first interruption, or the failure of a conversion. -/
inductive Fetches (schedule : Schedule) (looks : Nat) (converted : Except Outside (List β)) :
    Except Stop (List β) → Prop
  | whole (found : List β) (quiet : ∀ look < looks, schedule.IsQuiet look)
      (complete : converted = .ok found) : Fetches schedule looks converted (.ok found)
  | interrupted (interruption : Interruption) (look : Nat)
      (stopped : schedule.Interrupts looks interruption look) :
      Fetches schedule looks converted (.error (.interrupted interruption))
  | failed (failure : Outside) (refused : converted = .error failure) :
      Fetches schedule looks converted (.error (.failed failure))

/-- A batch that is converted goes before what is fetched later. -/
theorem Fetches.prepend {looks : Nat} {convert : α → Except Outside β} {batch rest : List α}
    {front : List β} {outcome : Except Stop (List β)} (mapped : batch.mapM convert = .ok front)
    (fetches : Fetches schedule looks (rest.mapM convert) outcome) :
    Fetches schedule looks ((batch ++ rest).mapM convert) (outcome.map (front ++ ·)) := by
  rw [List.mapM_append, mapped]
  cases fetches with
  | whole found quiet complete => exact .whole (front ++ found) quiet (by rw [complete]; rfl)
  | interrupted interruption look stopped => exact .interrupted interruption look stopped
  | failed failure refused => exact .failed failure (by rw [refused]; rfl)

/-- Fetching takes a look at the caller for each batch and one more. -/
theorem fetches (convert : α → Except Outside β) (taken : driver.takes size) (looks : Nat)
    (quiet : ∀ look < looks, schedule.IsQuiet look) (rows : List α) :
    Fetches schedule (looks + (batches driver size positive looks rows).length + 1)
      (rows.mapM convert) (fetch driver size positive schedule convert looks rows) := by
  fun_induction fetch driver size positive schedule convert looks rows with
  | case1 looks rows interruption now =>
    exact .interrupted interruption looks ⟨by omega, quiet, now⟩
  | case2 looks now =>
    refine .whole [] (fun look within => ?_) rfl
    rw [batches, List.length_nil, Nat.add_zero, Nat.lt_succ_iff_lt_or_eq] at within
    obtain before | rfl := within
    · exact quiet look before
    · exact now
  | case3 looks now _ row rest count failure refused =>
    refine .failed failure ?_
    rw [← List.take_append_drop count (row :: rest), List.mapM_append, refused]
    rfl
  | case4 looks now _ row rest count front mapped inductionHypothesis =>
    have later := inductionHypothesis fun look within =>
      (Nat.lt_succ_iff_lt_or_eq.mp within).elim (quiet look) fun same => same ▸ now
    have joined := later.prepend mapped
    rw [List.take_append_drop, Nat.add_right_comm looks 1] at joined
    rw [batches]
    exact joined
  | case5 looks rows now refused => exact absurd taken refused

theorem fetch_of_interrupted (convert : α → Except Outside β) {interruption : Interruption}
    {looks : Nat} (now : (schedule looks).interruption? = some interruption) (rows : List α) :
    fetch driver size positive schedule convert looks rows = .error (.interrupted interruption) := by
  unfold fetch
  rw [now]

/-- Nothing is fetched when too much is asked for at a time. -/
theorem fetch_of_refused (convert : α → Except Outside β) (refused : driver.takes size = false)
    {looks : Nat} (quiet : schedule.IsQuiet looks) (rows : List α) :
    fetch driver size positive schedule convert looks rows = .error (.failed .overflow) := by
  unfold fetch
  rw [quiet, refused]
  rfl

/-- What has been fetched are all rows, converted one by one. -/
theorem mapM_of_fetch {convert : α → Except Outside β} {looks : Nat} {rows : List α}
    {found : List β}
    (fetched : fetch driver size positive schedule convert looks rows = .ok found) :
    rows.mapM convert = .ok found := by
  fun_induction fetch driver size positive schedule convert looks rows generalizing found with
  | case2 looks now => cases fetched; rfl
  | case4 looks now _ row rest count front mapped =>
    rename_i inductionHypothesis
    rw [← List.take_append_drop count (row :: rest), List.mapM_append, mapped]
    cases later : fetch driver size positive schedule convert (looks + 1)
        ((row :: rest).drop count) with
    | error stop => rw [later] at fetched; cases fetched
    | ok others =>
      rw [later] at fetched
      cases fetched
      rw [inductionHypothesis later]
      rfl
  | _ => cases fetched

end Fetching

/-! ### Answers -/

section Answers

variable {σ : Type} (c : Connection) (engine : Engine σ) (schedule : Schedule) (q : Query)
  {statement : String} {state after : σ} {rows : List Row}

/-- How many looks at the caller it takes to have all rows of an answer. -/
def Connection.looksFor (c : Connection) (driver : Driver) (rows : List Row) : Nat :=
  (batches driver c.fetchSize c.fetchSize_pos 1 rows).length + 2

theorem Connection.looksFor_le (driver : Driver) (rows : List Row) :
    c.looksFor driver rows ≤ rows.length + 2 :=
  Nat.add_le_add_right (length_batches_le driver c.fetchSize c.fetchSize_pos 1 rows) 2

/-- Before the statement is executed there is one look, and what is executed is fetched. -/
theorem fetches_runStatement (taken : engine.driver.takes c.fetchSize)
    (answered : engine.run c.mode q statement state = (.ok rows, after)) :
    Fetches schedule (c.looksFor engine.driver rows) (rows.mapM (keyed c.mode))
      (runStatement c engine schedule q statement state).1 := by
  unfold runStatement
  split
  next interruption now =>
    exact .interrupted interruption 0
      ⟨Nat.succ_pos _, fun earlier before => absurd before (Nat.not_lt_zero _), now⟩
  next now =>
    rw [answered]
    have quiet : ∀ look < 1, schedule.IsQuiet look := fun look within =>
      (Nat.lt_one_iff.mp within) ▸ now
    have fetched := fetches engine.driver c.fetchSize c.fetchSize_pos (keyed c.mode) taken 1 quiet rows
    rwa [Nat.add_comm 1] at fetched

theorem executeRequest_of_written (written : c.statement q = .ok statement) (state : σ) :
    executeRequest c engine (.ok schedule) q state =
      (⟨(runStatement c engine schedule q statement state).1.mapError (·.fault q statement),
          [⟨.debug, "SQL(" ++ q.title ++ "): " ++ statement⟩]⟩,
        (runStatement c engine schedule q statement state).2) := by
  unfold executeRequest
  rw [written]

/-- How a request ends whose answer is there to be fetched: with all rows in their order, or called off
or late, or refused for its names. -/
theorem outcome_cases (written : c.statement q = .ok statement)
    (taken : engine.driver.takes c.fetchSize)
    (answered : engine.run c.mode q statement state = (.ok rows, after)) :
    let looks := c.looksFor engine.driver rows
    let outcome := (executeRequest c engine (.ok schedule) q state).1.outcome
    ((∀ look < looks, schedule.IsQuiet look) ∧ c.mode.Keys rows ∧
        outcome = .ok (rows.map c.mode.key)) ∨
      (∃ interruption look, schedule.Interrupts looks interruption look ∧
        outcome = .error (.problem (interruption.problem statement))) ∨
      (¬c.mode.Keys rows ∧
        outcome = .error (.problem (.statementFailed q.title (.outside .sqlAmbiguous) statement))) := by
  dsimp only
  rw [executeRequest_of_written c engine schedule q written]
  have fetched := fetches_runStatement c engine schedule q taken answered
  generalize (runStatement c engine schedule q statement state).1 = ended at fetched ⊢
  cases fetched with
  | whole found quiet complete =>
    obtain ⟨keys, mapped⟩ | ⟨unkeyed, failed⟩ := mapM_keyed c.mode rows
    · cases mapped.symm.trans complete
      exact .inl ⟨quiet, keys, rfl⟩
    · cases failed.symm.trans complete
  | interrupted interruption look stopped =>
    exact .inr (.inl ⟨interruption, look, stopped, rfl⟩)
  | failed failure refused =>
    obtain ⟨keys, mapped⟩ | ⟨unkeyed, failed⟩ := mapM_keyed c.mode rows
    · cases mapped.symm.trans refused
    · cases failed.symm.trans refused
      exact .inr (.inr ⟨unkeyed, rfl⟩)

/-- A request that nobody calls off and that is never late ends as its rows have it, whatever number of
them is fetched at a time. -/
theorem outcome_of_quiet (written : c.statement q = .ok statement)
    (taken : engine.driver.takes c.fetchSize) (quiet : ∀ look, schedule.IsQuiet look)
    (answered : engine.run c.mode q statement state = (.ok rows, after)) :
    (executeRequest c engine (.ok schedule) q state).1.outcome =
      (rows.mapM (keyed c.mode)).mapError (databaseFault q statement) := by
  obtain ⟨-, keys, ended⟩ | ⟨interruption, look, stopped, -⟩ | ⟨unkeyed, ended⟩ :=
    outcome_cases c engine schedule q written taken answered
  · obtain ⟨-, mapped⟩ | ⟨unkeyed, -⟩ := mapM_keyed c.mode rows
    · rw [ended, mapped]
      rfl
    · exact absurd keys unkeyed
  · cases (quiet look).symm.trans stopped.now
  · obtain ⟨keys, -⟩ | ⟨-, failed⟩ := mapM_keyed c.mode rows
    · exact absurd keys unkeyed
    · rw [ended, failed]
      rfl

/-- An answer is fetched whole or not at all. With a look at the caller before the statement, one before
each batch and one for the end, which are no more than two beyond the number of rows, a request ends with
all rows in their order, or with the first interruption; only rows with a name of two columns are refused,
if values travel beside the statement. If the caller always goes on, this is settled by the rows
alone. If the request was called off before, nothing is executed. -/
theorem whole_or_cancelled (written : c.statement q = .ok statement)
    (taken : engine.driver.takes c.fetchSize) (state : σ) :
    (∀ rows after, engine.run c.mode q statement state = (.ok rows, after) →
      let looks := c.looksFor engine.driver rows
      let outcome := (executeRequest c engine (.ok schedule) q state).1.outcome
      looks ≤ rows.length + 2 ∧
      (((∀ look < looks, schedule.IsQuiet look) ∧ c.mode.Keys rows ∧
          outcome = .ok (rows.map c.mode.key)) ∨
        (∃ interruption look, schedule.Interrupts looks interruption look ∧
          outcome = .error (.problem (interruption.problem statement))) ∨
        (¬c.mode.Keys rows ∧ outcome =
          .error (.problem (.statementFailed q.title (.outside .sqlAmbiguous) statement)))) ∧
      ((∀ look, schedule.IsQuiet look) →
        outcome = (rows.mapM (keyed c.mode)).mapError (databaseFault q statement))) ∧
    ((schedule 0).isCancelled →
      (executeRequest c engine (.ok schedule) q state).1.outcome =
          .error (.problem (.wasCancelled statement)) ∧
        (executeRequest c engine (.ok schedule) q state).2 = state) := by
  refine ⟨fun rows after answered => ⟨c.looksFor_le engine.driver rows,
    outcome_cases c engine schedule q written taken answered, fun quiet =>
      outcome_of_quiet c engine schedule q written taken quiet answered⟩, fun cancelled => ?_⟩
  have now : (schedule 0).interruption? = some .cancelled := if_pos cancelled
  rw [executeRequest_of_written c engine schedule q written, runStatement, now]
  exact ⟨rfl, rfl⟩

end Answers

/-! ### Answers about a market -/

section Market

open Market

/-- A connection that fetches two rows at a time. -/
def pairwise : Connection := ⟨memoryAddress, .bound, 2, Nat.two_pos⟩

/-- The caller calls off its request after some looks. -/
def callsOffAfter (looks : Nat) : Schedule := fun look => ⟨looks ≤ look, false⟩

def alwaysGoesOn : Schedule := fun _ => ⟨false, false⟩

def allSales : Query := .scan "sales" .whole

theorem answer?_sales (layer : Layer) (unordered : layer.orderBy = []) :
    Database.answer? [salesTable] (.scan "sales" layer) =
      some ((Layer.page layer.limit layer.offset (layer.groups
        (selectRows salesTable.columns layer.predicates salesTable.rows))).map layer.project) := by
  have known : Database.table? [salesTable] "sales" = some salesTable := rfl
  rw [Database.answer?_scan known, layer.apply_of_unordered unordered]

theorem looksFor_sales : pairwise.looksFor tableEngine.driver salesTable.rows = 4 :=
  congrArg (· + 2) (length_batches_prompt 2 Nat.two_pos _ 1 salesTable.rows)

theorem interruption?_callsOffAfter (looks look : Nat) :
    (callsOffAfter looks look).interruption? = if looks ≤ look then some .cancelled else none := by
  by_cases reached : looks ≤ look <;> simp [callsOffAfter, Moment.interruption?, reached]

/-- The three sales come in two batches, for which there are four looks at the caller. Called off at the
last of them they are all dropped, and called off at the first of them nothing is executed. -/
theorem whole_or_cancelled_sales : ∃ statement, pairwise.statement allSales = .ok statement ∧
    (executeRequest pairwise tableEngine (.ok (callsOffAfter 4)) allSales [salesTable]).1.outcome =
      .ok salesTable.rows ∧
    (executeRequest pairwise tableEngine (.ok (callsOffAfter 3)) allSales [salesTable]).1.outcome =
      .error (.problem (.wasCancelled statement)) ∧
    (executeRequest pairwise tableEngine (.ok (callsOffAfter 0)) allSales [salesTable]).1.outcome =
      .error (.problem (.wasCancelled statement)) := by
  obtain ⟨statement, written⟩ : ∃ statement, pairwise.statement allSales = .ok statement := ⟨_, rfl⟩
  have taken : tableEngine.driver.takes pairwise.fetchSize := by decide
  have answered : tableEngine.run pairwise.mode allSales statement [salesTable] =
      (.ok salesTable.rows, [salesTable]) := by
    unfold tableEngine databaseAnswer
    dsimp only
    rw [allSales, answer?_sales Layer.whole rfl]
    rfl
  have keys : pairwise.mode.Keys salesTable.rows := fun _ => by decide
  have ends (looks : Nat) :=
    whole_or_cancelled pairwise tableEngine (callsOffAfter looks) allSales written taken [salesTable]
  refine ⟨statement, written, ?_, ?_, ((ends 0).2 rfl).1⟩
  · obtain ⟨-, -, whole⟩ | ⟨interruption, look, stopped, -⟩ | ⟨unkeyed, -⟩ :=
      ((ends 4).1 _ _ answered).2.1
    · exact whole
    · have now := stopped.now
      rw [interruption?_callsOffAfter, if_neg (Nat.not_le.mpr (looksFor_sales ▸ stopped.within))] at now
      cases now
    · exact absurd keys unkeyed
  · obtain ⟨quiet, -⟩ | ⟨interruption, look, stopped, ended⟩ | ⟨unkeyed, -⟩ :=
      ((ends 3).1 _ _ answered).2.1
    · have last := quiet 3 (by rw [looksFor_sales]; decide)
      cases last
    · have now := stopped.now
      rw [interruption?_callsOffAfter] at now
      split at now <;> cases now
      exact ended
    · exact absurd keys unkeyed

/-- The places of all sales under one name. -/
def placesTogether : Query :=
  .scan "sales" { Layer.whole with projections :=
    [⟨.column "place.country", "place"⟩, ⟨.column "place.city", "place"⟩] }

/-- Nobody calls off this request, and yet its answer is refused. -/
theorem exists_answer_refused : ∃ statement, pairwise.statement placesTogether = .ok statement ∧
    (executeRequest pairwise tableEngine (.ok alwaysGoesOn) placesTogether [salesTable]).1.outcome =
      .error (.problem (.statementFailed "query" (.outside .sqlAmbiguous) statement)) := by
  obtain ⟨statement, written⟩ : ∃ statement, pairwise.statement placesTogether = .ok statement :=
    ⟨_, rfl⟩
  have answered : tableEngine.run pairwise.mode placesTogether statement [salesTable] =
      (.ok [[("place", .text "AT"), ("place", .text "Linz")], [("place", .text "AT"), ("place", .null)],
        [("place", .text "AT"), ("place", .text "Linz")]], [salesTable]) := by
    unfold tableEngine databaseAnswer
    dsimp only
    rw [placesTogether, answer?_sales _ rfl]
    rfl
  refine ⟨statement, written, ?_⟩
  rw [outcome_of_quiet pairwise tableEngine alwaysGoesOn placesTogether written (by decide)
    (fun _ => rfl) answered]
  rfl

end Market

end Olap.Sql
