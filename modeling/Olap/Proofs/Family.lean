/-
Families of slices. Slices of one browser come from one another: a cut or a copy makes a new slice,
other operations change a slice in place, and aggregations leave summaries behind. Here is what any
number of such operations, in any order and with failures in between, makes of a family of slices.
Every slice of the family keeps true summaries only: a new or changed slice has none, and aggregating
adds a true one or nothing. So an aggregation comes to what it would have come to on a fresh slice of
the same cuts.
-/

import Olap.Proofs.Summaries

namespace Olap

/-- How a new slice is made of another. -/
inductive Derivation
  | cut (argument : CutArgument)
  | point (dimension path hierarchy : Description)
  | range (dimension low high : Description)
  | set (dimension paths hierarchy : Description)
  | copy

def Derivation.apply (slice : Slice) : Derivation → Result Slice
  | cut argument => slice.cutBy argument
  | point dimension path hierarchy => slice.cutByPoint dimension path hierarchy
  | range dimension low high => slice.cutByRange dimension low high
  | set dimension paths hierarchy => slice.cutBySet dimension paths hierarchy
  | copy => .ok slice.copy

/-- How a slice is changed in place. -/
inductive Change
  | addCut (argument : CutArgument)
  | removeCuts (dimension : Description)

def Change.apply (slice : Slice) : Change → Result Slice
  | addCut argument => slice.addCut argument
  | removeCuts dimension => .ok (slice.removeCuts dimension)

/-- What an aggregation is asked for with. -/
structure AggregateCall where
  measure : Description
  options : Description
  overrides : Fields Part
  computed : Result (List ComputedField)
  patience : Patience

/-- Something done with one slice of a family. -/
inductive Operation
  | derive (on : Nat) (derivation : Derivation)
  | change (on : Nat) (change : Change)
  | aggregate (on : Nat) (call : AggregateCall)

/-- The slices that one browser is used with, in the order in which they were made, with the state
of its store and the log. -/
structure Family (σ : Type) where
  slices : List Slice
  store : σ
  log : List LogLine

/-- Slices of lists of cuts that nothing has been done with. -/
def Family.fresh {σ : Type} (cube : Cube) (cuts : List (List Cut)) (store : σ)
    (log : List LogLine) : Family σ :=
  ⟨cuts.map (Slice.ofCuts cube), store, log⟩

namespace Browser

open Olap.Action

variable {σ τ : Type}

def call (b : Browser σ) (call : AggregateCall) : Action σ Aggregation :=
  b.aggregate call.measure call.options call.overrides call.computed call.patience

/-- What an aggregation of a slice of the family comes to, if there is such a slice. -/
def aggregateIn? (b : Browser σ) (family : Family σ) (on : Nat) (call : AggregateCall) :
    Option (Result Aggregation × Session σ) :=
  family.slices[on]?.map fun slice => (b.call call).perform ⟨slice, family.store, family.log⟩

/-- The family after an operation. What fails makes no slice and changes no cuts; nothing happens
without the slice that is meant. -/
def step (b : Browser σ) (family : Family σ) : Operation → Family σ
  | .derive on derivation =>
    match family.slices[on]?.map derivation.apply with
    | some (.ok slice) => { family with slices := family.slices ++ [slice] }
    | _ => family
  | .change on change =>
    match family.slices[on]?.map change.apply with
    | some (.ok slice) => { family with slices := family.slices.set on slice }
    | _ => family
  | .aggregate on call =>
    match b.aggregateIn? family on call with
    | some (_, after) => ⟨family.slices.set on after.slice, after.store, after.log⟩
    | none => family

/-- The family after operations one after the other. -/
def run (b : Browser σ) (family : Family σ) (operations : List Operation) : Family σ :=
  operations.foldl b.step family

/-- A slice that some operations lead to from fresh slices. -/
def Reaches (b : Browser σ) (slice : Slice) : Prop :=
  ∃ cuts store log operations,
    slice ∈ (b.run (Family.fresh b.cube cuts store log) operations).slices

/-- The same browser over another store. -/
def onStore (b : Browser σ) (store : Store τ) : Browser τ := ⟨b.cube, some store, b.options⟩

end Browser

/-- A store that always gives the rows that are the answer to a query. -/
def Store.steady (answer : Query → List Row) : Store Unit where
  execute request _ := (⟨.ok (answer request.query), []⟩, ())

/-! ### Slices keep true summaries -/

theorem Derivation.summaries_apply {slice made : Slice} {derivation : Derivation}
    (done : derivation.apply slice = .ok made) : made.summaries = [] := by
  cases derivation with
  | copy =>
    cases done
    rfl
  | cut | point | range | set =>
    obtain ⟨cut, -, rfl⟩ := Result.map_ok.1 done
    rfl

theorem Change.summaries_apply {slice changed : Slice} {change : Change}
    (done : change.apply slice = .ok changed) : changed.summaries = [] := by
  cases change with
  | addCut argument =>
    obtain ⟨cut, -, rfl⟩ := Result.map_ok.1 done
    rfl
  | removeCuts dimension =>
    cases done
    rfl

namespace Browser

open Olap.Action

variable {σ : Type} {b : Browser σ} {answers : Query → List Row → Prop}

/-- All slices of the family keep true summaries. -/
def AllKeepTrue (b : Browser σ) (answers : Query → List Row → Prop) (family : Family σ) : Prop :=
  ∀ slice ∈ family.slices, b.KeepsTrue answers slice

theorem allKeepTrue_fresh (cuts : List (List Cut)) (store : σ) (log : List LogLine) :
    b.AllKeepTrue answers (Family.fresh b.cube cuts store log) := by
  intro slice member
  obtain ⟨own, -, rfl⟩ := List.mem_map.mp member
  exact keepsTrue_of_nil b answers rfl

/-- A fresh slice is reached by doing nothing. -/
theorem reaches_ofCuts [Inhabited σ] (cuts : List Cut) : b.Reaches (Slice.ofCuts b.cube cuts) :=
  ⟨[cuts], default, [], [], List.mem_singleton_self _⟩

theorem AllKeepTrue.set {family : Family σ} (all : b.AllKeepTrue answers family) {on : Nat}
    {slice : Slice} (kept : b.KeepsTrue answers slice) (store : σ) (log : List LogLine) :
    b.AllKeepTrue answers ⟨family.slices.set on slice, store, log⟩ := by
  intro other member
  rcases List.mem_or_eq_of_mem_set member with old | rfl
  · exact all other old
  · exact kept

/-- Every operation leaves true summaries only, even when it fails. -/
theorem StoreAnswers.step (given : b.StoreAnswers answers) {family : Family σ}
    (all : b.AllKeepTrue answers family) (operation : Operation) :
    b.AllKeepTrue answers (b.step family operation) := by
  cases operation with
  | derive on derivation =>
    rw [Browser.step]
    split
    · rename_i made made_eq
      obtain ⟨slice, -, done⟩ := Option.map_eq_some_iff.1 made_eq
      intro other member
      rcases List.mem_append.mp member with old | new
      · exact all other old
      · rw [List.mem_singleton.mp new]
        exact keepsTrue_of_nil b answers (Derivation.summaries_apply done)
    · exact all
  | change on change =>
    rw [Browser.step]
    split
    · rename_i changed changed_eq
      obtain ⟨slice, -, done⟩ := Option.map_eq_some_iff.1 changed_eq
      exact all.set (keepsTrue_of_nil b answers (Change.summaries_apply done)) _ _
    · exact all
  | aggregate on call =>
    rw [Browser.step]
    split
    · rename_i outcome after came
      obtain ⟨slice, looked, done⟩ := Option.map_eq_some_iff.1 came
      have kept := given.keeps_aggregate slice.cuts call.measure call.options call.overrides
        call.computed call.patience ⟨slice, family.store, family.log⟩
        ⟨rfl, all slice (List.mem_of_getElem? looked)⟩
      rw [show b.aggregate _ _ _ _ _ = b.call call from rfl, done] at kept
      exact all.set kept.2 _ _
    · exact all

/-- Every slice that operations lead to keeps true summaries. -/
theorem StoreAnswers.run (given : b.StoreAnswers answers) {family : Family σ}
    (all : b.AllKeepTrue answers family) (operations : List Operation) :
    b.AllKeepTrue answers (b.run family operations) := by
  induction operations generalizing family with
  | nil => exact all
  | cons operation rest inductionHypothesis =>
    exact inductionHypothesis (given.step all operation)

theorem StoreAnswers.keepsTrue_of_reaches (given : b.StoreAnswers answers) {slice : Slice}
    (reached : b.Reaches slice) : b.KeepsTrue answers slice := by
  obtain ⟨cuts, store, log, operations, member⟩ := reached
  exact given.run (allKeepTrue_fresh cuts store log) operations slice member

end Browser

/-! ### A market -/

namespace Market

/-- A level of places with one attribute. -/
def level (name : String) : Level :=
  Level.attach { (default : Level) with
    name := some name, attributes := [.ofName .attribute (some name)], key := name
    labelAttribute := name } "place"

/-- From countries down to cities. -/
def cities : Hierarchy :=
  { (default : Hierarchy) with
    name := some "cities", levels := [level "country", level "city"], dimension := some "place" }

/-- Places are countries and the cities in them. -/
def place : Dimension :=
  { (default : Dimension) with
    name := "place", levels := [level "country", level "city"], hierarchies := [cities] }

/-- Amounts sold at places. -/
def sales : Cube :=
  { (default : Cube) with
    name := "sales", keyField := "id", measures := [.ofName .measure (some "amount")]
    dimensions := [place] }

/-- A store that fails when it is asked for the first time, and gives the same rows from then on. -/
def hesitant (rows : List Row) : Store Bool where
  execute _ asked := (⟨if asked then .ok rows else .error (.outside .wrongType), []⟩, true)

/-- The sum of the amounts, with some options. -/
def sum (options : Fields Part) : AggregateCall :=
  ⟨.text "amount", .record options, [], .ok [], ⟨.null, none⟩⟩

/-- The sum in every country, in the order of the sums. -/
def sumByCountry : AggregateCall :=
  sum [("row_dimension", .text "place"), ("row_levels", .text "country"),
    ("order_by", .text "amount_sum")]

def austria : Row :=
  [("amount_sum", .int 5), ("record_count", .int 2), ("place.country", .text "AT")]

end Market

namespace Browser

open Olap.Action Market

variable {σ : Type} {b : Browser σ}

/-! ### Keeping summaries has no bearing on results -/

/-- Over a store that always gives the answer, a fresh slice has the summary that a slice of the
same cuts was given by a store that may fail. -/
theorem perform_summary_fresh {answer : Query → List Row}
    (given : b.StoreAnswers fun q rows => rows = answer q) {measure : Option String}
    {o : AggregateOptions} {patience : Patience} {session middle : Session σ} {summary : Row}
    (kept : b.KeepsTrue (fun q rows => rows = answer q) session.slice)
    (done : perform (b.summary measure o patience) session = (.ok summary, middle)) :
    ∃ after, perform ((b.onStore (Store.steady answer)).summary measure o patience)
          ⟨Slice.ofCuts b.cube session.slice.cuts, (), []⟩ = (.ok summary, after) ∧
        after.slice.cuts = session.slice.cuts := by
  obtain ⟨key, keyed⟩ := summaryKey_of_summary done
  obtain ⟨p, query, rows, same, compiled, announced, answered, rfl⟩ := given.of_summary kept done
  rw [b.compiler.summary_congr _ _ same] at compiled
  have empty : (b.onStore (Store.steady answer)).KeepsTrue (fun q rows => rows = answer q)
      (Slice.ofCuts b.cube session.slice.cuts) := keepsTrue_of_nil _ _ rfl
  have announcedToo : (b.onStore (Store.steady answer)).CanAnnounce query := announced
  exact perform_summary rfl empty keyed compiled announcedToo
    (fun _ => congrArg Except.ok answered.symm) (fun _ other => other.trans answered.symm)

/-- Drilling down over a store that always gives the answer comes to what it came to before. -/
theorem perform_drillDown_fresh {answer : Query → List Row}
    (given : b.StoreAnswers fun q rows => rows = answer q) {measure : Option String}
    {o : AggregateOptions} {computed : List ComputedField} {summary : Row} {patience : Patience}
    {session after : Session σ} {a : Aggregation} {fresh : Session Unit}
    (same : fresh.slice.cuts = session.slice.cuts)
    (done : perform (b.drillDown measure o computed summary patience) session = (.ok a, after)) :
    ∃ freshAfter,
      perform ((b.onStore (Store.steady answer)).drillDown measure o computed summary patience)
        fresh = (.ok a, freshAfter) := by
  rcases drillDown_ok.1 done with ⟨none, rfl, -⟩ | ⟨query, found, compiled, executed, extended⟩
  · refine ⟨fresh, drillDown_ok.2 (Or.inl ⟨?_, ?_, rfl⟩)⟩
    · rw [same]
      exact none
    · rw [same]
      rfl
  · obtain ⟨announced, answered⟩ := given.of_execute executed
    have announcedToo : (b.onStore (Store.steady answer)).CanAnnounce query := announced
    obtain ⟨state, log, again⟩ : ∃ state log,
        perform ((b.onStore (Store.steady answer)).execute query patience) fresh =
          (.ok found, ⟨fresh.slice, state, log⟩) :=
      perform_execute rfl announcedToo (fun _ => congrArg Except.ok answered.symm) fresh
    refine ⟨⟨fresh.slice, state, log⟩, drillDown_ok.2 (Or.inr ⟨query, found, ?_, again, ?_⟩)⟩
    · rw [same]
      exact compiled
    · rw [same]
      exact extended

/-- After any operations, an aggregation that comes to a result comes to the very result that the
same call has on a fresh slice of the same cuts when no statement fails. -/
theorem aggregate_eq_on_fresh_slice {answer : Query → List Row}
    (given : b.StoreAnswers fun q rows => rows = answer q) (cuts : List (List Cut)) (store : σ)
    (log : List LogLine) (operations : List Operation) (on : Nat) (call : AggregateCall)
    {a : Aggregation} {after : Session σ}
    (came : b.aggregateIn? (b.run (Family.fresh b.cube cuts store log) operations) on call =
      some (.ok a, after)) :
    ∃ slice, (b.run (Family.fresh b.cube cuts store log) operations).slices[on]? = some slice ∧
      (((b.onStore (Store.steady answer)).call call).perform
        ⟨Slice.ofCuts b.cube slice.cuts, (), []⟩).1 = .ok a := by
  obtain ⟨slice, looked, done⟩ := Option.map_eq_some_iff.1 came
  have kept : b.KeepsTrue (fun q rows => rows = answer q) slice :=
    given.run (allKeepTrue_fresh cuts store log) operations slice (List.mem_of_getElem? looked)
  refine ⟨slice, looked, ?_⟩
  obtain ⟨o, m, fields, summary, middle, accepted, known, computed, summed, drilled⟩ :=
    aggregate_ok.1 done
  have stays := given.keeps_summary slice.cuts m.name o call.patience
    ⟨slice, (b.run (Family.fresh b.cube cuts store log) operations).store,
      (b.run (Family.fresh b.cube cuts store log) operations).log⟩ ⟨rfl, kept⟩
  rw [summed] at stays
  obtain ⟨fresh, summedFresh, same⟩ := perform_summary_fresh given kept summed
  obtain ⟨freshAfter, drilledFresh⟩ :=
    perform_drillDown_fresh given (same.trans stays.1.symm) drilled
  have again : perform ((b.onStore (Store.steady answer)).call call)
      ⟨Slice.ofCuts b.cube slice.cuts, (), []⟩ = (.ok a, freshAfter) :=
    aggregate_ok.2 ⟨o, m, fields, summary, fresh, accepted, known, computed, summedFresh,
      drilledFresh⟩
  rw [again]

/-- The first aggregation fails, the second one computes the summary, and the third one, with other
options, finds it. -/
theorem aggregate_eq_on_fresh_slice_of_hesitant :
    ∃ slice a,
      (Browser.run ⟨sales, some (hesitant [austria]), .unset⟩ (Family.fresh sales [[]] false [])
        [.aggregate 0 (sum []), .aggregate 0 (sum [])]).slices[0]? = some slice ∧
      a.summary = [("sum", .int 5), ("record_count", .int 2)] ∧
      (perform (Browser.call ⟨sales, some (Store.steady fun _ => [austria]), .unset⟩ sumByCountry)
        ⟨Slice.ofCuts sales slice.cuts, (), []⟩).1 = .ok a := by
  have given : Browser.StoreAnswers ⟨sales, some (hesitant [austria]), .unset⟩
      fun _ rows => rows = [austria] := by
    rintro _ ⟨⟩ request asked rows answered
    cases asked
    · cases answered
    · exact (Except.ok.inj answered).symm
  obtain ⟨slice, looked, again⟩ := aggregate_eq_on_fresh_slice given [[]] false []
    [.aggregate 0 (sum []), .aggregate 0 (sum [])] 0 sumByCountry rfl
  exact ⟨slice, _, looked, rfl, again⟩

end Browser

end Olap
