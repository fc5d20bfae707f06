/-
The keys of rows. A query over another one can be written only when every column that it names is one of
the names of that, and rows of a database that labels them as the statement says are keyed by the names
of the query.
-/

import Olap.Proofs.Batches
import Olap.Proofs.GroupOrders
import Olap.Proofs.Labels
import Olap.Proofs.Literals

namespace Olap

open Sql

/-! ### What is named of an inner query -/

namespace Query

/-- Every column that is named of an inner query is one of its names, at every depth. -/
def KeepsToSources : Query → Prop
  | scan .. => True
  | derived source layer =>
    source.KeepsToSources ∧ ∀ name ∈ layer.namedColumns, name ∈ source.aliases

/-- No two columns share a name, at any depth. -/
def HasDistinctNames : Query → Prop
  | scan table layer => (scan table layer).aliases.Nodup
  | derived source layer => source.HasDistinctNames ∧ (derived source layer).aliases.Nodup

instance decidableKeepsToSources : (q : Query) → Decidable q.KeepsToSources
  | scan .. => inferInstanceAs (Decidable True)
  | derived source layer =>
    have := decidableKeepsToSources source
    inferInstanceAs (Decidable (source.KeepsToSources ∧
      ∀ name ∈ layer.namedColumns, name ∈ source.aliases))

instance decidableHasDistinctNames : (q : Query) → Decidable q.HasDistinctNames
  | scan table layer => inferInstanceAs (Decidable (scan table layer).aliases.Nodup)
  | derived source layer =>
    have := decidableHasDistinctNames source
    inferInstanceAs (Decidable (source.HasDistinctNames ∧ (derived source layer).aliases.Nodup))

/-- All conditions are of kinds that can be written, at every depth. -/
def HasKnownConditions (q : Query) : Prop := ∀ layer ∈ layers q, ∀ p ∈ layer.predicates, IsKnown p

variable {q : Query} {dialect : Dialect} {inner : Bool}

theorem HasDistinctNames.nodup (distinct : q.HasDistinctNames) : q.aliases.Nodup := by
  cases q with
  | scan table layer => exact distinct
  | derived source layer => exact distinct.2

/-- If columns are selected inside, the names of the columns are known outside. -/
theorem selected_of_innermost (selects : q.innermost.projections ≠ []) :
    selected q = .named q.aliases := by
  induction q with
  | scan table layer => exact if_neg fun empty => selects (List.isEmpty_iff.mp empty)
  | derived source layer inductionHypothesis =>
    rw [selected, aliases]
    split
    · exact inductionHypothesis selects
    · rfl

/-- A query that selects columns inside, no two of one name, can be written exactly when what it names
of inner queries are names of theirs, and its conditions are known. -/
theorem exists_queryPieces_iff (selects : q.innermost.projections ≠ []) (distinct : q.HasDistinctNames) :
    (∃ pieces, queryPieces dialect inner q = .ok pieces) ↔
      q.KeepsToSources ∧ q.HasKnownConditions := by
  induction q generalizing inner with
  | scan table layer =>
    have named (name : String) : ∃ pieces, Columns.table.reference name = .ok pieces := ⟨_, rfl⟩
    rw [queryPieces, exists_layerPieces_iff, KeepsToSources, HasKnownConditions, layers,
      List.forall_mem_singleton]
    constructor
    · rintro ⟨-, known, -⟩
      exact ⟨trivial, known⟩
    · rintro ⟨-, known⟩
      exact ⟨fun name _ => named name, known, fun empty => absurd empty selects⟩
  | derived source layer inductionHypothesis =>
    have own (below : List Piece) :
        (∃ pieces, layerPieces dialect inner below (selected source) layer = .ok pieces) ↔
          (∀ name ∈ layer.namedColumns, name ∈ source.aliases) ∧
            ∀ p ∈ layer.predicates, IsKnown p := by
      rw [exists_layerPieces_iff, selected_of_innermost (q := source) selects]
      simp only [exists_reference_iff distinct.1.nodup, exists_everything distinct.1.nodup,
        implies_true, and_true]
    have parts : (∃ pieces, queryPieces dialect inner (.derived source layer) = .ok pieces) ↔
        (∃ below, queryPieces dialect true source = .ok below) ∧
          (∀ name ∈ layer.namedColumns, name ∈ source.aliases) ∧
            ∀ p ∈ layer.predicates, IsKnown p := by
      constructor
      · rintro ⟨pieces, made⟩
        obtain ⟨below, inside, made⟩ := exists_of_derivedPieces made
        exact ⟨⟨below, inside⟩, (own _).mp ⟨pieces, made⟩⟩
      · rintro ⟨⟨below, inside⟩, good⟩
        rw [queryPieces, inside]
        exact (own _).mpr good
    have conditions : (Query.derived source layer).HasKnownConditions ↔
        source.HasKnownConditions ∧ ∀ p ∈ layer.predicates, IsKnown p := by
      simp only [HasKnownConditions, layers, List.forall_mem_append, List.forall_mem_singleton]
    rw [parts, inductionHypothesis selects distinct.1, conditions, KeepsToSources, and_and_and_comm]

end Query

namespace Sql

/-! ### Rows of a statement -/

variable {σ : Type}

/-- A database labels its rows as the statements say that are sent over a connection. -/
def Engine.LabelsRows (engine : Engine σ) (c : Connection) : Prop :=
  ∀ (q : Query) (statement : String) (state after : σ) (rows : List Row) (labels : List String),
    c.statement q = .ok statement → engine.run c.mode q statement state = (.ok rows, after) →
      labels? statement = some labels → ∀ row ∈ rows, Record.keys row = labels

theorem answer?_of_databaseAnswer {mode : Mode} {db : Database} {q : Query} {rows : List Row}
    (answered : databaseAnswer mode db q = .ok rows) : db.answer? q = some rows := by
  unfold databaseAnswer at answered
  split at answered
  · cases answered
  · rename_i found told
    split at answered
    · cases answered
    · split at answered <;> cases answered
      exact told

theorem Columns.eq_named {columns : Columns} {names : List String} (known : columns.names? = some names) :
    columns = .named names := by
  cases columns <;> cases known
  rfl

/-- The database of finite tables labels rows so. -/
theorem labelsRows_tableEngine (c : Connection) : tableEngine.LabelsRows c := by
  intro q statement db after rows labels written ran labelled
  rw [labels?_of_text written] at labelled
  obtain ⟨⟨types, found⟩, evaluated, rfl⟩ :=
    Option.map_eq_some_iff.mp (answer?_of_databaseAnswer (congrArg Prod.fst ran))
  have named : selected (q.settled true) = .named labels :=
    (selected_settled q true).trans (Columns.eq_named labelled)
  exact Query.keys_of_evaluate? named evaluated

/-- Rows that are handed out are all that the database has found, keyed by name. -/
theorem exists_found_of_outcome {c : Connection} {engine : Engine σ} {schedule : Result Schedule}
    {q : Query} {state : σ} {rows : List Row}
    (answered : (executeRequest c engine schedule q state).1.outcome = .ok rows) :
    ∃ statement found after, c.statement q = .ok statement ∧
      engine.run c.mode q statement state = (.ok found, after) ∧
      found.mapM (keyed c.mode) = .ok rows := by
  cases written : c.statement q with
  | error fault => rw [executeRequest, written] at answered; cases answered
  | ok statement =>
    cases schedule with
    | error fault => rw [executeRequest, written] at answered; cases answered
    | ok schedule =>
      rw [executeRequest_of_written c engine schedule q written] at answered
      unfold runStatement at answered
      split at answered
      · cases answered
      · split at answered
        · cases answered
        · rename_i found after ran
          refine ⟨statement, found, after, rfl, ran, ?_⟩
          dsimp only at answered
          cases fetched : fetch engine.driver c.fetchSize c.fetchSize_pos schedule (keyed c.mode) 1
              found with
          | error stop => rw [fetched] at answered; cases answered
          | ok whole =>
            rw [fetched] at answered
            cases answered
            exact mapM_of_fetch engine.driver c.fetchSize c.fetchSize_pos fetched

/-- Keying does not change rows whose columns have different names. -/
theorem mapM_keyed_of_nodup (mode : Mode) {rows : List Row} {names : List String}
    (keys : ∀ row ∈ rows, Record.keys row = names) (distinct : names.Nodup) :
    rows.mapM (keyed mode) = .ok rows := by
  induction rows with
  | nil => rfl
  | cons row rest inductionHypothesis =>
    obtain ⟨first, later⟩ := List.forall_mem_cons.mp keys
    rw [List.mapM_cons, keyed_of_nodup (first.symm ▸ distinct), inductionHypothesis later]
    rfl

section Market

open Market

/-- What was sold in which city, and of that, with the columns renamed, the first sale in some city. -/
def firstSold : Query :=
  .derived
    (.derived
      (.scan "sales" { Layer.whole with
        projections := [⟨.column "place.city", "city"⟩, ⟨.column "amount", "sold"⟩] })
      { Layer.whole with predicates := [.present "city"] })
    { Layer.whole with projections := [⟨.column "sold", "amount"⟩, ⟨.column "city", "place"⟩]
                       limit := some 1 }

theorem answer?_firstSold : Database.answer? [salesTable] firstSold =
    some [[("amount", .int 3), ("place", .text "Linz")]] := by
  have known : Database.table? [salesTable] "sales" = some salesTable := rfl
  have settled : firstSold.settled true = firstSold := rfl
  rw [Database.answer?, settled, firstSold, Database.evaluate?, Database.evaluate?,
    Database.evaluate?, known, Option.map_some, Option.map_some, Option.map_some]
  dsimp only
  rw [Layer.apply_of_unordered _ rfl, Layer.apply_of_unordered _ rfl, Layer.apply_of_unordered _ rfl]
  rfl

end Market

end Sql

end Olap
