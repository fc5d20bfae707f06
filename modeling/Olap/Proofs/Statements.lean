/-
Which queries can be written. Over a table any column can be named, so only a condition of an unknown
kind is in the way of a statement. Over another query only the columns that it selects can be named,
and only when no two of them share a name. The queries that aggregations compile to meet the first of
this, as their conditions are comparisons, and a limit ranks by a column that is selected.
-/

import Olap.Proofs.Compiled
import Olap.Proofs.Layout

namespace Olap

/-- The columns that a layer names of what it reads. -/
def Layer.namedColumns (layer : Layer) : List String :=
  layer.projections.filterMap (·.expression.column?) ++ layer.predicates.map (·.column) ++
    layer.groupBy ++ layer.orderBy.map (·.column)

theorem Layer.forall_namedColumns_iff {layer : Layer} {property : String → Prop} :
    (∀ name ∈ layer.namedColumns, property name) ↔
      (∀ p ∈ layer.projections, ∀ name ∈ p.expression.column?, property name) ∧
        (∀ p ∈ layer.predicates, property p.column) ∧ (∀ name ∈ layer.groupBy, property name) ∧
        ∀ order ∈ layer.orderBy, property order.column := by
  have projected : (∀ name ∈ layer.projections.filterMap (·.expression.column?), property name) ↔
      ∀ p ∈ layer.projections, ∀ name ∈ p.expression.column?, property name := by
    simp only [List.mem_filterMap]
    constructor
    · exact fun each p member name own => each name ⟨p, member, own⟩
    · rintro each name ⟨p, member, own⟩
      exact each p member name own
  simp only [namedColumns, List.forall_mem_append, List.forall_mem_map, projected, and_assoc]

namespace Sql

variable {dialect : Dialect} {columns : Columns} {inner : Bool} {source : List Piece}
  {layer : Layer}

theorem exists_every {α β : Type} (f : α → Result β) (items : List α)
    (each : ∀ item ∈ items, ∃ b, f item = .ok b) : ∃ all, every f items = .ok all := by
  induction items with
  | nil => exact ⟨[], rfl⟩
  | cons item rest inductionHypothesis =>
    obtain ⟨b, first⟩ := each item List.mem_cons_self
    obtain ⟨others, later⟩ := inductionHypothesis fun other member =>
      each other (List.mem_cons_of_mem _ member)
    refine ⟨b :: others, ?_⟩
    rw [every, first, later]
    rfl

theorem exists_every_iff {α β : Type} {f : α → Result β} {items : List α} :
    (∃ all, every f items = .ok all) ↔ ∀ item ∈ items, ∃ b, f item = .ok b := by
  refine ⟨?_, exists_every f items⟩
  rintro ⟨all, found⟩ item member
  have pairs := forall₂_of_every found
  obtain ⟨i, within, rfl⟩ := List.mem_iff_getElem.mp member
  exact ⟨_, pairs.get within (pairs.length_eq ▸ within)⟩

theorem exists_map_iff {α β : Type} {result : Result α} {f : α → β} :
    (∃ b, result.map f = .ok b) ↔ ∃ a, result = .ok a := by
  cases result <;> simp [Except.map]

/-- Conditions of the kinds that can be written. -/
def IsKnown : Predicate → Prop
  | .equals .. | .between .. | .present _ => True
  | .other _ => False

theorem isKnown_of_isComparison {p : Predicate} (comparison : Compiler.IsComparison p) :
    IsKnown p := by
  cases p with
  | equals => trivial
  | between => trivial
  | present => trivial
  | other => cases comparison

theorem exists_projectionPieces_iff {p : Projection} :
    (∃ pieces, projectionPieces columns p = .ok pieces) ↔
      ∀ name ∈ p.expression.column?, ∃ pieces, columns.reference name = .ok pieces := by
  rw [projectionPieces, exists_map_iff]
  cases p.expression with
  | column name => simp [expressionPieces, Expression.column?]
  | aggregate function column =>
    cases column with
    | none => simp [expressionPieces, Expression.column?]
    | some name =>
      rw [expressionPieces, exists_map_iff]
      simp [Expression.column?]

theorem exists_predicatePieces_iff {p : Predicate} :
    (∃ pieces, predicatePieces dialect columns p = .ok pieces) ↔
      (∃ pieces, columns.reference p.column = .ok pieces) ∧ IsKnown p := by
  unfold predicatePieces
  cases referred : columns.reference p.column with
  | error fault => simp [bind, Except.bind]
  | ok pieces =>
    cases p with
    | equals name value => cases value <;> simp [bind, Except.bind, pure, Except.pure, IsKnown]
    | _ => simp [bind, Except.bind, pure, Except.pure, IsKnown, fail]

theorem exists_selectionPieces_iff {projections : List (List Piece)} :
    (∃ pieces, selectionPieces inner columns layer projections = .ok pieces) ↔
      (layer.projections = [] → ∃ pieces, columns.everything inner = .ok pieces) := by
  unfold selectionPieces
  split <;> simp_all

/-- A layer can be written when its source has the columns that it names, its conditions are known, and
the columns can be told apart if all of them are kept. -/
theorem exists_layerPieces_iff :
    (∃ pieces, layerPieces dialect inner source columns layer = .ok pieces) ↔
      (∀ name ∈ layer.namedColumns, ∃ pieces, columns.reference name = .ok pieces) ∧
      (∀ p ∈ layer.predicates, IsKnown p) ∧
      (layer.projections = [] → ∃ pieces, columns.everything inner = .ok pieces) := by
  have parts : (∃ pieces, layerPieces dialect inner source columns layer = .ok pieces) ↔
      (∃ all, every (projectionPieces columns) layer.projections = .ok all) ∧
        (∃ all, every (predicatePieces dialect columns) layer.predicates = .ok all) ∧
        (∃ all, every columns.reference layer.groupBy = .ok all) ∧
        (∃ all, every (orderingPieces columns) layer.orderBy = .ok all) ∧
        (layer.projections = [] → ∃ pieces, columns.everything inner = .ok pieces) := by
    constructor
    · rintro ⟨pieces, written⟩
      obtain ⟨projections, conditions, groups, orders, selection, projected, compared, grouped,
        ordered, chosen, -⟩ := exists_of_layerPieces written
      exact ⟨⟨_, projected⟩, ⟨_, compared⟩, ⟨_, grouped⟩, ⟨_, ordered⟩,
        exists_selectionPieces_iff.mp ⟨_, chosen⟩⟩
    · rintro ⟨⟨projections, projected⟩, ⟨_, compared⟩, ⟨_, grouped⟩, ⟨_, ordered⟩, kept⟩
      obtain ⟨_, chosen⟩ : ∃ pieces, selectionPieces inner columns layer projections = .ok pieces :=
        exists_selectionPieces_iff.mpr kept
      rw [layerPieces_eq]
      exact ⟨_, Result.bind_ok.2 ⟨_, projected, Result.bind_ok.2 ⟨_, compared, Result.bind_ok.2
        ⟨_, grouped, Result.bind_ok.2 ⟨_, ordered, Result.bind_ok.2 ⟨_, chosen, rfl⟩⟩⟩⟩⟩⟩
  rw [parts, Layer.forall_namedColumns_iff]
  simp only [exists_every_iff, exists_projectionPieces_iff, exists_predicatePieces_iff,
    orderingPieces, exists_map_iff, forall_and]
  tauto

/-- A query over a table can be written when its conditions are known. -/
theorem exists_scanPieces (dialect : Dialect) (inner : Bool) (table : String) {layer : Layer}
    (known : ∀ p ∈ layer.predicates, IsKnown p) :
    ∃ pieces, queryPieces dialect inner (.scan table layer) = .ok pieces :=
  exists_layerPieces_iff.mpr ⟨fun _ _ => ⟨_, rfl⟩, known, fun _ => ⟨_, rfl⟩⟩

theorem isAmbiguous_eq_false {names : List String} (distinct : names.Nodup) :
    isAmbiguous names = false := by
  induction names with
  | nil => rfl
  | cons name rest inductionHypothesis =>
    rw [List.nodup_cons] at distinct
    rw [isAmbiguous, inductionHypothesis distinct.2, Bool.or_false]
    simpa using distinct.1

/-- A selected column can be named when the names differ. -/
theorem reference_of_mem {names : List String} (distinct : names.Nodup) {name : String}
    (member : name ∈ names) : (Columns.named names).reference name = .ok [.raw "s.", .name name] := by
  rw [Columns.reference, isAmbiguous_eq_false distinct, if_neg Bool.false_ne_true,
    if_pos (List.contains_iff_mem.mpr member)]

theorem exists_reference_iff {names : List String} (distinct : names.Nodup) {name : String} :
    (∃ pieces, (Columns.named names).reference name = .ok pieces) ↔ name ∈ names := by
  refine ⟨?_, fun member => ⟨_, reference_of_mem distinct member⟩⟩
  rintro ⟨pieces, referred⟩
  rw [Columns.reference, isAmbiguous_eq_false distinct, if_neg Bool.false_ne_true] at referred
  split at referred
  · exact List.contains_iff_mem.mp ‹_›
  · cases referred

theorem exists_everything {names : List String} (distinct : names.Nodup) :
    ∃ pieces, (Columns.named names).everything inner = .ok pieces := by
  rw [Columns.everything, isAmbiguous_eq_false distinct]
  exact ⟨_, rfl⟩

/-- Ranking by one of the names that are selected can be written when the names differ. -/
theorem exists_rankingPieces (dialect : Dialect) (source : List Piece) {names : List String}
    (distinct : names.Nodup) (outer : Layer) (plain : outer.projections = [])
    (free : outer.predicates = []) (grouped : outer.groupBy = [])
    (known : ∀ order ∈ outer.orderBy, order.column ∈ names) :
    ∃ pieces, layerPieces dialect false source (.named names) outer = .ok pieces := by
  refine exists_layerPieces_iff.mpr ⟨Layer.forall_namedColumns_iff.mpr ?_, ?_, fun _ =>
    exists_everything distinct⟩
  · rw [plain, free, grouped]
    exact ⟨List.forall_mem_nil _, List.forall_mem_nil _, List.forall_mem_nil _, fun order member =>
      ⟨_, reference_of_mem distinct (known order member)⟩⟩
  · rw [free]
    exact List.forall_mem_nil _

theorem isAmbiguous_iff {names : List String} : isAmbiguous names = true ↔ ¬ names.Nodup := by
  induction names with
  | nil => simp [isAmbiguous]
  | cons name rest inductionHypothesis =>
    rw [isAmbiguous, Bool.or_eq_true, inductionHypothesis, List.nodup_cons, List.contains_iff_mem,
      not_and_or, not_not]

/-- Nothing can be ranked by a column when columns share a name. -/
theorem layerPieces_ambiguous (dialect : Dialect) (source : List Piece) {names : List String}
    (repeated : ¬ names.Nodup) {outer : Layer} (plain : outer.projections = [])
    (free : outer.predicates = []) (grouped : outer.groupBy = []) {order : RowOrder}
    (ordered : outer.orderBy = [order]) :
    layerPieces dialect false source (.named names) outer = .error (.outside .sqlAmbiguous) := by
  have named : (Columns.named names).reference order.column = .error (.outside .sqlAmbiguous) := by
    rw [Columns.reference, isAmbiguous_iff.mpr repeated]
    rfl
  unfold layerPieces
  rw [plain, free, grouped, ordered, every, every, every, every, orderingPieces, named]
  rfl

/-- A ranking by a selected column can be written exactly when no two selected columns share a name. -/
theorem queryPieces_ranking (dialect : Dialect) (table : String) {inner : Layer} (outer : Layer)
    (filled : inner.projections ≠ []) (known : ∀ p ∈ inner.predicates, IsKnown p)
    (plain : outer.projections = []) (free : outer.predicates = []) (grouped : outer.groupBy = [])
    {order : RowOrder} (ordered : outer.orderBy = [order])
    (chosen : order.column ∈ inner.projections.map (·.name)) :
    ((inner.projections.map (·.name)).Nodup ∧
      ∃ pieces, queryPieces dialect false (.derived (.scan table inner) outer) = .ok pieces) ∨
    (¬ (inner.projections.map (·.name)).Nodup ∧
      queryPieces dialect false (.derived (.scan table inner) outer) =
        .error (.outside .sqlAmbiguous)) := by
  obtain ⟨pieces, written⟩ := exists_scanPieces dialect true table known
  have same : queryPieces dialect false (.derived (.scan table inner) outer) =
      layerPieces dialect false ([Piece.raw "("] ++ pieces ++ [.raw ") AS s"])
        (.named (inner.projections.map (·.name))) outer := by
    rw [queryPieces, written, selected, List.isEmpty_eq_false_iff.mpr filled]
    rfl
  rw [same]
  by_cases distinct : (inner.projections.map (·.name)).Nodup
  · refine Or.inl ⟨distinct, exists_rankingPieces dialect _ distinct outer plain free grouped ?_⟩
    rw [ordered]
    exact List.forall_mem_singleton.mpr chosen
  · exact Or.inr ⟨distinct, layerPieces_ambiguous dialect _ distinct plain free grouped ordered⟩

end Sql

namespace Compiler

variable {c : Compiler} {cuts : List Cut} {m : Attribute} {o : AggregateOptions}

/-- The conditions of cuts can be written. -/
theorem isKnown_of_predicates {conditions : List Predicate}
    (compiled : c.predicates cuts = .ok conditions) : ∀ p ∈ conditions, Sql.IsKnown p :=
  fun p member => Sql.isKnown_of_isComparison (isComparison_of_predicates compiled p member)

theorem isKnown_of_pathConditions {levels : List Level} {path : List Value}
    {conditions : List Predicate} (compiled : c.pathConditions levels path = .ok conditions) :
    ∀ p ∈ conditions, Sql.IsKnown p :=
  fun p member => Sql.isKnown_of_isComparison (isComparison_of_pathConditions compiled p member)

/-- So can those of a path, and the condition that there is a value at the level below. -/
theorem isKnown_of_listing {levels : List Level} {path : List Value} {conditions along : List Predicate}
    (compiled : c.predicates cuts = .ok conditions)
    (pathCompiled : c.pathConditions levels path = .ok along) (column : String) :
    ∀ p ∈ conditions ++ along ++ [.present column], Sql.IsKnown p :=
  List.forall_mem_append.mpr ⟨List.forall_mem_append.mpr
    ⟨isKnown_of_predicates compiled, isKnown_of_pathConditions pathCompiled⟩,
    List.forall_mem_singleton.mpr trivial⟩

/-- The number of records is always selected. -/
theorem groupedLayer_filled (conditions : List Predicate) (attributes : List Attribute)
    (order : List RowOrder) :
    (c.groupedLayer m o attributes conditions order).projections ≠ [] :=
  List.ne_nil_of_mem (List.mem_append_left _ (recordProjection_mem o.operators))

/-- The aggregation that rows are ranked by is selected. -/
theorem rankedBy_selected (accepted : o.IsAccepted) (limited : o.hasLimit = true)
    (conditions : List Predicate) (attributes : List Attribute) (order : List RowOrder) :
    aggregatedName (shownName m.name) o.rankedBy ∈
      (c.groupedLayer m o attributes conditions order).projections.map (·.name) := by
  obtain ⟨function, known⟩ := accepted.exists_aggregate? (accepted.rankedBy_mem limited)
  exact List.mem_map.mpr ⟨c.aggregateProjection m o.rankedBy function,
    List.mem_append_left _ (mem_aggregateProjections (accepted.rankedBy_mem limited) known), rfl⟩

end Compiler

namespace Browser

open Compiler

variable {c : Compiler} {cuts : List Cut} {m : Attribute} {o : AggregateOptions}

/-- A query whose pieces can be written has a statement. -/
theorem exists_statement {q : Query} (written : ∃ pieces, Sql.queryPieces .generic false q = .ok pieces) :
    ∃ text, statement q = .ok text := by
  obtain ⟨pieces, written⟩ := written
  unfold statement Sql.text
  rw [written]
  exact ⟨_, rfl⟩

/-- A query over a table has a statement when its conditions are known. -/
theorem exists_statement_scan (table : String) {layer : Layer}
    (known : ∀ p ∈ layer.predicates, Sql.IsKnown p) :
    ∃ text, statement (.scan table layer) = .ok text :=
  exists_statement (Sql.exists_scanPieces .generic false table known)

/-- The query of a drill-down has a statement when the selected names differ. -/
theorem exists_statement_drilled {conditions : List Predicate} {attributes : List Attribute}
    {order : List RowOrder} (drills : c.Drills cuts m o conditions attributes order)
    (accepted : o.IsAccepted)
    (distinct : (c.drilled m o conditions attributes order).aliases.Nodup) :
    ∃ text, statement (c.drilled m o conditions attributes order) = .ok text := by
  have known := isKnown_of_predicates drills.compiled
  rw [aliases_drilled, ← map_name_groupedLayer] at distinct
  unfold drilled
  split
  · rename_i limited
    rcases Sql.queryPieces_ranking .generic c.table (rankLimit m o (.scan c.table default)).layer
      (groupedLayer_filled conditions attributes order) known rfl rfl rfl rfl
      (rankedBy_selected accepted limited conditions attributes order) with
      ⟨-, written⟩ | ⟨repeated, -⟩
    · exact exists_statement written
    · exact absurd distinct repeated
  · exact exists_statement_scan c.table known

end Browser

end Olap
