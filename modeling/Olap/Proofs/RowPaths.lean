/-
Paths of rows. The path of a row leads to it along a hierarchy: at each place it has the row's own
key, or else the value of the last point that the dimension is cut at, or else the wildcard. The
row's own keys are true of every fact of the row, because rows are grouped by them. A value of the
point is true of all facts of the slice, but in the column that the point is about, which is that of
a level of the hierarchy that the point was given. Along another hierarchy it may be taken for a key
of a level that it says nothing about.
-/

import Olap.Proofs.GroupOrders
import Olap.Proofs.Selections
import Olap.Proofs.TableRows

namespace Olap

open Olap.Action

/-! ### The last point -/

/-- The point that a dimension is cut at last. -/
def Cut.IsLastPoint (dimension : String) (cuts : List Cut) (hierarchy : Option String)
    (path : List Value) : Prop :=
  ∃ before after, cuts = before ++ .point dimension hierarchy path :: after ∧
    ∀ other ∈ after, ∀ known items, other ≠ .point dimension known items

theorem Cut.IsLastPoint.mem {dimension : String} {cuts : List Cut} {hierarchy : Option String}
    {path : List Value} (last : IsLastPoint dimension cuts hierarchy path) :
    .point dimension hierarchy path ∈ cuts := by
  obtain ⟨before, after, rfl, -⟩ := last
  exact List.mem_append_right _ List.mem_cons_self

namespace Aggregation

theorem cutPath_concat_point (dimension : String) (cuts : List Cut) (hierarchy : Option String)
    (path : List Value) : cutPath dimension (cuts ++ [.point dimension hierarchy path]) = path := by
  unfold cutPath
  rw [List.foldl_concat]
  exact if_pos (beq_self_eq_true dimension)

theorem cutPath_concat_other {dimension : String} (cuts : List Cut) {last : Cut}
    (other : ∀ hierarchy path, last ≠ .point dimension hierarchy path) :
    cutPath dimension (cuts ++ [last]) = cutPath dimension cuts := by
  unfold cutPath
  rw [List.foldl_concat]
  cases last with
  | point name hierarchy path =>
    have different : name ≠ dimension := fun same => other hierarchy path (by rw [same])
    exact if_neg (by simpa using different)
  | range | set | bare => rfl

/-- What rows take from the cuts is the path of the last point, if there is one. -/
theorem cutPath_cases (dimension : String) (cuts : List Cut) :
    cutPath dimension cuts = [] ∨
      ∃ hierarchy, Cut.IsLastPoint dimension cuts hierarchy (cutPath dimension cuts) := by
  induction cuts using List.reverseRecOn with
  | nil => exact Or.inl rfl
  | append_singleton cuts last inductionHypothesis =>
    by_cases other : ∀ hierarchy path, last ≠ .point dimension hierarchy path
    · -- The last point of the cuts before it is still the last one.
      rw [cutPath_concat_other cuts other]
      refine inductionHypothesis.imp_right ?_
      rintro ⟨hierarchy, before, after, split, none⟩
      exact ⟨hierarchy, before, after ++ [last],
        (congrArg (· ++ [last]) split).trans (List.append_assoc ..),
        List.forall_mem_append.mpr ⟨none, List.forall_mem_singleton.mpr other⟩⟩
    · simp only [ne_eq, not_forall, not_not] at other
      obtain ⟨hierarchy, path, rfl⟩ := other
      rw [cutPath_concat_point]
      exact Or.inr ⟨hierarchy, cuts, [], rfl, List.forall_mem_nil _⟩

end Aggregation

/-! ### Facts of rows -/

namespace Compiler

variable {c : Compiler} {m : Attribute} {o : AggregateOptions} {attributes : List Attribute}
  {conditions : List Predicate} {order : List RowOrder} {table : Table} {group : List Row}

/-- The facts of a row: those of some facts that have its keys. -/
def factsOf (c : Compiler) (attributes : List Attribute) (facts : List Row) (record : Row) : List Row :=
  facts.filter fun fact => Cell.sameKey (Browser.keyOf (attributes.map (·.refText)) record)
    (fact.key (attributes.map c.column))

/-- The row of a group in the result of a drill-down. -/
def groupRow (c : Compiler) (m : Attribute) (o : AggregateOptions) (attributes : List Attribute)
    (conditions : List Predicate) (order : List RowOrder) (group : List Row) : Row :=
  Browser.numberFields (Browser.aggregatedFields m.name o.operators)
    ((c.groupedLayer m o attributes conditions order).project group)

/-- A row has aggregates and attributes, and nothing else. -/
theorem mem_names_of_get?_groupRow {name : String} {value : Value}
    (found : Record.get? (c.groupRow m o attributes conditions order group) name = some value) :
    name ∈ (c.aggregateProjections m o.operators).map (·.name) ∨ name ∈ attributes.map (·.refText) := by
  rw [groupRow, Browser.get?_numberFields] at found
  obtain ⟨before, present, -⟩ := Option.map_eq_some_iff.mp found
  have names : Record.keys ((c.groupedLayer m o attributes conditions order).project group) =
      (c.aggregateProjections m o.operators).map (·.name) ++ attributes.map (·.refText) :=
    (Layer.keys_project (groupedLayer_filled conditions attributes order) group).trans
      map_name_groupedLayer
  rw [← List.mem_append, ← names]
  by_contra absent
  rw [Record.get?_eq_none_iff.mpr absent] at present
  cases present

/-- The facts of the row of a group are the group. -/
theorem factsOf_groupRow (accepted : o.IsAccepted)
    (distinct : ((c.aggregateProjections m o.operators).map (·.name) ++
      attributes.map (·.refText)).Nodup) (some : attributes ≠ []) {facts : List Row}
    (known : group ∈ (c.groupedLayer m o attributes conditions order).groups facts) :
    c.factsOf attributes facts (c.groupRow m o attributes conditions order group) = group ∧
      ∃ fact ∈ group, ∀ a ∈ attributes,
        Record.get? (c.groupRow m o attributes conditions order group) a.refText =
          .some (fact.cell (c.column a)) := by
  have names : ((c.groupedLayer m o attributes conditions order).projections.map (·.name)).Nodup := by
    rwa [map_name_groupedLayer]
  obtain ⟨fact, inside, standing⟩ := Layer.exists_standing_of_mem_groups
    (by simpa [groupedLayer] using some) known
  have same : ∀ a ∈ attributes,
      Record.get? (c.groupRow m o attributes conditions order group) a.refText =
        .some (fact.cell (c.column a)) := fun a member =>
    Browser.get?_numberFields_attribute names standing
      (List.mem_append_right _ (List.mem_map_of_mem member))
      (Browser.refText_notMem_aggregatedFields accepted distinct a member)
  refine ⟨?_, fact, inside, same⟩
  unfold factsOf
  rw [Browser.keyOf_eq_key same]
  exact ((Browser.shares_groupedLayer c m o attributes conditions order facts).alike group known fact
    inside).symm

/-- A row has the keys of its facts. -/
theorem has_of_groupRow (stored : table.IsStored) (accepted : o.IsAccepted)
    (distinct : ((c.aggregateProjections m o.operators).map (·.name) ++
      attributes.map (·.refText)).Nodup)
    (known : group ∈ (c.groupedLayer m o attributes conditions order).groups
      (selectRows table.columns conditions table.rows)) {a : Attribute} (selected : a ∈ attributes)
    {value : Value}
    (found : Record.get? (c.groupRow m o attributes conditions order group) a.refText = some value) :
    ∀ fact ∈ group,
      Cell.Has (Record.get? table.columns (c.column a)) value (fact.cell (c.column a)) := by
  obtain ⟨-, first, inside, same⟩ :=
    factsOf_groupRow accepted distinct (List.ne_nil_of_mem selected) known
  obtain rfl : first.cell (c.column a) = value :=
    Option.some.inj ((same a selected).symm.trans found)
  intro fact member
  have held := (Browser.shares_groupedLayer c m o attributes conditions order _).mem_of_mem known inside
  have agrees := Layer.same_of_mem_groups known (List.mem_map_of_mem selected) inside member
  rw [← Predicate.holds_equals (stored first (List.mem_filter.mp held).1 _) fact] at agrees
  exact (Predicate.holds_equals_iff _).mp agrees

/-- Facts that are selected meet every cut. -/
theorem isMetBy_of_mem_selectRows {cuts : List Cut} (compiled : c.predicates cuts = .ok conditions)
    {fact : Row} (selected : fact ∈ selectRows table.columns conditions table.rows) :
    ∀ cut ∈ cuts, cut.IsMetBy c table.columns fact := by
  have each := List.all_eq_true.mp (exists_predicates_iff.mp ⟨conditions, compiled⟩)
  have meets := (List.mem_filter.mp selected).2
  rw [all_holds_predicates compiled, List.all_eq_true] at meets
  exact fun cut member => (admits_iff (each cut member)).mp (meets cut member)

/-! ### What paths are true of -/

/-- The paths of rows can be read along a hierarchy: no aggregated field is called like a key, and
where a row has no key of its own the last point of the dimension, if it has a value there, is about
the same column. -/
structure ReadsAlong (c : Compiler) (cuts : List Cut) (aggregates : List String)
    (attributes : List Attribute) (d : Dimension) (h : Hierarchy) (depth : Nat) : Prop where
  apart : ∀ place ≤ depth, ∀ level key, h.levels[place]? = some level → level.keyAttribute = .ok key →
    key.refText ∉ aggregates
  agrees : ∀ hierarchy path g, Cut.IsLastPoint d.name cuts hierarchy path →
    d.hierarchy (.ofOption hierarchy) = .ok g → ∀ place ≤ depth, ∀ level key value,
      h.levels[place]? = some level → level.keyAttribute = .ok key →
      key.refText ∉ attributes.map (·.refText) → path[place]? = some value → value ≠ .wildcard →
      ∃ other otherKey, g.levels[place]? = some other ∧ other.keyAttribute = .ok otherKey ∧
        c.column otherKey = c.column key

/-- A value of the last point is true of all facts that meet the cuts. -/
theorem ReadsAlong.has_of_cutPath {cuts : List Cut} {aggregates : List String} {d : Dimension}
    {h : Hierarchy} {depth : Nat} (reads : c.ReadsAlong cuts aggregates attributes d h depth)
    (held : c.cube.dimension d.name = .ok d) {types : ColumnTypes} {fact : Row}
    (meets : ∀ cut ∈ cuts, cut.IsMetBy c types fact) {place : Nat} (above : place ≤ depth)
    {level : Level} (there : h.levels[place]? = some level) {key : Attribute}
    (keyed : level.keyAttribute = .ok key) (unknown : key.refText ∉ attributes.map (·.refText))
    {value : Value} (listed : (Aggregation.cutPath d.name cuts)[place]? = some value)
    (closed : value ≠ .wildcard) :
    Cell.Has (Record.get? types (c.column key)) value (fact.cell (c.column key)) := by
  rcases Aggregation.cutPath_cases d.name cuts with none | ⟨hierarchy, last⟩
  · rw [none] at listed
    cases listed
  · obtain ⟨known, g, looked, found, all⟩ := meets _ last.mem
    cases held.symm.trans looked
    obtain ⟨other, otherKey, below, otherKeyed, same⟩ :=
      reads.agrees hierarchy _ g last found place above level key value there keyed unknown listed closed
    obtain ⟨again, againKey, belowToo, keyedToo, has⟩ := all place value listed closed
    cases below.symm.trans belowToo
    cases otherKeyed.symm.trans keyedToo
    rwa [same] at has

/-- Paths can be read along the hierarchy that the dimension is cut along. -/
theorem readsAlong_of_own {cuts : List Cut} {aggregates : List String} {d : Dimension} {h : Hierarchy}
    {depth : Nat}
    (apart : ∀ place ≤ depth, ∀ level key, h.levels[place]? = some level →
      level.keyAttribute = .ok key → key.refText ∉ aggregates)
    (own : ∀ hierarchy path, Cut.IsLastPoint d.name cuts hierarchy path →
      d.hierarchy (.ofOption hierarchy) = .ok h) :
    c.ReadsAlong cuts aggregates attributes d h depth where
  apart := apart
  agrees := by
    intro hierarchy path g last found place _ level key value there keyed _ _ _
    cases (own hierarchy path last).symm.trans found
    exact ⟨level, key, there, keyed, rfl⟩

end Compiler

/-- The values in the path of a row are true of facts: at the place of a level of a hierarchy they
have the value in the column of its key. -/
def TableRow.IsTrueOf (row : TableRow) (c : Compiler) (types : ColumnTypes) (h : Hierarchy)
    (facts : List Row) : Prop :=
  ∀ (place : Nat) value, row.path[place]? = some value → value ≠ .wildcard →
    ∃ level key, h.levels[place]? = some level ∧ level.keyAttribute = .ok key ∧
      ∀ fact ∈ facts, Cell.Has (Record.get? types (c.column key)) value (fact.cell (c.column key))

/-! ### A market with zones -/

namespace Market

/-- From zones down to cities, past the countries. -/
def zones : Hierarchy :=
  { (default : Hierarchy) with
    name := some "zones", levels := [level "zone", level "city"], dimension := some "place" }

/-- Cities are in countries and in zones. -/
def zonedPlace : Dimension :=
  { place with
    levels := place.levels ++ [level "zone"], hierarchies := [cities, zones] }

def zonedSales : Cube := { sales with dimensions := [zonedPlace] }

/-- One sale in a city in the north. -/
def zonedTable : Table :=
  { name := "sales"
    columns := [("place.country", .text), ("place.city", .text), ("place.zone", .text),
      ("amount", .integer)]
    rows := [[("place.country", .text "AT"), ("place.city", .text "Linz"),
      ("place.zone", .text "north"), ("amount", .int 3)]] }

def zonedBrowser : Browser Unit := ⟨zonedSales, some (Database.evaluator [zonedTable]), .unset⟩

theorem zonedBrowser_overTable : zonedBrowser.OverTable [zonedTable] zonedTable :=
  ⟨⟨_, rfl, Database.evaluates_evaluator _⟩, rfl⟩

theorem isStored_zonedTable : zonedTable.IsStored := by
  intro fact member column
  obtain rfl := List.mem_singleton.mp member
  simp only [zonedTable, Row.cell, Record.get?_cons]
  split_ifs
  all_goals first
    | exact Cell.isStored_int (by decide) _
    | exact Cell.isStored_text (by decide) _
    | exact Cell.isStored_text (Or.inl rfl) _

theorem isSound_zonedSales : zonedSales.IsSound := by
  have city : zonedPlace.levels.find? (·.name == some "city") = some (level "city") := rfl
  refine List.forall_mem_singleton.mpr { isSettled_place with
    levels := List.forall_mem_append.mpr ⟨isSettled_place.levels, List.forall_mem_singleton.mpr
      ⟨isSettled_level (isName_of_strip (by decide)), List.forall_mem_singleton.mpr rfl⟩⟩
    levelsOnce := by decide
    hierarchies := List.forall_mem_cons.mpr ⟨?_, List.forall_mem_singleton.mpr ?_⟩
    hierarchiesOnce := by decide }
  · exact ⟨(isSettled_place.hierarchies cities (List.mem_singleton_self _)).1,
      List.forall_mem_cons.mpr ⟨rfl, List.forall_mem_singleton.mpr city⟩⟩
  · exact ⟨⟨isName_of_strip (by decide), fun _ _ => List.not_mem_nil, List.cons_ne_nil _ _, by decide⟩,
      List.forall_mem_cons.mpr ⟨rfl, List.forall_mem_singleton.mpr city⟩⟩

/-- The sales in the north. -/
def inNorth : Slice := Slice.ofCuts zonedSales [.point "place" (some "zones") [.text "north"]]

end Market

namespace Browser

open Compiler Market

variable {σ : Type} {b : Browser σ} {db : Database} {table : Table} {call : AggregateCall}
  {m : Attribute} {session after : Session σ} {a : Aggregation}

/-! ### Rows of a call -/

/-- The result of a call without computed fields has rows of groups of the facts that the cuts select. -/
theorem OverTable.exists_groups_of_call (onTable : b.OverTable db table)
    (lawful : ∀ given, call.options = .object (.aggregateOptions given) → given.IsAccepted)
    (plain : call.computed = .ok []) (measured : b.cube.measure call.measure = .ok m)
    (done : perform (b.call call) session = (.ok a, after)) (drilling : a.options.isDrillDown = true)
    {attributes : List Attribute} (grouped : b.compiler.rowAttributes a.options = .ok attributes)
    (distinct : ((b.compiler.aggregateProjections m a.options.operators).map (·.name) ++
      attributes.map (·.refText)).Nodup) :
    a.cube = some b.cube ∧ a.cuts = session.slice.cuts ∧ a.options.IsAccepted ∧
      ∃ conditions order kept, b.compiler.predicates session.slice.cuts = .ok conditions ∧
        kept ⊆ (b.compiler.groupedLayer m a.options attributes conditions order).groups
          (selectRows table.columns conditions table.rows) ∧
        a.rows = kept.map (b.compiler.groupRow m a.options attributes conditions order) := by
  obtain ⟨known, fields, accepted, measuredToo, computed, bound, same,
    ⟨bare, -⟩ | ⟨query, found, middle, compiled, executed, finished⟩⟩ := rows_of_aggregate done
  · unfold drill at bare
    rw [drilling, if_neg (by simp)] at bare
    obtain ⟨_, -, bare⟩ := Result.bind_ok.1 bare
    obtain ⟨_, -, bare⟩ := Result.bind_ok.1 bare
    cases bare
  · cases measured.symm.trans measuredToo
    cases plain.symm.trans computed
    obtain ⟨-, other, conditions, others, order, named, drills, rfl⟩ := drill_ok.1 compiled
    cases (Cube.measure_of_name measured).symm.trans named
    cases grouped.symm.trans drills.grouped
    obtain ⟨kept, part, -, answered⟩ := onTable.answer?_drilled m a.options conditions attributes order
    have expected := (onTable.storeAnswers.of_execute executed).2 _ (by rwa [aliases_drilled]) answered
    refine ⟨bound, same, AggregateOptions.isAccepted_of_accept lawful accepted, conditions, order, kept,
      same ▸ drills.compiled, part.subset, ?_⟩
    rw [expected, finishRows, ComputedField.extendAll_nil, List.map_map] at finished
    exact (Except.ok.inj finished).symm

/-! ### Paths of the rows of a call -/

/-- The path of a row that is shown of a group is true of the group. -/
theorem isTrueOf_tableRow (stored : table.IsStored) {c : Compiler} {o : AggregateOptions}
    (accepted : o.IsAccepted) {attributes : List Attribute}
    (distinct : ((c.aggregateProjections m o.operators).map (·.name) ++
      attributes.map (·.refText)).Nodup) (some : attributes ≠ [])
    {cuts : List Cut} {conditions : List Predicate} (compiled : c.predicates cuts = .ok conditions)
    {order : List RowOrder} {group : List Row}
    (known : group ∈ (c.groupedLayer m o attributes conditions order).groups
      (selectRows table.columns conditions table.rows))
    {d : Dimension} (held : c.cube.dimension d.name = .ok d) {h : Hierarchy} {depth : Nat}
    (reads : c.ReadsAlong cuts ((c.aggregateProjections m o.operators).map (·.name)) attributes d h
      depth)
    {keyOf : Level → Attribute} (keyed : ∀ level ∈ h.levels, level.keyAttribute = .ok (keyOf level))
    (same : a.cuts = cuts) (key label : Attribute) :
    (a.tableRow d h depth keyOf key label
      (c.groupRow m o attributes conditions order group)).IsTrueOf c table.columns h group := by
  obtain ⟨-, first, -, whole⟩ := factsOf_groupRow accepted distinct some known
  intro place value listed closed
  rw [Aggregation.tableRow, Aggregation.getElem?_rowPath, List.getElem?_map] at listed
  obtain ⟨_, among, listed⟩ := Option.map_eq_some_iff.mp listed
  obtain ⟨level, taken, rfl⟩ := Option.map_eq_some_iff.mp among
  rw [List.getElem?_take, Option.ite_none_right_eq_some] at taken
  obtain ⟨within, there⟩ := taken
  have above : place ≤ depth := Nat.le_of_lt_succ within
  have keyedHere := keyed level (List.mem_of_getElem? there)
  refine ⟨level, keyOf level, there, keyedHere, fun fact member => ?_⟩
  cases own : Record.get? (c.groupRow m o attributes conditions order group) (keyOf level).refText with
  | some found =>
    -- The row has the key: rows are grouped by its column, unless an aggregate goes by its name.
    rw [own] at listed
    obtain rfl : found = value := listed
    rcases mem_names_of_get?_groupRow own with aggregate | reference
    · exact absurd aggregate (reads.apart place above level _ there keyedHere)
    · obtain ⟨a, selected, called⟩ := List.mem_map.mp reference
      have column : c.column a = c.column (keyOf level) := congrArg c.cube.columnName called
      rw [← called] at own
      have has := has_of_groupRow stored accepted distinct known selected own fact member
      rwa [column] at has
  | none =>
    -- The row does not have the key, so the value is that of the last point.
    rw [own] at listed
    have unknown : (keyOf level).refText ∉ attributes.map (·.refText) := by
      intro reference
      obtain ⟨a, selected, called⟩ := List.mem_map.mp reference
      have present := whole a selected
      rw [called, own] at present
      cases present
    have inside := (shares_groupedLayer c m o attributes conditions order _).mem_of_mem known member
    rw [same] at listed
    cases pointed : (Aggregation.cutPath d.name cuts)[place]? with
    | none =>
      rw [pointed] at listed
      exact absurd listed.symm closed
    | some found =>
      rw [pointed] at listed
      obtain rfl : found = value := listed
      exact reads.has_of_cutPath held (isMetBy_of_mem_selectRows compiled inside) above there keyedHere
        unknown pointed closed

/-- The paths of the rows of a table are true. In the result of a call without computed fields every row
tells of its facts, of which there are some, and its path has a place for every level down to the one
that was asked for last, with the row's own keys. Along a hierarchy that paths can be read along, all
facts of the row have, at every place of its path that is not the wildcard, the value in the column of
the key of the level at that place. -/
theorem OverTable.paths_of_tableRows (onTable : b.OverTable db table) (stored : table.IsStored)
    (sound : b.cube.IsSound)
    (lawful : ∀ given, call.options = .object (.aggregateOptions given) → given.IsAccepted)
    (plain : call.computed = .ok []) (measured : b.cube.measure call.measure = .ok m)
    (done : perform (b.call call) session = (.ok a, after)) {dimension hierarchy : Description}
    {d : Dimension} (held : b.cube.dimensionOf dimension = .ok d) {h : Hierarchy}
    (found : d.hierarchy hierarchy = .ok h) (drilled : a.options.rowDimension = some d.name)
    {depth : Nat} (ends : h.EndsAt a.options.levels depth) {attributes : List Attribute}
    (grouped : b.compiler.rowAttributes a.options = .ok attributes)
    (distinct : ((b.compiler.aggregateProjections m a.options.operators).map (·.name) ++
      attributes.map (·.refText)).Nodup)
    (reads : b.compiler.ReadsAlong session.slice.cuts
      ((b.compiler.aggregateProjections m a.options.operators).map (·.name)) attributes d h depth) :
    ∃ facts rows, b.factsIn table session.slice.cuts = .ok facts ∧
      a.tableRows dimension hierarchy = .ok rows ∧ rows.map (·.record) = a.rows ∧
      ∀ row ∈ rows, b.compiler.factsOf attributes facts row.record ≠ [] ∧
        Tells (fieldOf m.name) (b.compiler.column m) a.options.operators row.record
          (b.compiler.factsOf attributes facts row.record) ∧
        row.KeepsKeys h depth ∧
        row.IsTrueOf b.compiler table.columns h (b.compiler.factsOf attributes facts row.record) := by
  have dimensionHeld := Cube.dimension_name held
  have settled := sound d (Cube.mem_of_dimensionOf held)
  obtain ⟨last, listed, indexed⟩ := ends
  have asked : last ∈ a.options.levels := List.mem_of_getLast? listed
  have drilling : a.options.isDrillDown = true := by
    simpa [AggregateOptions.isDrillDown] using List.ne_nil_of_mem asked
  obtain ⟨bound, same, accepted, conditions, order, kept, compiled, part, rowsEq⟩ :=
    onTable.exists_groups_of_call lawful plain measured done drilling grouped distinct
  have shows : a.Shows dimension hierarchy d h := ⟨⟨b.cube, bound, sound, held⟩, found, drilled⟩
  obtain ⟨keyOf, keyed⟩ := shows.provides.exists_keyOf
  obtain ⟨level, label, below, -, shown⟩ := shows.exists_tableRows ⟨last, listed, indexed⟩ keyed
  -- The key of the last level is among the attributes, so there is something to group by.
  obtain ⟨again, belowToo, named, -⟩ := Hierarchy.levelIndex_ok indexed
  cases below.symm.trans belowToo
  have inside := List.mem_of_getElem? below
  have some : attributes ≠ [] := List.ne_nil_of_mem (mem_rowAttributes settled dimensionHeld drilled
    grouped asked (shows.provides.own inside) named (Level.keyAttribute_mem (keyed level inside)))
  refine ⟨selectRows table.columns conditions table.rows, _, Result.map_ok.2 ⟨conditions, compiled, rfl⟩,
    shown, ?_, ?_⟩
  · rw [List.map_map]
    exact List.map_id _
  · intro row member
    obtain ⟨record, among, rfl⟩ := List.mem_map.mp member
    rw [rowsEq] at among
    obtain ⟨group, inKept, rfl⟩ := List.mem_map.mp among
    have known := part inKept
    obtain ⟨facts, fact, filled, -⟩ := factsOf_groupRow accepted distinct some known
    rw [Aggregation.record_tableRow, facts]
    have names : ((b.compiler.groupedLayer m a.options attributes conditions order).projections.map
        (·.name)).Nodup := by
      rwa [map_name_groupedLayer]
    exact ⟨List.ne_nil_of_mem filled,
      tells_numberFields names (fun p member => List.mem_append_left _ member) group,
      a.keepsKeys_tableRow d (List.getElem?_eq_some_iff.mp below).1 keyed _ _ _,
      isTrueOf_tableRow stored accepted distinct some compiled known dimensionHeld reads keyed same _ _⟩

/-- The rows of the cities in Austria, one of which is unknown, lead over their country to them. -/
theorem OverTable.paths_of_tableRows_inAustria :
    ∃ a after facts rows, perform (salesBrowser.call byCityAlone) ⟨inAustria, (), []⟩ = (.ok a, after) ∧
      salesBrowser.factsIn salesTable inAustria.cuts = .ok facts ∧
      a.tableRows (.text "place") (.text "cities") = .ok rows ∧ rows ≠ [] ∧
      ∀ row ∈ rows, salesBrowser.compiler.factsOf [city] facts row.record ≠ [] ∧
        row.KeepsKeys cities 1 ∧ row.IsTrueOf salesBrowser.compiler salesTable.columns cities
          (salesBrowser.compiler.factsOf [city] facts row.record) := by
  have drilling := (⟨rfl, fun _ same => (by cases same), rfl, rfl, rfl, by decide⟩ :
    salesBrowser.Drilling inAustria byCityAlone _ (.ofName .measure (some "amount")) _)
  obtain ⟨summary, groups, kept, rowOf, found, performed⟩ :=
    drilling.perform_call salesBrowser_overTable reaches_inAustria rfl rfl () []
  obtain ⟨a, after, done, filled, drilled, listed, grouped, names⟩ :
      ∃ a after, perform (salesBrowser.call byCityAlone) ⟨inAustria, (), []⟩ = (.ok a, after) ∧
        a.rows ≠ [] ∧ a.options.rowDimension = some "place" ∧ a.options.levels = ["city"] ∧
        salesBrowser.compiler.rowAttributes a.options = .ok [city] ∧
        (salesBrowser.compiler.aggregateProjections (.ofName .measure (some "amount"))
          a.options.operators).map (·.name) = ["amount_sum", "record_count"] := by
    obtain ⟨after, done⟩ := (performed [] _ rfl (ComputedField.extendAll_nil _)).1 rfl
    have some : kept ≠ [] := found.kept_ne_nil rfl rfl (List.cons_ne_nil _ _)
    exact ⟨_, after, done, by simpa using some, rfl, rfl, rfl, rfl⟩
  have held : sales.dimensionOf (.text "place") = .ok place := rfl
  have found : place.hierarchy (.text "cities") = .ok cities := rfl
  have reads : salesBrowser.compiler.ReadsAlong inAustria.cuts ["amount_sum", "record_count"] [city]
      place cities 1 := by
    refine readsAlong_of_own ?_ fun hierarchy path last => ?_
    · rintro (_ | _ | place) above level key there keyed
      · cases there
        cases keyed
        decide
      · cases there
        cases keyed
        decide
      · omega
    · cases List.mem_singleton.mp last.mem
      rfl
  obtain ⟨facts, rows, restricted, shown, records, all⟩ := salesBrowser_overTable.paths_of_tableRows
    isStored_salesTable isSound_sales (fun _ same => by cases same) rfl rfl done held found drilled
    ⟨"city", by rw [listed]; rfl, rfl⟩ grouped (by rw [names]; decide) (by rw [names]; exact reads)
  refine ⟨a, after, facts, rows, done, restricted, shown, ?_, fun row member =>
    ⟨(all row member).1, (all row member).2.2⟩⟩
  rintro rfl
  exact filled records.symm

/-- A slice that is cut along one hierarchy has rows whose paths along another one are not true: the
city in the north is shown as one in a country of that name. -/
theorem exists_path_of_other_hierarchy :
    zonedBrowser.OverTable [zonedTable] zonedTable ∧ zonedTable.IsStored ∧ zonedSales.IsSound ∧
      ∃ a after facts rows, perform (zonedBrowser.call byCityAlone) ⟨inNorth, (), []⟩ = (.ok a, after) ∧
        zonedBrowser.factsIn zonedTable inNorth.cuts = .ok facts ∧
        a.tableRows (.text "place") (.text "cities") = .ok rows ∧
        ∃ row ∈ rows, ¬row.IsTrueOf zonedBrowser.compiler zonedTable.columns cities
          (zonedBrowser.compiler.factsOf [city] facts row.record) := by
  have drilling := (⟨rfl, fun _ same => (by cases same), rfl, rfl, rfl, by decide⟩ :
    zonedBrowser.Drilling inNorth byCityAlone _ (.ofName .measure (some "amount")) _)
  have restricted : zonedBrowser.factsIn zonedTable inNorth.cuts = .ok zonedTable.rows := rfl
  obtain ⟨summary, groups, kept, rowOf, found, performed⟩ := drilling.perform_call
    zonedBrowser_overTable (reaches_ofCuts inNorth.cuts) rfl restricted () []
  obtain ⟨after, done⟩ := (performed [] _ rfl (ComputedField.extendAll_nil _)).1 rfl
  have filled : kept ≠ [] := found.kept_ne_nil rfl rfl (List.cons_ne_nil _ _)
  -- The row is that of a group, so it does not have the country.
  have distinct : (["amount_sum", "record_count"] ++ ["place.city"]).Nodup := by decide
  obtain ⟨-, -, -, conditions, order, others, -, -, same⟩ := zonedBrowser_overTable.exists_groups_of_call
    drilling.lawful rfl drilling.measured done rfl rfl distinct
  have same : kept.map rowOf = others.map _ := same
  have absent : Record.get? (rowOf (kept.head filled)) "place.country" = none := by
    have listed := List.mem_map_of_mem (f := rowOf) (List.head_mem filled)
    rw [same] at listed
    obtain ⟨group, -, made⟩ := List.mem_map.mp listed
    cases known : Record.get? (rowOf (kept.head filled)) "place.country" with
    | none => rfl
    | some value =>
      rw [← made] at known
      rcases mem_names_of_get?_groupRow known with aggregate | reference
      · exact absurd (show "place.country" ∈ ["amount_sum", "record_count"] from aggregate) (by decide)
      · exact absurd (show "place.country" ∈ ["place.city"] from reference) (by decide)
  have member := found.part.subset (List.head_mem filled)
  obtain ⟨fact, inside, standing⟩ := found.standing (List.cons_ne_nil _ _) _ member
  obtain rfl := List.mem_singleton.mp (found.shares.mem_of_mem member inside)
  refine ⟨zonedBrowser_overTable, isStored_zonedTable, isSound_zonedSales, _, after, _, _, done,
    restricted, rfl, _, List.mem_map_of_mem (List.mem_map_of_mem (List.head_mem filled)),
    fun isTrue => ?_⟩
  obtain ⟨level, key, there, keyed, has⟩ := isTrue 0 (.text "north")
    (by show some ((Record.get? _ "place.country").getD _) = _; rw [absent]; rfl) nofun
  cases there
  cases keyed
  have told := Cell.sameKey_iff.mpr (congrArg (List.map Cell.rank) (keyOf_eq_key standing))
  have north := has _ (List.mem_filter.mpr ⟨List.mem_singleton_self _, told⟩)
  exact absurd north.2 (by decide)

end Browser

end Olap
