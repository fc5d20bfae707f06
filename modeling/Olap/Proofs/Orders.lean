/-
Orders. Rows are asked to be ordered by a field of theirs, and the query says so by a name: that of a
selected column when the field is one that the query makes, and else that of the column of the table
that the field's attribute has. For the database a name is that of a selected column first. So the rows
come in the order of the field that was asked for when no other column is selected under the name of
its column; mappings can bring that about, and then the rows come in the order of the other column.

The rows of a drill-down are in order by the field as the store has it. What is done to them afterwards
keeps the order where the field is a number already and no computed field takes its place.
-/

import Olap.Proofs.FactLists
import Olap.Proofs.Limits
import Olap.Proofs.Sound

namespace Olap

/-- Rows are in the order of a field: none comes strictly before an earlier one. -/
def Row.InOrder (direction : Direction) (field : String) (rows : List Row) : Prop :=
  rows.Pairwise fun first later => comesBefore direction field later first = false

/-- What is done to the rows of an order does not disturb it when it leaves the field as it is. -/
theorem Row.InOrder.map {direction : Direction} {field : String} {rows : List Row} {f : Row → Row}
    (sorted : InOrder direction field rows) (keeps : ∀ row ∈ rows, (f row).cell field = row.cell field) :
    InOrder direction field (rows.map f) := by
  refine List.pairwise_map.mpr (sorted.imp_of_mem fun first later order => ?_)
  rw [comesBefore, keeps _ first, keeps _ later]
  exact order

/-- No other column is selected under the name of a column. -/
def Projection.LeaveFree (projections : List Projection) (column : String) : Prop :=
  ∀ p ∈ projections, p.name = column → p.expression = .column column

namespace Layer

variable {layer : Layer} {p : Projection}

/-! ### What a name in an order denotes -/

/-- A name denotes what all that is selected under it is, or the column of this name if nothing is. -/
theorem orderValue_eq {name : String} {expression : Expression}
    (alike : ∀ p ∈ layer.projections, p.name = name → p.expression = expression)
    (known : (∃ p ∈ layer.projections, p.name = name) ∨ expression = .column name)
    (group : List Row) :
    layer.orderValue false group name = expression.ofGroup group (layer.standing? group) := by
  unfold orderValue
  rw [if_neg Bool.false_ne_true]
  cases looked : layer.projections.find? fun p => p.name == name with
  | none =>
    rcases known with ⟨p, selected, named⟩ | rfl
    · exact absurd (beq_iff_eq.mpr named) (List.find?_eq_none.mp looked p selected)
    · rfl
  | some p =>
    have named : p.name = name := by simpa using List.find?_some looked
    dsimp only
    rw [alike p (List.mem_of_find?_eq_some looked) named]

/-- A selected name denotes what is selected under it. -/
theorem orderValue_of_selected (distinct : (layer.projections.map (·.name)).Nodup)
    (selected : p ∈ layer.projections) (group : List Row) :
    layer.orderValue false group p.name = p.expression.ofGroup group (layer.standing? group) :=
  orderValue_eq (fun _ member named => by rw [List.inj_on_of_nodup_map distinct member selected named])
    (Or.inl ⟨p, selected, rfl⟩) group

/-- The name of a column that is left free denotes the column. -/
theorem orderValue_of_leaveFree {column : String}
    (free : Projection.LeaveFree layer.projections column) (group : List Row) :
    layer.orderValue false group column =
      (Expression.column column).ofGroup group (layer.standing? group) :=
  orderValue_eq free (Or.inr rfl) group

theorem cell_project (distinct : (layer.projections.map (·.name)).Nodup)
    (selected : p ∈ layer.projections) (group : List Row) :
    (layer.project group).cell p.name = p.expression.ofGroup group (layer.standing? group) := by
  rw [Row.cell, get?_project distinct selected]
  rfl

/-- A layer that orders by one column gives its rows in the order of a selected column which has the
values that it orders by. A page takes some of the rows and leaves them in order. -/
theorem inOrder_apply (distinct : (layer.projections.map (·.name)).Nodup)
    (selected : p ∈ layer.projections) {column : String} {direction : Direction}
    (ordered : layer.orderBy = [⟨column, direction⟩])
    (denotes : ∀ group, layer.orderValue false group column =
      p.expression.ofGroup group (layer.standing? group)) (types : ColumnTypes) (rows : List Row) :
    Row.InOrder direction p.name (layer.apply false types rows) := by
  have compared (group other : List Row) : layer.precedes false group other =
      Row.comesBefore direction p.name (layer.project group) (layer.project other) := by
    rw [precedes_single ordered, denotes, denotes, Row.comesBefore, cell_project distinct selected,
      cell_project distinct selected]
  have sorted : ((layer.groups (selectRows types layer.predicates rows)).mergeSort fun group other =>
      !layer.precedes false other group).Pairwise fun first later =>
        Row.comesBefore direction p.name (layer.project later) (layer.project first) = false := by
    simp only [compared]
    refine pairwise_mergeSort (fun _ _ first => ?_) (fun _ _ _ first second => ?_) _
    · exact Cell.comesBefore_asymm first
    · exact Cell.not_comesBefore_trans first second
  exact List.pairwise_map.mpr (sorted.sublist (page_sublist _ _ _))

end Layer

/-! ### Fields to order by -/

/-- A text that refers to an attribute of a settled cube is not empty. -/
theorem Cube.IsSettled.ref_ne_empty {c : Cube} (settled : c.IsSettled) {ref : String} {a : Attribute}
    (found : c.attributeWithRef ref = .ok a) : ref ≠ "" := by
  rintro rfl
  unfold attributeWithRef at found
  cases looked : (c.measures ++ c.details).find? (·.name == some "") with
  | some b =>
    have named : b.name = some "" :=
      beq_iff_eq.mp (List.find?_some (p := fun a : Attribute => a.name == some "") looked)
    have valid : IsName b.name := by
      rcases List.mem_append.mp (List.mem_of_find?_eq_some looked) with measure | detail
      · exact (settled.measures b measure).name
      · exact (settled.details b detail).name
    exact absurd (valid "" named) (by decide)
  | none =>
    rw [looked] at found
    cases found

namespace Compiler

variable {c : Compiler}

theorem orderings_of_named {o : QueryOptions} {name : String} (asked : o.orderBy = some name)
    (filled : name ≠ "") (generated usual : List String) :
    c.orderings o generated usual =
      (c.orderColumn name generated).map fun column => [⟨column, o.direction⟩] := by
  have kept : o.orderBy.filter (!·.isEmpty) = some name := by
    rw [asked, Option.filter_some, if_pos (by simpa using filled)]
  unfold orderings
  rw [kept]

theorem orderColumn_of_generated {name : String} {generated : List String}
    (member : name ∈ generated) : c.orderColumn name generated = .ok name := by
  unfold orderColumn
  rw [List.contains_iff_mem.mpr member, if_pos rfl]

theorem orderColumn_of_found {name : String} {generated : List String} {a : Attribute}
    (other : name ∉ generated) (found : c.cube.attributeWithRef name = .ok a) :
    c.orderColumn name generated = .ok (c.column a) := by
  unfold orderColumn
  rw [if_neg (by simpa using other), found]

/-- The column of an attribute is left free when it is not mapped to a column of another name. -/
theorem leaveFree_of_column_eq {projections : List Projection}
    (distinct : (projections.map (·.name)).Nodup) {a : Attribute} (selected : c.projection a ∈ projections)
    (unmapped : c.column a = a.refText) : Projection.LeaveFree projections (c.column a) := by
  intro p member named
  rw [List.inj_on_of_nodup_map distinct member selected (named.trans unmapped)]
  rfl

/-- A field that rows can be ordered by: one that the query makes, or the reference of an attribute
that is found by it and whose column is left free by what is selected. -/
inductive IsOrderable (c : Compiler) (generated : List String) (attributes : List Attribute)
    (projections : List Projection) : String → Prop
  | generated {field : String} (member : field ∈ generated) :
      IsOrderable c generated attributes projections field
  | reference {a : Attribute} (member : a ∈ attributes)
      (found : c.cube.attributeWithRef a.refText = .ok a)
      (free : Projection.LeaveFree projections (c.column a)) :
      IsOrderable c generated attributes projections a.refText

/-- An order by such a field is compiled to an order by one column that denotes, in every group, what the
group's row has in the field. -/
theorem IsOrderable.exists_column (settled : c.cube.IsSettled) {generated : List String}
    {attributes : List Attribute} {projections : List Projection} {field : String}
    (orderable : c.IsOrderable generated attributes projections field)
    (distinct : (projections.map (·.name)).Nodup) (made : generated ⊆ projections.map (·.name))
    (filled : "" ∉ generated) (selected : attributes.map c.projection ⊆ projections)
    {o : QueryOptions} (asked : o.orderBy = some field) (usual : List String) :
    ∃ column, ∃ p ∈ projections, p.name = field ∧
      c.orderings o generated usual = .ok [⟨column, o.direction⟩] ∧
      ∀ layer : Layer, layer.projections = projections → ∀ group,
        layer.orderValue false group column =
          p.expression.ofGroup group (layer.standing? group) := by
  have present : field ≠ "" := by
    cases orderable with
    | generated member =>
      rintro rfl
      exact filled member
    | reference member found free => exact settled.ref_ne_empty found
  rw [orderings_of_named asked present]
  by_cases member : field ∈ generated
  · -- A selected name goes before everything else, whether it is meant as a reference or not.
    obtain ⟨p, inside, rfl⟩ := List.mem_map.mp (made member)
    refine ⟨p.name, p, inside, rfl, ?_, ?_⟩
    · rw [orderColumn_of_generated member]
      rfl
    · rintro layer rfl group
      exact Layer.orderValue_of_selected distinct inside group
  · cases orderable with
    | generated known => exact absurd known member
    | @reference a own found free =>
      refine ⟨c.column a, c.projection a, selected (List.mem_map_of_mem own), rfl, ?_, ?_⟩
      · rw [orderColumn_of_found member found]
        rfl
      · rintro layer rfl group
        exact Layer.orderValue_of_leaveFree free group

/-- A layer whose order is compiled from such a field gives its rows in the order of the field. -/
theorem IsOrderable.inOrder_apply (settled : c.cube.IsSettled) (layer : Layer)
    {generated usual : List String} {attributes : List Attribute} {field : String}
    (orderable : c.IsOrderable generated attributes layer.projections field)
    (distinct : (layer.projections.map (·.name)).Nodup)
    (made : generated ⊆ layer.projections.map (·.name)) (filled : "" ∉ generated)
    (selected : attributes.map c.projection ⊆ layer.projections) {o : QueryOptions}
    (asked : o.orderBy = some field)
    (ordered : c.orderings o generated usual = .ok layer.orderBy) (types : ColumnTypes)
    (rows : List Row) :
    Row.InOrder o.direction field (layer.apply false types rows) := by
  obtain ⟨column, p, inside, rfl, compiled, denotes⟩ :=
    orderable.exists_column settled distinct made filled selected asked usual
  exact Layer.inOrder_apply distinct inside (Except.ok.inj (ordered.symm.trans compiled))
    (denotes layer rfl) types rows

/-- Aggregates have names. -/
theorem empty_notMem_aggregates (c : Compiler) (m : Attribute) (operators : List String) :
    "" ∉ (c.aggregateProjections m operators).map (·.name) := by
  intro member
  obtain ⟨p, selected, empty⟩ := List.mem_map.mp member
  rcases List.mem_append.mp selected with measured | counted
  · obtain ⟨operator, -, made⟩ := List.mem_filterMap.mp measured
    obtain ⟨function, -, rfl⟩ := Option.map_eq_some_iff.mp made
    simp [aggregatedName] at empty
  · rw [List.mem_singleton.mp counted] at empty
    exact absurd empty (by decide)

end Compiler

namespace Browser

open Olap.Action Compiler

variable {σ : Type} {b : Browser σ} {db : Database} {table : Table}

/-! ### Facts in order -/

/-- Options for a list of facts, maybe a page of it, that is ordered by the reference of an attribute.
The names that are selected have to differ. -/
structure OrdersFacts (b : Browser σ) (options : Description) (overrides : Fields Part)
    (o : QueryOptions) (field : String) : Prop where
  accepted : (QueryOptions.accept options overrides).map Options.base = .ok o
  asked : o.orderBy = some field
  orderable : b.compiler.IsOrderable [] b.cube.factAttributes b.compiler.factProjections field
  distinct : (b.compiler.factProjections.map (·.name)).Nodup

/-- A list of facts is in the order that was asked for, and has the records of all facts when no page
was asked for. -/
theorem OrdersFacts.perform_facts {options : Description} {overrides : Fields Part}
    {o : QueryOptions} {field : String} (orders : b.OrdersFacts options overrides o field)
    (settled : b.cube.IsSettled) (onTable : b.OverTable db table) {slice : Slice} {facts : List Row}
    (restricted : b.factsIn table slice.cuts = .ok facts) (patience : Patience) (state : σ)
    (log : List LogLine) :
    ∃ list after,
      perform (b.facts options overrides patience) ⟨slice, state, log⟩ = (.ok list, after) ∧
      (o.page = none → list.rows.Perm (facts.map b.compiler.factRecord)) ∧
      Row.InOrder o.direction field list.rows := by
  obtain ⟨conditions, compiled, rfl⟩ := Result.map_ok.1 restricted
  have selected : b.cube.factAttributes.map b.compiler.projection ⊆ b.compiler.factProjections :=
    List.subset_cons_self _ _
  obtain ⟨column, -, -, -, ordered, -⟩ := orders.orderable.exists_column settled
    orders.distinct (List.nil_subset _) List.not_mem_nil selected orders.asked []
  obtain ⟨list, after, done, made⟩ := onTable.perform_facts orders.accepted compiled ordered
    orders.distinct patience state log
  refine ⟨list, after, done, fun unpaged => ?_, ?_⟩
  · rw [made]
    exact apply_factLayer_perm unpaged conditions _ table
  · rw [made]
    exact IsOrderable.inOrder_apply settled (b.compiler.factLayer conditions _ o)
      orders.orderable orders.distinct (List.nil_subset _) List.not_mem_nil selected orders.asked
      ordered table.columns table.rows

/-! ### Rows in order -/

/-- A drill-down without a limit that is ordered by a field: one that is aggregated, or the reference of
an attribute that rows are grouped by. -/
structure OrdersRows (b : Browser σ) (m : Attribute) (o : AggregateOptions) (field : String) :
    Prop where
  unlimited : o.hasLimit = false
  asked : o.orderBy = some field
  orderable : ∀ attributes, b.compiler.rowAttributes o = .ok attributes →
    b.compiler.IsOrderable ((b.compiler.aggregateProjections m o.operators).map (·.name)) attributes
      (b.compiler.aggregateProjections m o.operators ++ attributes.map b.compiler.projection) field

/-- The store finds the rows of such a drill-down in order. -/
theorem OrdersRows.inOrder_rowsFound {m : Attribute} {o : AggregateOptions} {field : String}
    (orders : b.OrdersRows m o field) (settled : b.cube.IsSettled) (table : Table) {cuts : List Cut}
    {conditions : List Predicate} {attributes : List Attribute} {order : List RowOrder}
    (drills : b.compiler.Drills cuts m o conditions attributes order)
    (distinct : (b.compiler.drilled m o conditions attributes order).aliases.Nodup) :
    Row.InOrder o.direction field (b.rowsFound table m o conditions attributes order) := by
  rw [aliases_drilled, ← map_name_groupedLayer] at distinct
  refine IsOrderable.inOrder_apply settled
    (b.compiler.groupedLayer m o attributes conditions order)
    (orders.orderable attributes drills.grouped) distinct ?_ (empty_notMem_aggregates _ _ _)
    (List.subset_append_right _ _) orders.asked drills.ordered table.columns table.rows
  rw [map_name_groupedLayer]
  exact List.subset_append_left _ _

/-- Rows of a result that were finished one by one, in the order that the store found them in, which is
that of the field. It is the order of the finished rows, too, unless texts were made numbers or a
computed field has taken the place of the field. -/
structure FinishedInOrder (b : Browser σ) (table : Table) (m : Attribute) (o : AggregateOptions)
    (computed : List ComputedField) (field : String) (stored rows : List Row) : Prop where
  each : ∃ finish, (∀ row ∈ stored, finishRow m.name o computed row = .ok (finish row)) ∧
    rows = stored.map finish
  found : Row.InOrder o.direction field stored
  finished : (∀ operator ∈ o.operators, field = fieldOf m.name operator →
    b.MakesNumbers table m operator) → field ∉ computed.map (·.name) →
      Row.InOrder o.direction field rows

/-- A drill-down has the rows that the store finds, finished and in order. -/
theorem OrdersRows.perform_call {m : Attribute} {o : AggregateOptions} {field : String}
    (orders : b.OrdersRows m o field) (settled : b.cube.IsSettled) (onTable : b.OverTable db table)
    {slice : Slice} (reached : b.Reaches slice) {call : AggregateCall} {query : Query}
    (drilling : b.Drilling slice call o m query) {computed : List ComputedField}
    (given : call.computed = .ok computed) (state : σ) (log : List LogLine) :
    (ComputedField.AlwaysComputed computed → ∃ u after,
      perform (b.call call) ⟨slice, state, log⟩ = (.ok u, after)) ∧
    ∀ u after, perform (b.call call) ⟨slice, state, log⟩ = (.ok u, after) →
      ∃ stored, db.answer? query = some stored ∧
        b.FinishedInOrder table m o computed field stored u.rows := by
  obtain ⟨conditions, attributes, order, drills, rfl⟩ := drilling.exists_drills
  have accepted := AggregateOptions.isAccepted_of_accept drilling.lawful drilling.accepted
  have restricted : b.factsIn table slice.cuts =
      .ok (selectRows table.columns conditions table.rows) := factsIn_of_predicates drills.compiled
  have answered : db.answer? (b.compiler.drilled m o conditions attributes order) =
      some (b.rowsFound table m o conditions attributes order) := by
    rw [drilled, orders.unlimited, if_neg Bool.false_ne_true]
    exact Database.answer?_scan onTable.known _
  obtain ⟨summary, last, -, -, performed⟩ := drilling.perform_answer onTable
    (onTable.storeAnswers.keepsTrue_of_reaches reached) restricted answered state log
  have sorted := orders.inOrder_rowsFound settled table drills drilling.distinct
  rw [performed computed given, withRows_unlimited _ orders.unlimited]
  refine ⟨fun always => ?_, fun u after came => ?_⟩
  · obtain ⟨rows, finished, -⟩ := ComputedField.exists_extendAll always _
    exact ⟨_, last, Prod.ext (Result.map_ok.2 ⟨rows, finished, rfl⟩) rfl⟩
  · obtain ⟨rows, finished, rfl⟩ := Result.map_ok.1 (Prod.mk.inj came).1
    obtain ⟨finish, each, rfl⟩ := exists_each_of_allOf ((finishRows_eq _ _ _ _).symm.trans finished)
    refine ⟨_, answered, ⟨finish, each, rfl⟩, sorted, fun numbers apart => ?_⟩
    exact sorted.map fun row member =>
      cell_finishRow_of_makesNumbers accepted drilling.distinct numbers apart member (each row member)

end Browser

/-! ### Orders that are asked for -/

namespace Market

/-- The facts with the greatest amounts first. -/
def greatestFirst : Description :=
  .record [("order_by", .text "amount"), ("order_direction", .text "desc")]

def greatestFirstOptions : QueryOptions :=
  { QueryOptions.unset with
    orderBy := some "amount", orderDirection := some "desc"
    given := ["order_by", "order_direction"] }

/-- The cities with the greatest sums first. -/
def richestFirst : AggregateCall :=
  sum [("row_dimension", .text "place"), ("row_levels", .list [.text "country", .text "city"]),
    ("order_by", .text "amount_sum"), ("order_direction", .text "desc")]

def richestFirstOptions : AggregateOptions :=
  { AggregateOptions.unset with
    rowDimension := some "place", rowLevels := some ["country", "city"]
    orderBy := some "amount_sum", orderDirection := some "desc"
    given := ["order_by", "order_direction", "row_dimension", "row_levels"] }

/-- The countries with the least amounts first. -/
def leastFirst : AggregateCall :=
  sum [("row_dimension", .text "place"), ("row_levels", .text "country"),
    ("aggregations", .text "min"), ("order_by", .text "amount_min")]

def leastFirstOptions : AggregateOptions :=
  { AggregateOptions.unset with
    rowDimension := some "place", rowLevels := some ["country"], aggregations := some ["min"]
    orderBy := some "amount_min", given := ["order_by", "row_dimension", "row_levels", "aggregations"] }

/-- The facts with the least amounts first. -/
def byAmount : Description := .record [("order_by", .text "amount")]

def byAmountOptions : QueryOptions :=
  { QueryOptions.unset with orderBy := some "amount", given := ["order_by"] }

/-- Sales whose amounts are in a column "price", and whose prices are in a column "amount". -/
def exchanged : Cube :=
  { (default : Cube) with
    name := "sales", keyField := "id"
    measures := [.ofName .measure (some "amount"), .ofName .measure (some "price")]
    mappings := [("price", "amount"), ("amount", "price")] }

/-- A description of this cube. -/
def exchangedFields : Fields Part :=
  [("name", .text "sales"), ("measures", .list [.text "amount", .text "price"]),
    ("mappings", .record [("price", .text "amount"), ("amount", .text "price")])]

/-- The greater amount was sold at the lower price. -/
def exchangedTable : Table :=
  { name := "sales"
    columns := [("id", .integer), ("amount", .integer), ("price", .integer)]
    rows := [
      [("id", .int 1), ("amount", .int 1), ("price", .int 20)],
      [("id", .int 2), ("amount", .int 2), ("price", .int 10)]] }

def exchangedBrowser : Browser Unit :=
  ⟨exchanged, some (Database.evaluator [exchangedTable]), .unset⟩

theorem exchangedBrowser_overTable : exchangedBrowser.OverTable [exchangedTable] exchangedTable :=
  ⟨⟨_, rfl, Database.evaluates_evaluator _⟩, rfl⟩

theorem isSettled_exchanged : exchanged.IsSettled where
  name := isName_of_strip (by decide)
  extra _ _ := List.not_mem_nil
  measures := List.forall_mem_cons.mpr ⟨Attribute.isFresh_ofName (isName_of_strip (by decide)),
    List.forall_mem_singleton.mpr (Attribute.isFresh_ofName (isName_of_strip (by decide)))⟩
  details := List.forall_mem_nil _
  names := rfl

/-- The record of a sale. -/
def exchangedRecord (id amount price : Int) : Row :=
  [("id", .int id), ("amount", .int amount), ("price", .int price)]

end Market

namespace Browser

open Olap.Action Compiler Market

/-- The least amounts of countries, noted as texts, come in the order of the texts and not in that of the
numbers which they have been made. -/
theorem call_leastFirst :
    (∃ query, notedBrowser.Drilling (Slice.full sales) leastFirst leastFirstOptions
        (.ofName .measure (some "amount")) query) ∧
      notedBrowser.OrdersRows (.ofName .measure (some "amount")) leastFirstOptions "amount_min" ∧
      leastFirstOptions.direction = .asc ∧
      ∃ u after, perform (notedBrowser.call leastFirst) ⟨Slice.full sales, (), []⟩ = (.ok u, after) ∧
        u.rows = [leastRow "AT" (.float 10), leastRow "DE" (.float 9)] := by
  have drilling := (⟨rfl, fun _ same => (by cases same), rfl, rfl, rfl, by decide⟩ :
    notedBrowser.Drilling (Slice.full sales) leastFirst leastFirstOptions
      (.ofName .measure (some "amount")) (notedBrowser.compiler.drilled
        (.ofName .measure (some "amount")) leastFirstOptions [] (level "country").attributes
        [⟨"amount_min", .asc⟩]))
  have answered : Database.answer? [notedTable] (notedBrowser.compiler.drilled
      (.ofName .measure (some "amount")) leastFirstOptions [] (level "country").attributes
        [⟨"amount_min", .asc⟩]) =
      some [leastRow "AT" (.text "10"), leastRow "DE" (.text "9")] :=
    (notedBrowser_overTable.answer?_withoutLimit _ leastAmountsOptions _ _ _).trans
      (congrArg some (rowsFound_noted (List.mem_cons_of_mem _ (List.mem_singleton_self _))))
  obtain ⟨summary, after, -, -, performed⟩ := drilling.perform_answer notedBrowser_overTable
    (keepsTrue_of_nil _ _ rfl) (show _ = Except.ok notedTable.rows from rfl) answered () []
  refine ⟨⟨_, drilling⟩, ⟨rfl, rfl, fun _ _ => .generated (by decide)⟩, rfl,
    { notedBrowser.bareResult (some "amount") leastFirstOptions summary [] with
      rows := [leastRow "AT" (.float 10), leastRow "DE" (.float 9)] }, after, ?_, rfl⟩
  have whole := withRows_unlimited
    (notedBrowser.bareResult (some "amount") leastFirstOptions summary []) rfl []
    [leastRow "AT" (.text "10"), leastRow "DE" (.text "9")]
  exact (performed [] rfl).trans
    (Prod.ext (whole.trans (Result.map_ok.2 ⟨_, finishRows_noted rfl, rfl⟩)) rfl)

/-- When the columns of amounts and prices are exchanged, facts that are to be in the order of amounts
come in the order of prices. -/
theorem facts_exchanged :
    ∃ list after, perform (exchangedBrowser.facts byAmount [] ⟨.null, none⟩)
        ⟨Slice.full exchanged, (), []⟩ = (.ok list, after) ∧
      list.rows = [exchangedRecord 1 20 1, exchangedRecord 2 10 2] := by
  have accepted : (QueryOptions.accept byAmount []).map Options.base = .ok byAmountOptions := rfl
  have compiled : exchangedBrowser.compiler.predicates (Slice.full exchanged).cuts = .ok [] := rfl
  have ordered : exchangedBrowser.compiler.orderings byAmountOptions [] [] =
      .ok [⟨"price", .asc⟩] := rfl
  obtain ⟨list, after, done, made⟩ := exchangedBrowser_overTable.perform_facts accepted compiled
    ordered (by decide) ⟨.null, none⟩ () []
  refine ⟨list, after, done, made.trans ?_⟩
  unfold Layer.apply
  dsimp only
  rw [groups_factLayer, List.mergeSort_of_pairwise]
  · rfl
  · decide +kernel

end Browser

end Olap
