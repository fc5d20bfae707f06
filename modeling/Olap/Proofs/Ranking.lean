/-
Ranking. A limit puts a layer around a query that orders the rows by one column and keeps the first
ones. The order of values is the same for all of them, so the rows that are kept come first: they are in
order, and no row that was dropped comes before any of them. Rows with the same value are not told apart,
which is why only strict order is spoken of.
-/

import Olap.Proofs.Answers
import Olap.Query

namespace Olap

/-! ### Orders of values -/

namespace Cell

/-- Whether a value comes strictly before another one in a direction. -/
def comesBefore (direction : Direction) (a b : Value) : Bool :=
  match direction with
  | .asc => less a b
  | .desc => less b a

variable {direction : Direction} {a b c : Value}

theorem less_asymm (first : less a b = true) : less b a = false := by
  rw [Bool.eq_false_iff]
  intro second
  have loop := Rank.less_trans first second
  rw [Rank.less_irrefl] at loop
  cases loop

/-- What is not before a value is not before a later one. -/
theorem not_less_trans (first : less b a = false) (second : less c b = false) :
    less c a = false := by
  rw [Bool.eq_false_iff]
  intro crossed
  cases order : less a b with
  | true =>
    have below := Rank.less_trans crossed order
    rw [show (rank c).less (rank b) = false from second] at below
    cases below
  | false =>
    have same : rank a = rank b := Rank.eq_of_not_less order first
    rw [less, same] at crossed
    rw [less, crossed] at second
    cases second

theorem comesBefore_asymm (first : comesBefore direction a b = true) :
    comesBefore direction b a = false := by
  cases direction with
  | asc => exact less_asymm first
  | desc => exact less_asymm first

theorem not_comesBefore_trans (first : comesBefore direction b a = false)
    (second : comesBefore direction c b = false) : comesBefore direction c a = false := by
  cases direction with
  | asc => exact not_less_trans first second
  | desc => exact not_less_trans second first

end Cell

/-! ### The first rows of an order -/

/-- In a list that was sorted by a strict order no item comes before an earlier one. -/
theorem pairwise_mergeSort {α : Type} {before : α → α → Bool}
    (asymm : ∀ first second, before first second = true → before second first = false)
    (trans : ∀ first second third, before second first = false → before third second = false →
      before third first = false) (items : List α) :
    (items.mergeSort fun first second => !before second first).Pairwise
      fun first later => before later first = false := by
  refine (List.pairwise_mergeSort (fun first second third early late => ?_)
    (fun first second => ?_) items).imp fun order => by simpa using order
  · simp only [Bool.not_eq_true'] at early late ⊢
    exact trans first second third early late
  · cases order : before second first with
    | false => rfl
    | true => rw [asymm _ _ order]; rfl

/-- Some items are the first of all in an order: they are in order, there are as many of them as asked
for, if there are that many at all, and no other item comes strictly before one of them. -/
structure IsTop {α : Type} (before : α → α → Bool) (count : Nat) (top items : List α) : Prop where
  sorted : top.Pairwise fun first later => before later first = false
  length : top.length = min count items.length
  rest : ∃ rest, (top ++ rest).Perm items ∧
    ∀ other ∈ rest, ∀ item ∈ top, before other item = false

namespace IsTop

variable {α β : Type} {before : α → α → Bool} {count : Nat} {top items : List α}

/-- The first items of a sorted list are the first of all. -/
theorem take_mergeSort
    (asymm : ∀ first second, before first second = true → before second first = false)
    (trans : ∀ first second third, before second first = false → before third second = false →
      before third first = false) (count : Nat) (items : List α) :
    IsTop before count ((items.mergeSort fun first second => !before second first).take count)
      items := by
  have sorted := pairwise_mergeSort asymm trans items
  refine ⟨sorted.sublist (List.take_sublist _ _), ?_,
    (items.mergeSort fun first second => !before second first).drop count, ?_, ?_⟩
  · rw [List.length_take, List.length_mergeSort]
  · rw [List.take_append_drop]
    exact List.mergeSort_perm _ _
  · intro other dropped item kept
    rw [← List.take_append_drop count (items.mergeSort _), List.pairwise_append] at sorted
    exact sorted.2.2 item kept other dropped

theorem subset (isTop : IsTop before count top items) : top ⊆ items := by
  obtain ⟨rest, order, -⟩ := isTop.rest
  exact fun item member => order.subset (List.mem_append_left _ member)

/-- What keeps the order keeps the first items. -/
theorem map {after : β → β → Bool} {f : α → β} (isTop : IsTop before count top items)
    (keeps : ∀ first ∈ items, ∀ second ∈ items, after (f first) (f second) = before first second) :
    IsTop after count (top.map f) (items.map f) := by
  obtain ⟨rest, order, others⟩ := isTop.rest
  refine ⟨?_, ?_, rest.map f, ?_, ?_⟩
  · refine List.pairwise_map.mpr (isTop.sorted.imp_of_mem fun first later sorted => ?_)
    rw [keeps _ (isTop.subset later) _ (isTop.subset first), sorted]
  · rw [List.length_map, List.length_map, isTop.length]
  · rw [← List.map_append]
    exact order.map f
  · intro other otherMember item member
    obtain ⟨dropped, droppedMember, rfl⟩ := List.mem_map.mp otherMember
    obtain ⟨kept, keptMember, rfl⟩ := List.mem_map.mp member
    rw [keeps _ (order.subset (List.mem_append_right _ droppedMember)) _ (isTop.subset keptMember)]
    exact others dropped droppedMember kept keptMember

end IsTop

/-! ### Queries that rank -/

/-- Whether a row comes strictly before another one by a field. -/
def Row.comesBefore (direction : Direction) (name : String) (row other : Row) : Bool :=
  Cell.comesBefore direction (row.cell name) (other.cell name)

/-- The first rows that are sorted by a field are the first of all by this field. -/
theorem Row.isTop_take_mergeSort (direction : Direction) (name : String) (count : Nat)
    (rows : List Row) :
    IsTop (Row.comesBefore direction name) count
      ((rows.mergeSort fun row other => !Row.comesBefore direction name other row).take count)
      rows := by
  refine IsTop.take_mergeSort (fun row other => ?_) (fun row other third => ?_) count rows
  · exact Cell.comesBefore_asymm
  · exact Cell.not_comesBefore_trans

namespace Layer

theorem page_first {β : Type} (count : Nat) (items : List β) :
    page (some (count : Int)) none items = items.take count := by
  unfold page
  dsimp only
  rw [if_neg (by omega)]
  rfl

/-- Groups that are ordered by one column are compared by their values for it. -/
theorem precedes_single {layer : Layer} {name : String} {direction : Direction}
    (ordered : layer.orderBy = [⟨name, direction⟩]) (derived : Bool) (group other : List Row) :
    layer.precedes derived group other =
      Cell.comesBefore direction (layer.orderValue derived group name)
        (layer.orderValue derived other name) := by
  unfold precedes
  rw [ordered, List.map_singleton]
  cases direction with
  | asc => rw [before, before, Bool.and_false, Bool.or_false]; rfl
  | desc => rw [before, before, Bool.and_false, Bool.or_false]; rfl

/-- A layer that orders by one column and keeps some rows keeps the first ones in the order. -/
theorem apply_ranked {layer : Layer} (plain : layer.projections = []) (grouped : layer.groupBy = [])
    (free : layer.predicates = []) {name : String} {direction : Direction}
    (ordered : layer.orderBy = [⟨name, direction⟩]) {count : Nat} (limit : layer.limit = some (count : Int))
    (offset : layer.offset = none) (types : ColumnTypes) (rows : List Row) :
    layer.apply true types rows =
      (rows.mergeSort fun row other => !Row.comesBefore direction name other row).take count := by
  have standing : ∀ row : Row, layer.standing? [row] = some row := by
    intro row
    unfold standing? lastExtreme?
    rw [plain]
    rfl
  have value : ∀ row : Row, layer.orderValue true [row] name = row.cell name := by
    intro row
    unfold orderValue
    rw [standing]
    rfl
  have compared : ∀ row other : Row, layer.precedes true [row] [other] =
      Row.comesBefore direction name row other := by
    intro row other
    rw [precedes_single ordered, value, value]
    rfl
  have sorted := List.map_mergeSort (l := rows) (f := fun row : Row => [row])
    (r := fun row other => !Row.comesBefore direction name other row)
    (s := fun row other => !layer.precedes true other row)
    fun row _ other _ => by rw [compared]
  unfold apply
  rw [selectRows_of_free free, groups_of_plain plain grouped, limit, offset]
  dsimp only
  rw [← sorted, project_of_plain plain, page_first, ← List.map_take, map_head_singletons]

end Layer

namespace Database

variable {db : Database} {name : String} {table : Table}

/-- With aggregates the outcome of a layer does not depend on an order that does not count. -/
theorem apply_withoutOrder {layer : Layer}
    (aggregated : layer.projections.any (·.expression.isAggregate) = true) (types : ColumnTypes)
    (rows : List Row) :
    layer.withoutOrder.apply false types rows = layer.apply false types rows := by
  by_cases grouped : layer.groupBy = []
  · -- There is one group, which is in order whatever the order is.
    have single : layer.groups (selectRows types layer.predicates rows) =
        [selectRows types layer.predicates rows] := by
      unfold Layer.groups
      rw [grouped, if_neg (by simp), if_pos aggregated]
    unfold Layer.apply
    rw [groups_withoutOrder, predicates_withoutOrder, project_withoutOrder, single]
    dsimp only
    rw [List.mergeSort_singleton, List.mergeSort_singleton]
    unfold Layer.withoutOrder
    split <;> rfl
  · rw [Layer.withoutOrder_of_groups grouped]

/-- The answer to a ranking of the rows of another query has the first of these rows. -/
theorem answer?_ranked (known : db.table? name = some table) {inner outer : Layer}
    (aggregated : inner.projections.any (·.expression.isAggregate) = true)
    (plain : outer.projections = []) (grouped : outer.groupBy = []) (free : outer.predicates = [])
    {field : String} {direction : Direction} (ordered : outer.orderBy = [⟨field, direction⟩])
    {count : Nat} (limit : outer.limit = some (count : Int)) (offset : outer.offset = none) :
    db.answer? (.derived (.scan name inner) outer) =
      some (((inner.apply false table.columns table.rows).mergeSort fun row other =>
        !Row.comesBefore direction field other row).take count) := by
  have settled : (Query.derived (.scan name inner) outer).settled true =
      .derived (.scan name inner.withoutOrder) outer := by
    have heedless : outer.heedsOrder = false := by
      unfold Layer.heedsOrder
      rw [ordered, plain]
      rfl
    simp [Query.settled, heedless]
  rw [answer?, settled, evaluate?, evaluate?, known, ← apply_withoutOrder aggregated,
    ← Layer.apply_ranked plain grouped free ordered limit offset
      (inner.withoutOrder.outcomeTypes table.columns)]
  rfl

end Database

end Olap
