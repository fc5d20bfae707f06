/-
Arrangements. An order puts groups in place by the first of its columns in which they differ, and groups
that differ in none of them may come in any order. So an order alone does not say how the groups of a
query come: a store may arrange those that it leaves open in one way for one statement, and in another
way for the next. When the order denotes every column that rows are grouped by, nothing is left open, and
there is only one arrangement.

A page is cut out of an arrangement. The pages of one arrangement are the arrangement, put end to end.
-/

import Olap.Proofs.Orders

namespace Olap

/-! ### Pages -/

/-- A page of a list. Pages are counted from zero. -/
def pageOf {β : Type} (size : Nat) (items : List β) (page : Nat) : List β :=
  (items.drop (page * size)).take size

/-- Pages that cover a list: up to the first empty one they are the list, put end to end. -/
def CoversExactly {β : Type} (pages : Nat → List β) (items : List β) : Prop :=
  ∃ count, (∀ page < count, pages page ≠ []) ∧ pages count = [] ∧
    (List.range count).flatMap pages = items

section Pages

variable {α β : Type} {size : Nat}

theorem flatMap_pageOf (size : Nat) (items : List β) (count : Nat) :
    (List.range count).flatMap (pageOf size items) = items.take (count * size) := by
  induction count with
  | zero => rw [Nat.zero_mul]; rfl
  | succ count inductionHypothesis =>
    rw [List.range_succ, List.flatMap_append, inductionHypothesis, List.flatMap_singleton,
      Nat.succ_mul, List.take_add]
    rfl

/-- The pages of a list cover it. There are as many as the length divided by the size, rounded up. -/
theorem coversExactly_pageOf (positive : 0 < size) (items : List β) :
    CoversExactly (pageOf size items) items := by
  have enough := Nat.lt_div_mul_add (a := items.length + size - 1) positive
  refine ⟨(items.length + size - 1) / size, fun page before => ?_, ?_, ?_⟩
  · have inside : (page + 1) * size ≤ items.length + size - 1 :=
      (Nat.le_div_iff_mul_le positive).mp before
    rw [Nat.succ_mul] at inside
    rw [pageOf, ne_eq, List.take_eq_nil_iff, List.drop_eq_nil_iff]
    omega
  · rw [pageOf, List.drop_eq_nil_of_le (by omega), List.take_nil]
  · rw [flatMap_pageOf, List.take_of_length_le (by omega)]

/-- A list is not covered when its first item comes on the first two pages and it has another one. -/
theorem not_coversExactly_of_repeated {pages : Nat → List β} {item other : β}
    (different : item ≠ other) (first : pages 0 = [item]) (second : pages 1 = [item]) :
    ¬CoversExactly pages [item, other] := by
  rintro ⟨count, -, last, whole⟩
  match count with
  | 0 =>
    rw [first] at last
    cases last
  | 1 =>
    rw [second] at last
    cases last
  | count + 2 =>
    rw [List.range_succ_eq_map, List.range_succ_eq_map, List.map_cons, List.flatMap_cons,
      List.flatMap_cons, first, second] at whole
    exact different (List.cons.inj (List.cons.inj whole).2).1

theorem mem_of_mem_pageOf {items : List β} {page : Nat} {item : β}
    (member : item ∈ pageOf size items page) : item ∈ items :=
  List.mem_of_mem_drop (List.mem_of_mem_take member)

theorem map_pageOf (f : α → β) (size : Nat) (items : List α) (page : Nat) :
    (pageOf size items page).map f = pageOf size (items.map f) page := by
  rw [pageOf, pageOf, List.map_take, List.map_drop]

/-- A page is what its limit and its offset cut out. -/
theorem Layer.page_eq_pageOf (size page : Nat) (items : List β) :
    Layer.page (some (size : Int)) (some ((page : Int) * (size : Int))) items =
      pageOf size items page := by
  unfold Layer.page
  dsimp only
  rw [if_neg (by omega), Option.getD_some, ← Int.natCast_mul, Int.toNat_natCast, Int.toNat_natCast]
  rfl

end Pages

/-! ### Orders by several columns -/

namespace Cell

variable {direction : Direction} {a b : Value}

theorem same_of_not_comesBefore (first : comesBefore direction a b = false)
    (second : comesBefore direction b a = false) : same a b = true := by
  refine beq_iff_eq.mpr ?_
  cases direction with
  | asc => exact Rank.eq_of_not_less first second
  | desc => exact Rank.eq_of_not_less second first

theorem not_comesBefore_of_same (alike : same a b = true) : comesBefore direction a b = false := by
  unfold comesBefore less
  rw [beq_iff_eq.mp alike]
  cases direction <;> exact Rank.less_irrefl _

end Cell

/-- What a name in an order denotes: what is selected under it, or else the column of this name. -/
def Projection.denoted (projections : List Projection) (name : String) : Expression :=
  ((projections.find? (·.name == name)).map (·.expression)).getD (.column name)

/-- The name of a column that is left free denotes the column. -/
theorem Projection.denoted_of_leaveFree {projections : List Projection} {column : String}
    (free : LeaveFree projections column) : denoted projections column = .column column := by
  unfold denoted
  cases looked : projections.find? (·.name == column) with
  | none => rfl
  | some p =>
    have named : p.name = column :=
      beq_iff_eq.mp (List.find?_some (p := fun p : Projection => p.name == column) looked)
    exact free p (List.mem_of_find?_eq_some looked) named

namespace Layer

/-- Whether an order puts the values of columns strictly before other ones. -/
def beforeBy (orders : List RowOrder) (values others : String → Value) : Bool :=
  before (orders.map fun order => (order.direction, values order.column, others order.column))

section BeforeBy

variable {orders : List RowOrder} {f g h : String → Value}

theorem beforeBy_cons (order : RowOrder) (orders : List RowOrder) (f g : String → Value) :
    beforeBy (order :: orders) f g =
      (Cell.comesBefore order.direction (f order.column) (g order.column) ||
        (Cell.same (f order.column) (g order.column) && beforeBy orders f g)) := by
  obtain ⟨column, direction⟩ := order
  cases direction <;> rfl

/-- Values are not before others when they are not so in the first column, and if they are the same
there, not in the rest of the columns either. -/
theorem not_beforeBy_cons {order : RowOrder} :
    beforeBy (order :: orders) f g = false ↔
      Cell.comesBefore order.direction (f order.column) (g order.column) = false ∧
        (Cell.same (f order.column) (g order.column) = true → beforeBy orders f g = false) := by
  rw [beforeBy_cons, Bool.or_eq_false_iff, Bool.and_eq_false_imp]

theorem not_beforeBy_trans (first : beforeBy orders g f = false)
    (second : beforeBy orders h g = false) : beforeBy orders h f = false := by
  induction orders with
  | nil => rfl
  | cons order rest inductionHypothesis =>
    rw [not_beforeBy_cons] at first second ⊢
    refine ⟨Cell.not_comesBefore_trans first.1 second.1, fun outer => ?_⟩
    -- The column is the same at both ends, so what lies between has the same value, too.
    have inner := Cell.same_of_not_comesBefore first.1 (Cell.not_comesBefore_trans second.1
      (Cell.not_comesBefore_of_same (Cell.same_symm _ _ ▸ outer)))
    exact inductionHypothesis (first.2 inner)
      (second.2 (Cell.same_trans outer (Cell.same_symm _ _ ▸ inner)))

theorem beforeBy_asymm (first : beforeBy orders f g = true) : beforeBy orders g f = false := by
  induction orders with
  | nil => cases first
  | cons order rest inductionHypothesis =>
    rw [beforeBy_cons, Bool.or_eq_true, Bool.and_eq_true] at first
    rw [not_beforeBy_cons]
    rcases first with early | ⟨alike, later⟩
    · refine ⟨Cell.comesBefore_asymm early, fun alike => ?_⟩
      rw [Cell.not_comesBefore_of_same (Cell.same_symm _ _ ▸ alike)] at early
      cases early
    · exact ⟨Cell.not_comesBefore_of_same (Cell.same_symm _ _ ▸ alike),
        fun _ => inductionHypothesis later⟩

/-- Values that an order does not tell apart are the same in all its columns. -/
theorem same_of_not_beforeBy (first : beforeBy orders f g = false)
    (second : beforeBy orders g f = false) {order : RowOrder} (member : order ∈ orders) :
    Cell.same (f order.column) (g order.column) = true := by
  induction orders with
  | nil => cases member
  | cons head rest inductionHypothesis =>
    rw [not_beforeBy_cons] at first second
    have same := Cell.same_of_not_comesBefore first.1 second.1
    rcases List.mem_cons.mp member with rfl | later
    · exact same
    · exact inductionHypothesis (first.2 same) (second.2 (Cell.same_symm _ _ ▸ same)) later

end BeforeBy

variable {layer : Layer} {groups ordered other : List (List Row)} {rows : List Row}

theorem orderValue_eq_denoted (layer : Layer) (group : List Row) (name : String) :
    layer.orderValue false group name =
      (Projection.denoted layer.projections name).ofGroup group (layer.standing? group) := by
  unfold orderValue Projection.denoted
  rw [if_neg Bool.false_ne_true]
  cases layer.projections.find? (·.name == name) <;> rfl

/-! ### Arrangements of groups -/

/-- All groups, in an order in which none comes before an earlier one. -/
structure IsArranged (layer : Layer) (groups ordered : List (List Row)) : Prop where
  all : ordered.Perm groups
  sorted : ordered.Pairwise fun first later => layer.precedes false later first = false

/-- Groups that an order does not leave open are told apart by it. -/
def TellsApart (layer : Layer) (groups : List (List Row)) : Prop :=
  ∀ group ∈ groups, ∀ other ∈ groups, layer.precedes false group other = false →
    layer.precedes false other group = false → group = other

theorem isArranged_mergeSort (layer : Layer) (groups : List (List Row)) :
    layer.IsArranged groups
      (groups.mergeSort fun first later => !layer.precedes false later first) := by
  refine ⟨List.mergeSort_perm _ _, pairwise_mergeSort ?_ ?_ _⟩
  · exact fun _ _ first => beforeBy_asymm first
  · exact fun _ _ _ first second => not_beforeBy_trans first second

/-- Groups that are told apart can be arranged in one way only. -/
theorem IsArranged.eq_of_tellsApart (arranged : layer.IsArranged groups ordered)
    (arrangedToo : layer.IsArranged groups other) (apart : layer.TellsApart groups) :
    ordered = other := by
  refine List.Perm.eq_of_pairwise (fun group otherGroup member memberToo later earlier => ?_)
    arranged.sorted arrangedToo.sorted (arranged.all.trans arrangedToo.all.symm)
  exact apart group (arranged.all.mem_iff.mp member) otherGroup
    (arrangedToo.all.mem_iff.mp memberToo) earlier later

/-- In all arrangements by one column the values of this column come in the same order, by rank. -/
theorem IsArranged.map_rank_eq (arranged : layer.IsArranged groups ordered)
    (arrangedToo : layer.IsArranged groups other) {column : String} {direction : Direction}
    (single : layer.orderBy = [⟨column, direction⟩]) :
    ordered.map (fun group => Cell.rank (layer.orderValue false group column)) =
      other.map (fun group => Cell.rank (layer.orderValue false group column)) := by
  have sorted {ordered : List (List Row)} (arranged : layer.IsArranged groups ordered) :
      (ordered.map fun group => Cell.rank (layer.orderValue false group column)).Pairwise
        fun first later =>
          (if direction = .asc then later.less first else first.less later) = false := by
    refine List.pairwise_map.mpr (arranged.sorted.imp fun {first later} order => ?_)
    rw [precedes_single single] at order
    cases direction <;> exact order
  refine List.Perm.eq_of_pairwise (fun first later _ _ left right => ?_) (sorted arranged)
    (sorted arrangedToo) ((arranged.all.trans arrangedToo.all.symm).map _)
  cases direction with
  | asc => exact Cell.Rank.eq_of_not_less right left
  | desc => exact Cell.Rank.eq_of_not_less left right

/-- Groups with different values in this column are told apart. -/
theorem IsArranged.tellsApart_of_nodup (arranged : layer.IsArranged groups ordered) {column : String}
    {direction : Direction} (single : layer.orderBy = [⟨column, direction⟩])
    (distinct : (ordered.map fun group => Cell.rank (layer.orderValue false group column)).Nodup) :
    layer.TellsApart groups := by
  intro group known other knownToo first second
  rw [precedes_single single] at first second
  exact List.inj_on_of_nodup_map distinct (arranged.all.mem_iff.mpr known)
    (arranged.all.mem_iff.mpr knownToo) (beq_iff_eq.mp (Cell.same_of_not_comesBefore first second))

/-- A page of a layer is arranged as the layer is. -/
theorem IsArranged.of_page {limit offset : Option Int}
    (arranged : IsArranged { layer with limit, offset } groups ordered) :
    layer.IsArranged groups ordered := ⟨arranged.all, arranged.sorted⟩

/-- Groups by columns are told apart by an order that denotes all of the columns. -/
theorem tellsApart_of_shares (shares : Shares layer.groupBy groups rows)
    (filled : ∀ group ∈ groups, group ≠ [])
    (denoted : ∀ column ∈ layer.groupBy, ∃ order ∈ layer.orderBy,
      Projection.denoted layer.projections order.column = .column column) :
    layer.TellsApart groups := by
  intro group known other knownToo first second
  obtain ⟨row, inside, standing⟩ := layer.exists_standing (filled group known)
  obtain ⟨otherRow, insideToo, standingToo⟩ := layer.exists_standing (filled other knownToo)
  have sameKey : Cell.sameKey (row.key layer.groupBy) (otherRow.key layer.groupBy) = true := by
    rw [Cell.sameKey_key, List.all_eq_true]
    intro column member
    obtain ⟨order, ordered, denotes⟩ := denoted column member
    have same := same_of_not_beforeBy first second ordered
    rw [orderValue_eq_denoted, orderValue_eq_denoted, denotes, standing, standingToo] at same
    exact same
  rw [shares.alike group known row inside, shares.alike other knownToo otherRow insideToo]
  exact List.filter_congr fun fact _ => Cell.sameKey_congr_left sameKey

/-- So are the groups of a layer with aggregates. -/
theorem tellsApart_groups (aggregated : layer.projections.any (·.expression.isAggregate) = true)
    (denoted : ∀ column ∈ layer.groupBy, ∃ order ∈ layer.orderBy,
      Projection.denoted layer.projections order.column = .column column) (rows : List Row) :
    layer.TellsApart (layer.groups rows) := by
  by_cases grouped : layer.groupBy = []
  · have single : layer.groups rows = [rows] := by
      unfold groups
      rw [grouped, if_neg (by simp), if_pos aggregated]
    intro group known other knownToo _ _
    rw [single, List.mem_singleton] at known knownToo
    rw [known, knownToo]
  · refine tellsApart_of_shares (layer.shares_groups aggregated rows) (fun group member => ?_) denoted
    rw [groups_eq_groupRows grouped] at member
    exact ne_nil_of_mem_groupRows member

end Layer

/-! ### Stores that leave ties open -/

/-- The groups that a layer finds in a table. -/
def Table.groups (table : Table) (layer : Layer) : List (List Row) :=
  layer.groups (selectRows table.columns layer.predicates table.rows)

/-- The rows that a layer makes of groups in some arrangement. -/
def Layer.rowsOf (layer : Layer) (ordered : List (List Row)) : List Row :=
  (Layer.page layer.limit layer.offset ordered).map layer.project

/-- With a page, these are a page of the rows that are made without one. -/
theorem Layer.rowsOf_eq_pageOf (layer : Layer) (limit : layer.limit = none)
    (offset : layer.offset = none) (size page : Nat) (ordered : List (List Row)) :
    Layer.rowsOf { layer with
        limit := some (size : Int), offset := some ((page : Int) * (size : Int)) } ordered =
      pageOf size (layer.rowsOf ordered) page := by
  unfold rowsOf
  rw [limit, offset, page_all, ← map_pageOf, page_eq_pageOf]
  rfl

namespace Store

variable {σ : Type} {store : Store σ} {db : Database}

/-- A store that answers queries over tables from their groups, and arranges what an order leaves open
as it likes, maybe differently from one statement to the next. -/
def Sorts (store : Store σ) (db : Database) : Prop :=
  ∀ request state name layer table, request.query = .scan name layer →
    request.query.aliases.Nodup → db.table? name = some table →
      ∃ ordered, layer.IsArranged (table.groups layer) ordered ∧
        (store.execute request state).1.outcome = .ok (layer.rowsOf ordered)

/-- A store that arranges what an order leaves open in the same way for all pages of a query. -/
def SortsAlike (store : Store σ) (db : Database) : Prop :=
  ∃ arrange : String → Layer → List (List Row),
    ∀ request state name layer table, request.query = .scan name layer →
      request.query.aliases.Nodup → db.table? name = some table →
        layer.IsArranged (table.groups layer)
            (arrange name { layer with limit := none, offset := none }) ∧
          (store.execute request state).1.outcome =
            .ok (layer.rowsOf (arrange name { layer with limit := none, offset := none }))

theorem SortsAlike.sorts (alike : store.SortsAlike db) : store.Sorts db := by
  obtain ⟨arrange, answered⟩ := alike
  intro request state name layer table asked distinct known
  exact ⟨_, answered request state name layer table asked distinct known⟩

/-- Sorting groups in the order in which they come leaves nothing open. -/
theorem Evaluates.sortsAlike (evaluates : store.Evaluates db) : store.SortsAlike db := by
  refine ⟨fun name layer => ((db.table? name).elim [] fun table => table.groups layer).mergeSort
    fun first later => !layer.precedes false later first, ?_⟩
  intro request state name layer table asked distinct known
  simp only [known, Option.elim_some]
  refine ⟨⟨(layer.isArranged_mergeSort _).all, (layer.isArranged_mergeSort _).sorted⟩, ?_⟩
  exact evaluates request state _ distinct (by rw [asked]; exact Database.answer?_scan known layer)

end Store

/-- The groups of a layer, turned around when some of them are to be left out before a page. -/
def Table.turnedGroups (table : Table) (layer : Layer) : List (List Row) :=
  if layer.offset.any (0 < ·) then (table.groups layer).reverse else table.groups layer

/-- The rows that a query over a table finds when such groups are sorted. -/
def Database.turnedRows? (db : Database) : Query → Option (List Row)
  | .scan name layer =>
    (db.table? name).map fun table => layer.rowsOf
      ((table.turnedGroups layer).mergeSort fun first later => !layer.precedes false later first)
  | .derived .. => none

/-- A store that turns groups around for some statements before it sorts them. -/
def Database.turning (db : Database) : Store Unit where
  execute request _ :=
    (⟨(db.turnedRows? request.query).elim (.error (.outside .wrongType)) .ok, []⟩, ())

theorem Database.outcome_turning {db : Database} {request : Request} {rows : List Row}
    (found : db.turnedRows? request.query = some rows) (state : Unit) :
    (db.turning.execute request state).1.outcome = .ok rows := by
  unfold turning
  simp only [found]
  rfl

theorem Database.sorts_turning (db : Database) : db.turning.Sorts db := by
  intro request state name layer table asked _ known
  have found : (table.turnedGroups layer).Perm (table.groups layer) := by
    unfold Table.turnedGroups
    split
    · exact List.reverse_perm _
    · exact List.Perm.refl _
  have arranged := layer.isArranged_mergeSort (table.turnedGroups layer)
  refine ⟨_, ⟨arranged.all.trans found, arranged.sorted⟩, outcome_turning ?_ state⟩
  rw [asked, turnedRows?, known]
  rfl

end Olap
