/-
What the rows of an answer are. A query with aggregates makes one row of each group of the rows that
meet its conditions. An order and a page decide which of these rows are there and in which place,
and never what is in them; a query that only ranks the rows of another one has some of them, as they
are. So the rows of an answer belong to some of the groups, each to another one.
-/

import Olap.Proofs.Groups
import Olap.Store.Basic

namespace Olap

namespace Record

variable {β : Type}

theorem get?_of_mem {fields : List (String × β)} {key : String} {value : β}
    (distinct : (keys fields).Nodup) (member : (key, value) ∈ fields) :
    get? fields key = some value := by
  induction fields with
  | nil => cases member
  | cons field rest inductionHypothesis =>
    rw [keys, List.map_cons, List.nodup_cons] at distinct
    rw [get?_cons]
    rcases List.mem_cons.mp member with rfl | later
    · rw [if_pos rfl]
    · rw [if_neg, inductionHypothesis distinct.2 later]
      rintro rfl
      exact distinct.1 (List.mem_map_of_mem (f := (·.1)) later)

end Record

namespace Layer

/-! ### Groups and the rows they make -/

theorem groups_eq_groupRows {layer : Layer} (grouped : layer.groupBy ≠ []) (rows : List Row) :
    layer.groups rows = groupRows layer.groupDirections layer.groupBy rows := by
  unfold groups
  rw [if_pos (by simpa using grouped)]

/-- The groups of a layer with aggregates share out its rows. -/
theorem shares_groups {layer : Layer}
    (aggregated : layer.projections.any (·.expression.isAggregate) = true) (rows : List Row) :
    Shares layer.groupBy (layer.groups rows) rows := by
  unfold groups
  cases columns : layer.groupBy with
  | nil =>
    rw [if_neg (by simp), if_pos aggregated]
    exact shares_whole rows
  | cons column others =>
    exact shares_groupRows _ _ rows

/-- Of some rows, one by one, one is the last. -/
theorem foldl_mem {β : Type} (choose : β → β → Prop) [∀ a b, Decidable (choose a b)] (first : β)
    (rest : List β) :
    rest.foldl (fun best next => if choose next best then next else best) first ∈
      first :: rest := by
  induction rest generalizing first with
  | nil => exact List.mem_singleton_self first
  | cons next rest inductionHypothesis =>
    rw [List.foldl_cons]
    rcases List.mem_cons.mp (inductionHypothesis (if choose next first then next else first)) with
      same | later
    · rw [same]
      split
      · exact List.mem_cons_of_mem _ List.mem_cons_self
      · exact List.mem_cons_self
    · exact List.mem_cons_of_mem _ (List.mem_cons_of_mem _ later)

/-- The row that stands for a group is one of its rows. -/
theorem exists_standing (layer : Layer) {group : List Row} (filled : group ≠ []) :
    ∃ row ∈ group, layer.standing? group = some row := by
  unfold standing?
  cases layer.lastExtreme? with
  | none => exact ⟨group.head filled, List.head_mem filled, List.head?_eq_some_head filled⟩
  | some extreme =>
    show ∃ row ∈ group, extremeRow? extreme.1 extreme.2 group = some row
    unfold extremeRow?
    cases present : group.filter fun row => !Cell.isAbsent (row.cell extreme.2) with
    | nil => exact ⟨group.getLast filled, List.getLast_mem filled, List.getLast?_eq_some_getLast filled⟩
    | cons row rest =>
      refine ⟨_, ?_, rfl⟩
      have member := foldl_mem
        (fun next best => extreme.1.prefers (next.cell extreme.2) (best.cell extreme.2) = true) row rest
      rw [← present] at member
      exact List.mem_of_mem_filter member

theorem exists_standing_of_mem_groups {layer : Layer} (grouped : layer.groupBy ≠ [])
    {rows group : List Row} (member : group ∈ layer.groups rows) :
    ∃ row ∈ group, layer.standing? group = some row := by
  refine layer.exists_standing ?_
  rw [groups_eq_groupRows grouped] at member
  exact ne_nil_of_mem_groupRows member

/-- The row that a group makes has the names of what is selected. -/
theorem keys_project {layer : Layer} (filled : layer.projections ≠ []) (group : List Row) :
    Record.keys (layer.project group) = layer.projections.map (·.name) := by
  unfold project
  rw [if_neg (by simpa using filled)]
  dsimp only
  rw [Record.keys, List.map_map]
  rfl

/-- The row that a group makes has the value of every selected expression under its name. -/
theorem get?_project {layer : Layer} (distinct : (layer.projections.map (·.name)).Nodup)
    {p : Projection} (selected : p ∈ layer.projections) (group : List Row) :
    Record.get? (layer.project group) p.name =
      some (p.expression.ofGroup group (layer.standing? group)) := by
  have filled : layer.projections.isEmpty = false :=
    List.isEmpty_eq_false_iff.mpr (List.ne_nil_of_mem selected)
  unfold project
  rw [filled, if_neg Bool.false_ne_true]
  refine Record.get?_of_mem ?_ (List.mem_map.mpr ⟨p, selected, rfl⟩)
  rw [Record.keys, List.map_map]
  exact distinct

/-! ### Orders and pages -/

theorem page_sublist {β : Type} (limit offset : Option Int) (items : List β) :
    (page limit offset items).Sublist items := by
  unfold page
  cases limit with
  | none => exact List.drop_sublist _ _
  | some count =>
    show (if count < 0 then _ else _ : List β).Sublist items
    split
    · exact List.drop_sublist _ _
    · exact (List.take_sublist _ _).trans (List.drop_sublist _ _)

/-- A layer makes one row of each of some groups. -/
theorem apply_eq_map (layer : Layer) (derived : Bool) (types : ColumnTypes) (rows : List Row) :
    ∃ kept : List (List Row), kept.Subperm (layer.groups (selectRows types layer.predicates rows)) ∧
      layer.apply derived types rows = kept.map layer.project :=
  ⟨_, (page_sublist _ _ _).subperm.trans (List.mergeSort_perm _ _).subperm, rfl⟩

/-- Without a page it makes one of every group. -/
theorem apply_eq_map_of_unpaged (layer : Layer) (limit : layer.limit = none)
    (offset : layer.offset = none) (derived : Bool) (types : ColumnTypes) (rows : List Row) :
    ∃ kept : List (List Row), kept.Perm (layer.groups (selectRows types layer.predicates rows)) ∧
      layer.apply derived types rows = kept.map layer.project := by
  refine ⟨_, List.mergeSort_perm _ fun a b => !layer.precedes derived b a, ?_⟩
  unfold apply
  rw [limit, offset]
  rfl

/-- Without an order the groups come as they are. -/
theorem apply_of_unordered (layer : Layer) (unordered : layer.orderBy = []) (derived : Bool)
    (types : ColumnTypes) (rows : List Row) :
    layer.apply derived types rows =
      (page layer.limit layer.offset
        (layer.groups (selectRows types layer.predicates rows))).map layer.project := by
  unfold apply
  dsimp only
  rw [List.mergeSort_of_pairwise]
  refine List.pairwise_of_forall fun first later => ?_
  rw [precedes, unordered]
  rfl

/-- One row is made when there is no grouping at all. -/
theorem apply_aggregate {layer : Layer} (grouped : layer.groupBy = [])
    (aggregated : layer.projections.any (·.expression.isAggregate) = true)
    (limit : layer.limit = none) (offset : layer.offset = none) (derived : Bool)
    (types : ColumnTypes) (rows : List Row) :
    layer.apply derived types rows =
      [layer.project (selectRows types layer.predicates rows)] := by
  obtain ⟨kept, order, made⟩ := layer.apply_eq_map_of_unpaged limit offset derived types rows
  unfold groups at order
  rw [grouped, if_neg (by simp), if_pos aggregated, List.perm_singleton] at order
  rw [made, order]
  rfl

/-! ### Layers that select nothing -/

theorem selectRows_of_free {layer : Layer} (free : layer.predicates = []) (types : ColumnTypes)
    (rows : List Row) : selectRows types layer.predicates rows = rows := by
  rw [free]
  exact List.filter_eq_self.mpr fun _ _ => rfl

/-- Without aggregates and without columns to group by every row is a group of its own. -/
theorem groups_of_unaggregated {layer : Layer}
    (unaggregated : ∀ p ∈ layer.projections, p.expression.isAggregate = false)
    (grouped : layer.groupBy = []) (rows : List Row) : layer.groups rows = rows.map ([·]) := by
  have none : layer.projections.any (·.expression.isAggregate) = false :=
    List.any_eq_false.mpr fun p member => by simp [unaggregated p member]
  unfold groups
  rw [grouped, none]
  rfl

theorem groups_of_plain {layer : Layer} (plain : layer.projections = [])
    (grouped : layer.groupBy = []) (rows : List Row) : layer.groups rows = rows.map ([·]) :=
  groups_of_unaggregated (by rw [plain]; exact List.forall_mem_nil _) grouped rows

theorem project_of_plain {layer : Layer} (plain : layer.projections = []) :
    layer.project = fun group => group.head?.getD [] := by
  funext group
  unfold project
  rw [plain]
  rfl

/-- A layer that selects nothing stands by one of the rows of each group. -/
theorem project_mem_of_plain {layer : Layer} (plain : layer.projections = [])
    {rows group : List Row} (member : group ∈ layer.groups rows) : layer.project group ∈ rows := by
  rw [project_of_plain plain]
  by_cases grouped : layer.groupBy = []
  · rw [groups_of_plain plain grouped] at member
    obtain ⟨row, inside, rfl⟩ := List.mem_map.mp member
    exact inside
  · rw [groups_eq_groupRows grouped] at member
    have filled := ne_nil_of_mem_groupRows member
    obtain ⟨key, -, rfl⟩ := List.mem_map.mp member
    dsimp only
    rw [List.head?_eq_some_head filled]
    exact List.mem_of_mem_filter (List.head_mem filled)

/-- Rows that were made groups of their own are themselves again. -/
theorem map_head_singletons (rows : List Row) :
    (rows.map ([·])).map (fun group : List Row => group.head?.getD []) = rows := by
  rw [List.map_map]
  exact List.map_id rows

/-- A layer that only orders rows and cuts out a part of them has some of the rows. -/
theorem apply_ranking {layer : Layer} (plain : layer.projections = [])
    (grouped : layer.groupBy = []) (free : layer.predicates = []) (derived : Bool)
    (types : ColumnTypes) (rows : List Row) : (layer.apply derived types rows).Subperm rows := by
  obtain ⟨kept, part, made⟩ := layer.apply_eq_map derived types rows
  rw [selectRows_of_free free, groups_of_plain plain grouped] at part
  rw [made, project_of_plain plain]
  obtain ⟨ordered, order, sublist⟩ := part
  refine ⟨ordered.map _, order.map _, ?_⟩
  have heads := sublist.map fun group : List Row => group.head?.getD []
  rwa [map_head_singletons] at heads

end Layer

/-- A part of what a function makes of a list is made of a part of the list. -/
theorem exists_subperm_of_subperm_map {α β : Type} {f : α → β} {made : List β} {items : List α}
    (part : made.Subperm (items.map f)) :
    ∃ kept : List α, kept.Subperm items ∧ made = kept.map f := by
  obtain ⟨ordered, order, sublist⟩ := part
  obtain ⟨smaller, inside, rfl⟩ := List.sublist_map_iff.mp sublist
  obtain ⟨kept, same, rearranged⟩ : Relation.Comp (· = List.map f ·) List.Perm made smaller := by
    rw [List.eq_map_comp_perm]
    exact order.symm
  exact ⟨kept, rearranged.subperm.trans inside.subperm, same⟩

/-! ### Answers of a database -/

namespace Database

variable {db : Database} {name : String} {table : Table}

theorem answer?_scan (known : db.table? name = some table) (layer : Layer) :
    db.answer? (.scan name layer) = some (layer.apply false table.columns table.rows) := by
  rw [answer?, Query.settled_scan, evaluate?, known]
  rfl

/-- Without its order a layer makes the same groups of rows, and the same row of each group. -/
theorem groups_withoutOrder (layer : Layer) (rows : List Row) :
    layer.withoutOrder.groups rows = layer.groups rows := by
  unfold Layer.withoutOrder
  split
  · rename_i free
    rw [Bool.and_eq_true, List.isEmpty_iff] at free
    unfold Layer.groups
    rw [free.2]
    rfl
  · rfl

theorem project_withoutOrder (layer : Layer) : layer.withoutOrder.project = layer.project := by
  unfold Layer.withoutOrder
  split <;> rfl

theorem predicates_withoutOrder (layer : Layer) :
    layer.withoutOrder.predicates = layer.predicates := by
  unfold Layer.withoutOrder
  split <;> rfl

/-- A ranking of the rows of a query over a table has rows of some of the groups. -/
theorem answer?_ranking (known : db.table? name = some table) (inner outer : Layer)
    (plain : outer.projections = []) (grouped : outer.groupBy = [])
    (free : outer.predicates = []) :
    ∃ kept : List (List Row),
      kept.Subperm (inner.groups (selectRows table.columns inner.predicates table.rows)) ∧
      db.answer? (.derived (.scan name inner) outer) = some (kept.map inner.project) := by
  obtain ⟨settled, same, groups, project, predicates⟩ : ∃ settled : Layer,
      (Query.derived (.scan name inner) outer).settled true =
        .derived (.scan name settled) outer ∧
      settled.groups = inner.groups ∧ settled.project = inner.project ∧
      settled.predicates = inner.predicates := by
    cases heeds : outer.heedsOrder with
    | true => exact ⟨inner, by simp [Query.settled, heeds], rfl, rfl, rfl⟩
    | false =>
      exact ⟨inner.withoutOrder, by simp [Query.settled, heeds],
        funext (groups_withoutOrder inner), project_withoutOrder inner,
        predicates_withoutOrder inner⟩
  obtain ⟨kept, part, made⟩ := settled.apply_eq_map false table.columns table.rows
  rw [groups, predicates] at part
  rw [project] at made
  have ranked := Layer.apply_ranking plain grouped free true (settled.outcomeTypes table.columns)
    (settled.apply false table.columns table.rows)
  rw [made] at ranked
  obtain ⟨chosen, inside, last⟩ := exists_subperm_of_subperm_map ranked
  refine ⟨chosen, inside.trans part, ?_⟩
  rw [answer?, same, evaluate?, evaluate?, known, ← last, ← made]
  rfl

end Database

/-- A store that answers every query about tables as the database does. The names of the selected
columns have to differ. -/
def Store.Evaluates {σ : Type} (store : Store σ) (db : Database) : Prop :=
  ∀ request state rows, request.query.aliases.Nodup → db.answer? request.query = some rows →
    (store.execute request state).1.outcome = .ok rows

/-- A store that answers from a database and fails when there is no answer. -/
def Database.evaluator (db : Database) : Store Unit where
  execute request _ :=
    (⟨(db.answer? request.query).elim (.error (.outside .wrongType)) .ok, []⟩, ())

theorem Database.evaluates_evaluator (db : Database) : db.evaluator.Evaluates db := by
  intro request state rows _ answered
  unfold Database.evaluator
  simp only [answered]
  rfl

end Olap
