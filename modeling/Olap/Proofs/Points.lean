/-
Cutting at a point. A point is a path of values, one for each of the first levels of a hierarchy; in a
query it becomes one equality for each value, on the column of the key of the level. The keys of a row
of a drill-down make such a path. In a table whose columns hold what their types let them hold, the
facts that meet the equalities of the path are the facts that have the keys of the row, absent keys
included. When the keys of the levels decide all their attributes, these facts are the group of the
row, and then the slice that is cut at the path has the row as its summary.

A cut knows its hierarchy by name and takes the default one without a name. So a hierarchy without a
name can only be cut along where it is the default.
-/

import Olap.Proofs.DrillDown
import Olap.Proofs.Levels

namespace Olap

/-! ### What columns hold -/

namespace Cell

/-- What a column of a type holds: nothing, or a number or a text that is still the same when it is
compared with the column. -/
def IsStored (type : Option ColumnType) (value : Value) : Prop :=
  value = .null ∨ (rank value ≠ .absent ∧ rank value ≠ .other ∧ fitTo type value = value)

variable {type : Option ColumnType} {value : Value}

theorem isStored_int (numeric : type ≠ some .text) (i : Int) : IsStored type (.int i) := by
  have ranked : rank (.int i) = .number (.finite (i * Decimal.unitsPerOne)) := rfl
  refine Or.inr ⟨?_, ?_, ?_⟩
  · rw [ranked]
    exact Rank.noConfusion
  · rw [ranked]
    exact Rank.noConfusion
  · cases type with
    | none => rfl
    | some declared =>
      cases declared with
      | text => exact absurd rfl numeric
      | integer | float => rfl

theorem isStored_text (textual : type = none ∨ type = some .text) (s : String) :
    IsStored type (.text s) := by
  refine Or.inr ⟨Rank.noConfusion, Rank.noConfusion, ?_⟩
  rcases textual with rfl | rfl <;> rfl

theorem IsStored.isKeyValue (stored : IsStored type value) : Cut.isKeyValue value = true := by
  rcases stored with rfl | ⟨-, known, -⟩
  · rfl
  · cases value with
    | list | record => exact absurd rfl known
    | _ => rfl

theorem IsStored.ne_wildcard (stored : IsStored type value) : value ≠ .wildcard := by
  rintro rfl
  rcases stored with same | ⟨-, known, -⟩
  · cases same
  · exact known rfl

/-- Rows with the same key have the same value in every column. -/
theorem sameKey_key (columns : List String) (row other : Row) :
    sameKey (row.key columns) (other.key columns) =
      columns.all fun column => same (row.cell column) (other.cell column) := by
  induction columns with
  | nil => rfl
  | cons column rest inductionHypothesis =>
    rw [List.all_cons, ← inductionHypothesis]
    rfl

theorem sameKey_of_subset {columns fewer : List String} {row other : Row}
    (part : fewer ⊆ columns) (agrees : sameKey (row.key columns) (other.key columns) = true) :
    sameKey (row.key fewer) (other.key fewer) = true := by
  rw [sameKey_key, List.all_eq_true] at agrees ⊢
  exact fun column member => agrees column (part member)

end Cell

/-- A table whose columns hold what their types let them hold. -/
def Table.IsStored (table : Table) : Prop :=
  ∀ fact ∈ table.rows, ∀ column,
    Cell.IsStored (Record.get? table.columns column) (fact.cell column)

namespace Predicate

variable {types : ColumnTypes} {column : String} {value : Value}

theorem holds_equals_of_ne_null (present : value ≠ .null) (row : Row) :
    (equals column value).holds types row =
      Cell.equals (row.cell column) (Cell.fitTo (Record.get? types column) value) := by
  cases value with
  | null => exact absurd rfl present
  | _ => rfl

/-- A row has what is stored in a column, be it there or absent, when its own value is the same. -/
theorem holds_equals (stored : Cell.IsStored (Record.get? types column) value) (row : Row) :
    (equals column value).holds types row = Cell.same value (row.cell column) := by
  rcases stored with rfl | ⟨present, -, fits⟩
  · exact Bool.beq_comm
  · have notNull : value ≠ .null := by
      rintro rfl
      exact present rfl
    rw [holds_equals_of_ne_null notNull, fits, Cell.same_symm value]
    unfold Cell.equals
    cases same : Cell.same (row.cell column) value with
    | false => rw [Bool.and_false]
    | true =>
      have there : Cell.isAbsent (row.cell column) = false := by
        rw [Cell.isAbsent, beq_iff_eq.mp same]
        exact beq_false_of_ne present
      rw [there]
      rfl

end Predicate

theorem selectRows_append (types : ColumnTypes) (conditions more : List Predicate)
    (rows : List Row) :
    selectRows types (conditions ++ more) rows =
      (selectRows types conditions rows).filter fun row => more.all (Predicate.holds types row) := by
  unfold selectRows
  rw [List.filter_filter]
  refine List.filter_congr fun row _ => ?_
  rw [List.all_append, Bool.and_comm]

/-! ### Conditions of points -/

namespace Compiler

variable {c : Compiler} {cuts : List Cut}

theorem predicates_append {conditions more : List Predicate} {cut : Cut}
    (compiled : c.predicates cuts = .ok conditions) (last : c.cutPredicates cut = .ok more) :
    c.predicates (cuts ++ [cut]) = .ok (conditions ++ more) := by
  induction cuts generalizing conditions with
  | nil =>
    cases compiled
    exact Result.bind_ok.2 ⟨more, last, Result.bind_ok.2 ⟨[], rfl, by rw [List.append_nil]; rfl⟩⟩
  | cons first rest inductionHypothesis =>
    obtain ⟨head, headCompiled, compiled⟩ := Result.bind_ok.1 compiled
    obtain ⟨others, below, compiled⟩ := Result.bind_ok.1 compiled
    cases compiled
    refine Result.bind_ok.2 ⟨head, headCompiled, Result.bind_ok.2
      ⟨_, inductionHypothesis below, ?_⟩⟩
    rw [List.append_assoc]
    rfl

/-- Values of the keys of levels become equalities on the columns of the keys. -/
theorem pathConditions_map {levels : List Level} {keys : List Attribute}
    (keyed : allOf Level.keyAttribute levels = .ok keys) {value : Attribute → Value}
    (closed : ∀ key ∈ keys, value key ≠ .wildcard) :
    c.pathConditions levels (keys.map value) =
      .ok (keys.map fun key => .equals (c.column key) (value key)) := by
  induction levels generalizing keys with
  | nil =>
    cases keyed
    rfl
  | cons level rest inductionHypothesis =>
    obtain ⟨key, others, found, below, rfl⟩ := allOf_cons_ok.1 keyed
    have later := inductionHypothesis below fun other member =>
      closed other (List.mem_cons_of_mem _ member)
    rw [List.map_cons, pathConditions]
    · exact Result.bind_ok.2 ⟨key, found, Result.bind_ok.2 ⟨_, later, rfl⟩⟩
    · exact closed key List.mem_cons_self

end Compiler

/-! ### Cuts at points -/

theorem normalizePath_list {path : List Value} (plain : ∀ value ∈ path, value ≠ .text "*") :
    normalizePath (.list path) = .ok path := by
  have same : path.map pathElement = path.map id := by
    refine List.map_congr_left fun value member => ?_
    unfold pathElement
    split
    · exact absurd rfl (plain _ member)
    · rfl
  show Except.ok (path.map pathElement) = _
  rw [same, List.map_id]

/-- A cut at a point is made of what its dimension, its hierarchy and its path are checked to be. -/
theorem Cut.byPoint_ok {dimension path hierarchy : Description} {name : String}
    {hierarchyName : Option String} {values : List Value}
    (named : (checkDimension dimension).result = .ok name)
    (chosen : (checkHierarchy hierarchy).result = .ok hierarchyName)
    (normalized : normalizePath path.toValue = .ok values) :
    byPoint dimension path hierarchy = .ok (.point name hierarchyName values) := by
  have checked : (checkPath path).result = .ok values := by
    unfold checkPath
    rw [normalized]
    rfl
  refine Check.result_seq.2 ⟨_, (), Check.result_seq.2 ⟨_, values, Check.result_seq.2
    ⟨_, hierarchyName, Check.result_map.2 ⟨name, ?_, rfl⟩, ?_, rfl⟩, ?_, rfl⟩, rfl, rfl⟩
  · exact Check.result_under.2 named
  · exact Check.result_under.2 chosen
  · exact Check.result_under.2 checked

namespace Browser

open Olap.Action Cell

variable {σ : Type} {b : Browser σ} {db : Database} {table : Table}

/-- A drill-down to the first levels of a hierarchy of a dimension. -/
structure DrillsTo (b : Browser σ) (o : AggregateOptions) (d : Dimension) (h : Hierarchy)
    (depth : Nat) (keys : List Attribute) : Prop where
  held : b.cube.dimension d.name = .ok d
  made : ∃ draft, Dimension.ofDraft draft = .ok d
  declared : h ∈ d.hierarchies
  asked : o.rowDimension = some d.name
  named : (h.levels.take depth).map (·.name) = o.levels.map some
  keyed : allOf Level.keyAttribute (h.levels.take depth) = .ok keys

section DrillsTo

variable {o : AggregateOptions} {d : Dimension} {h : Hierarchy} {depth : Nat}
  {keys : List Attribute}

/-- The attributes of the levels are what rows are grouped by. -/
theorem DrillsTo.rowAttributes (down : b.DrillsTo o d h depth keys) (drills : o.isDrillDown = true) :
    b.compiler.rowAttributes o = .ok ((h.levels.take depth).flatMap (·.attributes)) := by
  obtain ⟨draft, made⟩ := down.made
  unfold Compiler.rowAttributes
  rw [drills, if_neg (by simp), down.asked]
  refine Result.bind_ok.2 ⟨d, down.held, d.levelAttributes_eq (fun level member => ?_) down.named⟩
  exact Dimension.find?_of_mem_levels made down.declared (List.mem_of_mem_take member)

/-- A path of values of the keys is compared with the columns of the keys. -/
theorem DrillsTo.cutPredicates (down : b.DrillsTo o d h depth keys)
    (settled : h.name = none → d.defaultHierarchy = .ok h) (value : Attribute → Value)
    (closed : ∀ key ∈ keys, value key ≠ .wildcard) :
    b.compiler.cutPredicates (.point d.name h.name (keys.map value)) =
      .ok (keys.map fun key => .equals (b.compiler.column key) (value key)) := by
  obtain ⟨draft, made⟩ := down.made
  have known := Dimension.hierarchy_of_mem made down.declared settled
  have resolved : Cut.resolve (.point d.name h.name (keys.map value)) b.compiler.cube =
      .ok (d, h) := Result.bind_ok.2 ⟨d, down.held, Result.bind_ok.2 ⟨h, known, rfl⟩⟩
  have levels : h.levelsForPath (keys.map value) false = .ok (h.levels.take depth) := by
    unfold Hierarchy.levelsForPath Hierarchy.levelsForDepth
    rw [List.length_map, Level.length_keys down.keyed, List.length_take, if_neg (by omega),
      if_neg (by omega)]
    show Except.ok (h.levels.take (min depth h.levels.length)) = _
    rw [← List.take_eq_take_min]
  exact Result.bind_ok.2 ⟨(d, h), resolved, Result.bind_ok.2
    ⟨_, levels, Compiler.pathConditions_map down.keyed closed⟩⟩

end DrillsTo

/-! ### Groups and points -/

/-- Keys that decide attributes: facts with the same keys have the same attributes. No key is the
asterisk, which stands for the wildcard in a path. -/
structure KeysDecide (c : Compiler) (keys attributes : List Attribute) (facts : List Row) :
    Prop where
  decides : ∀ fact ∈ facts, ∀ other ∈ facts,
    sameKey (fact.key (keys.map c.column)) (other.key (keys.map c.column)) = true →
      sameKey (fact.key (attributes.map c.column)) (other.key (attributes.map c.column)) = true
  plain : ∀ fact ∈ facts, ∀ key ∈ keys, fact.cell (c.column key) ≠ .text "*"

/-- The path that a fact has along keys. -/
def pathOf (c : Compiler) (keys : List Attribute) (fact : Row) : List Value :=
  keys.map fun key => fact.cell (c.column key)

/-- The rows that meet the equalities of the keys of a fact are those that have its keys. -/
theorem all_holds_equals {types : ColumnTypes} {columns : List String} {fact : Row}
    (stored : ∀ column, Cell.IsStored (Record.get? types column) (fact.cell column)) (row : Row) :
    ((columns.map fun column => Predicate.equals column (fact.cell column)).all
      (Predicate.holds types row)) = sameKey (fact.key columns) (row.key columns) := by
  rw [sameKey_key, List.all_map]
  refine List.all_congr rfl fun column => ?_
  exact Predicate.holds_equals (stored column) row

section Points

variable {o : AggregateOptions} {d : Dimension} {h : Hierarchy} {depth : Nat}
  {keys attributes : List Attribute} {facts : List Row} {fact : Row}

/-- The facts of a slice that is cut at the keys of a fact are the facts with these keys. -/
theorem DrillsTo.factsIn_point (down : b.DrillsTo o d h depth keys)
    (settled : h.name = none → d.defaultHierarchy = .ok h) (stored : table.IsStored)
    {cuts : List Cut} (restricted : b.factsIn table cuts = .ok facts) (member : fact ∈ facts) :
    b.factsIn table (cuts ++ [.point d.name h.name (pathOf b.compiler keys fact)]) =
        .ok (facts.filter fun other => sameKey (fact.key (keys.map b.compiler.column))
          (other.key (keys.map b.compiler.column))) := by
  obtain ⟨conditions, compiled, rfl⟩ := Result.map_ok.1 restricted
  have cells := stored fact (List.mem_of_mem_filter member)
  have last := down.cutPredicates settled (fun key => fact.cell (b.compiler.column key))
    fun key _ => (cells _).ne_wildcard
  refine Result.map_ok.2 ⟨_, Compiler.predicates_append compiled last, ?_⟩
  rw [selectRows_append]
  refine List.filter_congr fun other _ => ?_
  rw [← all_holds_equals cells, List.map_map]
  rfl

/-- A slice is cut at the path of a fact when its dimension and its hierarchy are told. -/
theorem cutByPoint_pathOf {c : Compiler} {name : String} {hierarchyName : Option String}
    {dimension hierarchy : Description} (named : (Cut.checkDimension dimension).result = .ok name)
    (chosen : (Cut.checkHierarchy hierarchy).result = .ok hierarchyName)
    (plain : ∀ key ∈ keys, fact.cell (c.column key) ≠ .text "*") (slice : Slice) :
    slice.cutByPoint dimension (Datum.lift (.list (pathOf c keys fact))) hierarchy =
      .ok (Slice.ofCuts slice.cube
        (slice.cuts ++ [.point name hierarchyName (pathOf c keys fact)])) := by
  refine Result.map_ok.2 ⟨_, Cut.byPoint_ok named chosen ?_, rfl⟩
  rw [show Description.toValue (Datum.lift _) = _ from Datum.plain_lift _ _]
  refine normalizePath_list fun value member => ?_
  obtain ⟨key, keyMember, rfl⟩ := List.mem_map.mp member
  exact plain key keyMember

theorem isHashable_point {slice : Slice} (hashable : slice.isHashable = true) (cube : Cube)
    (name : String) (hierarchyName : Option String) {path : List Value}
    (known : ∀ value ∈ path, Cut.isKeyValue value = true) :
    (Slice.ofCuts cube (slice.cuts ++ [.point name hierarchyName path])).isHashable = true := by
  show (slice.cuts ++ _).all Cut.isHashable = true
  rw [List.all_append, show slice.cuts.all Cut.isHashable = true from hashable]
  exact Bool.and_eq_true_iff.mpr ⟨rfl, Bool.and_eq_true_iff.mpr ⟨List.all_eq_true.mpr known, rfl⟩⟩

/-- A call for the summary of a slice that is cut at the path of a fact comes to a result, which tells
of the facts with the keys of this fact. -/
theorem DrillsTo.perform_point (down : b.DrillsTo o d h depth keys)
    (settled : h.name = none → d.defaultHierarchy = .ok h) (onTable : b.OverTable db table)
    (stored : table.IsStored) {slice : Slice} (restricted : b.factsIn table slice.cuts = .ok facts)
    (member : fact ∈ facts) (hashable : slice.isHashable = true) {call : AggregateCall}
    {options : AggregateOptions} {m : Attribute} (summarizing : b.Summarizing call options m)
    (distinct : ((b.compiler.aggregateProjections m options.operators).map (·.name)).Nodup)
    (cube : Cube) (state : σ) (log : List LogLine) :
    ∃ a after, perform (b.call call)
        ⟨Slice.ofCuts cube (slice.cuts ++ [.point d.name h.name (pathOf b.compiler keys fact)]),
          state, log⟩ = (.ok a, after) ∧
      Tells id (b.compiler.column m) options.operators a.summary
        (facts.filter fun other => sameKey (fact.key (keys.map b.compiler.column))
          (other.key (keys.map b.compiler.column))) := by
  refine summarizing.perform_call onTable (keepsTrue_of_nil b _ rfl)
    (down.factsIn_point settled stored restricted member) (isHashable_point hashable _ _ _ ?_) distinct
    state log
  obtain ⟨conditions, -, rfl⟩ := Result.map_ok.1 restricted
  intro value among
  obtain ⟨key, -, rfl⟩ := List.mem_map.mp among
  exact (stored fact (List.mem_of_mem_filter member) _).isKeyValue

/-- When keys decide the attributes, a row of a drill-down has the attributes of a fact, and its group
has the facts with the keys of this fact. -/
theorem Found.exists_fact {c : Compiler} {m : Attribute} {summary : Row}
    {groups kept : List (List Row)} {rowOf : List Row → Row}
    (found : Found c o m attributes facts summary groups kept rowOf)
    (decided : KeysDecide c keys attributes facts) (part : keys ⊆ attributes) (some : keys ≠ [])
    {group : List Row} (member : group ∈ kept) :
    ∃ fact ∈ facts,
      (∀ a ∈ attributes,
        Record.get? (rowOf group) a.refText = .some (fact.cell (c.column a))) ∧
      group = facts.filter fun other =>
        sameKey (fact.key (keys.map c.column)) (other.key (keys.map c.column)) := by
  have known := found.part.subset member
  obtain ⟨fact, inside, standing⟩ := found.standing
    (List.ne_nil_of_mem (part (List.head_mem some))) group known
  have alike := found.shares.alike group known fact inside
  have among : fact ∈ facts := by
    rw [alike] at inside
    exact List.mem_of_mem_filter inside
  refine ⟨fact, among, standing, alike.trans (List.filter_congr fun other otherMember => ?_)⟩
  rw [Bool.eq_iff_iff]
  constructor
  · exact sameKey_of_subset (List.map_subset _ part)
  · exact decided.decides fact among other otherMember

end Points

/-! ### Rows and points -/

/-- A row has the number of records and the aggregates of a summary. -/
structure HasAggregates (measure : Option String) (operators : List String) (row summary : Row) :
    Prop where
  records : ∃ count, Record.get? row recordCount = some count ∧
    Record.get? summary recordCount = some count
  aggregates : ∀ operator ∈ operators, ∃ value,
    Record.get? row (fieldOf measure operator) = some value ∧
      Record.get? summary operator = some value

theorem hasAggregates_of_tells {measure : Option String} {column : String}
    {operators : List String} {row summary : Row} {facts : List Row}
    (known : ∀ operator ∈ operators, ∃ function, Compiler.aggregate? operator = some function)
    (ofRow : Tells (fieldOf measure) column operators row facts)
    (ofSummary : Tells id column operators summary facts) :
    HasAggregates measure operators row summary := by
  refine ⟨⟨_, ofRow.records, ofSummary.records⟩, fun operator member => ?_⟩
  obtain ⟨function, found⟩ := known operator member
  exact ⟨_, ofRow.aggregates operator member function found,
    ofSummary.aggregates operator member function found⟩

/-- What is true of the items of two lists place by place has a witness for every item. -/
theorem exists_of_mem_forall₂ {α β : Type} {R : α → β → Prop} {items : List α} {others : List β}
    (related : List.Forall₂ R items others) {item : α} (member : item ∈ items) :
    ∃ other ∈ others, R item other := by
  induction related with
  | nil => cases member
  | cons first rest inductionHypothesis =>
    rcases List.mem_cons.mp member with rfl | later
    · exact ⟨_, List.mem_cons_self, first⟩
    · obtain ⟨other, otherMember, same⟩ := inductionHypothesis later
      exact ⟨other, List.mem_cons_of_mem _ otherMember, same⟩

theorem DrillsTo.keys_ne_nil {o : AggregateOptions} {d : Dimension} {h : Hierarchy} {depth : Nat}
    {keys : List Attribute} (down : b.DrillsTo o d h depth keys) (drills : o.isDrillDown = true) :
    keys ≠ [] := by
  have same := congrArg List.length down.named
  rw [List.length_map, List.length_map, ← Level.length_keys down.keyed] at same
  rintro rfl
  have none : o.levels = [] := List.length_eq_zero_iff.mp same.symm
  rw [AggregateOptions.isDrillDown, none] at drills
  cases drills

/-- A row of a drill-down to the first levels of a hierarchy has the aggregates of the slice that is
cut at the keys of the row, when these keys decide the attributes of the levels. -/
theorem row_eq_summary_of_point (onTable : b.OverTable db table) (stored : table.IsStored)
    {slice : Slice} (reached : b.Reaches slice) {call : AggregateCall} {o : AggregateOptions}
    {m : Attribute} {query : Query} (drilling : b.Drilling slice call o m query)
    (unlimited : o.hasLimit = false) {computed : List ComputedField}
    (given : call.computed = .ok computed) (always : ComputedField.AlwaysComputed computed)
    (apart : ∀ field ∈ computed, field.name ∉ query.aliases)
    {d : Dimension} {h : Hierarchy} {depth : Nat} {keys : List Attribute}
    (down : b.DrillsTo o d h depth keys) (settled : h.name = none → d.defaultHierarchy = .ok h)
    {facts : List Row}
    (restricted : b.factsIn table slice.cuts = .ok facts)
    (decided : KeysDecide b.compiler keys ((h.levels.take depth).flatMap (·.attributes)) facts)
    {dimension hierarchy : Description}
    (named : (Cut.checkDimension dimension).result = .ok d.name)
    (chosen : (Cut.checkHierarchy hierarchy).result = .ok h.name)
    {pointCall : AggregateCall} {pointOptions : AggregateOptions}
    (summarizing : b.Summarizing pointCall pointOptions m)
    (operators : pointOptions.operators = o.operators) (state : σ) (log : List LogLine) :
    ∃ a after, perform (b.call call) ⟨slice, state, log⟩ = (.ok a, after) ∧
      ∀ row ∈ a.rows, ∃ path point,
        keys.map (fun key => Record.get? row key.refText) = path.map some ∧
        slice.cutByPoint dimension (Datum.lift (.list path)) hierarchy = .ok point ∧
        ∀ state log, ∃ whole after,
          perform (b.call pointCall) ⟨point, state, log⟩ = (.ok whole, after) ∧
            HasAggregates m.name o.operators row whole.summary := by
  obtain ⟨drills, -⟩ := Compiler.drill_ok.1 drilling.compiled
  have grouped := down.rowAttributes drills
  obtain ⟨summary, groups, kept, rowOf, found, perform_eq⟩ :=
    drilling.perform_call onTable reached grouped restricted state log
  obtain ⟨rows, extended, same⟩ := ComputedField.exists_extendAll always (kept.map rowOf)
  obtain ⟨after, done⟩ := (perform_eq computed rows given extended).1 unlimited
  refine ⟨_, after, done, fun row member => ?_⟩
  obtain ⟨_, base, agrees⟩ := exists_of_mem_forall₂ same member
  obtain ⟨group, groupMember, rfl⟩ := List.mem_map.mp base
  have part : keys ⊆ (h.levels.take depth).flatMap (·.attributes) := Level.keys_subset down.keyed
  obtain ⟨fact, among, standing, whole⟩ :=
    found.exists_fact decided part (down.keys_ne_nil drills) groupMember
  have accepted := AggregateOptions.isAccepted_of_accept drilling.lawful drilling.accepted
  have functions : ∀ operator ∈ o.operators, ∃ function,
      Compiler.aggregate? operator = some function :=
    fun operator selected => accepted.exists_aggregate? selected
  have names := drilling.distinct
  rw [drilling.aliases_eq grouped] at names apart
  have free : ∀ name ∈ (b.compiler.aggregateProjections m o.operators).map (·.name) ++
      ((h.levels.take depth).flatMap (·.attributes)).map (·.refText),
      name ∉ computed.map (·.name) := by
    intro name selected extra
    obtain ⟨field, fieldMember, rfl⟩ := List.mem_map.mp extra
    exact apart field fieldMember selected
  refine ⟨pathOf b.compiler keys fact, _, ?_,
    cutByPoint_pathOf named chosen (decided.plain fact among) slice, fun state log => ?_⟩
  · rw [pathOf, List.map_map]
    refine List.map_congr_left fun key keyMember => ?_
    rw [agrees _ (free _ (List.mem_append_right _ (List.mem_map_of_mem (part keyMember)))),
      standing key (part keyMember)]
    rfl
  · obtain ⟨a, after, called, tells⟩ := down.perform_point settled onTable stored restricted among
      drilling.hashable summarizing (operators ▸ (List.nodup_append.mp names).1) slice.cube state log
    refine ⟨a, after, called, hasAggregates_of_tells functions ?_ (operators ▸ tells)⟩
    rw [← whole]
    refine (found.tells group).congr fun name aggregated => agrees _ (free _ ?_)
    rw [Compiler.map_name_aggregateProjections functions]
    exact List.mem_append_left _ aggregated

end Browser

/-! ### Points of the market -/

namespace Market

open Browser

/-- Cities without their countries, under no name. -/
def nameless : Hierarchy :=
  { (default : Hierarchy) with
    name := none, levels := [level "city"], dimension := some "place" }

/-- Places with a hierarchy that has no name and is not the chosen one. -/
def places : Dimension :=
  { place with hierarchies := [cities, nameless], defaultHierarchyName := some "cities" }

/-- What a dimension of places is made of. -/
def draft (hierarchies : List Hierarchy) (chosen : Option String) : Dimension.Draft :=
  { name := some "place", header := default, levels := [level "country", level "city"]
    hierarchies, defaultHierarchyName := chosen, keyField := none }

theorem ofDraft_place : Dimension.ofDraft (draft [cities] none) = .ok place := rfl

theorem ofDraft_places :
    Dimension.ofDraft (draft [cities, nameless] (some "cities")) = .ok places := rfl

/-- The sum and the least amount of all sales. -/
def total : AggregateCall := sum [("aggregations", .list [.text "sum", .text "min"])]

theorem isStored_salesTable : salesTable.IsStored := by
  intro fact member column
  simp only [salesTable, List.mem_cons, List.not_mem_nil, or_false] at member
  rcases member with rfl | rfl | rfl <;>
    simp only [salesTable, Row.cell, Record.get?_cons] <;>
    split_ifs
  all_goals first
    | exact Or.inl rfl
    | exact Cell.isStored_int (by decide) _
    | exact Cell.isStored_text (by decide) _
    | exact Cell.isStored_text (Or.inl rfl) _

theorem ne_asterisk_salesTable : ∀ fact ∈ salesTable.rows,
    fact.cell "place.country" ≠ .text "*" ∧ fact.cell "place.city" ≠ .text "*" := by
  intro fact member
  simp only [salesTable, List.mem_cons, List.not_mem_nil, or_false] at member
  rcases member with rfl | rfl | rfl <;> simp [Row.cell, Record.get?_cons]

/-- The first one of the sales alone. -/
def firstSale : Table := { salesTable with rows := salesTable.rows.take 1 }

/-- A browser of sales at places with a hierarchy that has no name. -/
def placesBrowser : Browser Unit :=
  ⟨{ sales with dimensions := [places] }, some (Database.evaluator [firstSale]), .unset⟩

theorem placesBrowser_overTable : placesBrowser.OverTable [firstSale] firstSale :=
  ⟨⟨_, rfl, Database.evaluates_evaluator _⟩, rfl⟩

theorem isStored_firstSale : firstSale.IsStored := fun fact member =>
  isStored_salesTable fact (List.mem_of_mem_take member)

theorem ne_asterisk_firstSale : ∀ fact ∈ firstSale.rows, fact.cell "place.city" ≠ .text "*" :=
  fun fact member => (ne_asterisk_salesTable fact (List.mem_of_mem_take member)).2

/-- The sum in every city, whatever the country. -/
def byCityAlone : AggregateCall :=
  sum [("row_dimension", .text "place"), ("row_levels", .list [.text "city"])]

end Market

namespace Browser

open Olap.Action Market

/-- The row of every city in Austria, one of which is unknown, and the sales there. -/
theorem row_eq_summary_of_point_byCity :
    ∃ a after, perform (salesBrowser.call byCity) ⟨inAustria, (), []⟩ = (.ok a, after) ∧
      ∀ row ∈ a.rows, ∃ path point,
        [Record.get? row "place.country", Record.get? row "place.city"] = path.map some ∧
        inAustria.cutByPoint (.text "place") (Datum.lift (.list path)) (.text "cities") =
          .ok point ∧
        ∀ state log, ∃ whole after,
          perform (salesBrowser.call total) ⟨point, state, log⟩ = (.ok whole, after) ∧
            HasAggregates (some "amount") ["sum", "min"] row whole.summary := by
  have drilling := (⟨rfl, fun _ same => (by cases same), rfl, rfl, rfl, by decide⟩ :
    salesBrowser.Drilling inAustria byCity _ (.ofName .measure (some "amount")) _)
  have always : ComputedField.AlwaysComputed [] := by
    intro field member
    cases member
  have summarizing := (⟨rfl, rfl, ⟨[], rfl⟩, rfl⟩ :
    salesBrowser.Summarizing total _ (.ofName .measure (some "amount")))
  refine row_eq_summary_of_point salesBrowser_overTable isStored_salesTable reaches_inAustria
    drilling rfl rfl always (fun _ member => nomatch member)
    (⟨rfl, ⟨_, ofDraft_place⟩, List.mem_singleton_self _, rfl, rfl, rfl⟩ :
      DrillsTo _ _ place cities 2 _)
    (fun none => nomatch none) rfl ⟨fun _ _ _ _ same => same, ?_⟩ rfl rfl summarizing rfl () []
  intro fact member key among
  have plain := ne_asterisk_salesTable fact (List.mem_of_mem_filter member)
  rcases List.mem_cons.mp among with rfl | later
  · exact plain.1
  · rw [List.mem_singleton.mp later]
    exact plain.2

/-- Along a hierarchy that has no name and is not the default, a slice is cut somewhere else: the only
sale makes a row for its city, but there is no sale in a country of that name. -/
theorem exists_row_ne_summary_of_nameless :
    ∃ o query facts keys, placesBrowser.OverTable [firstSale] firstSale ∧ firstSale.IsStored ∧
      placesBrowser.Drilling (Slice.full placesBrowser.cube) byCityAlone o
        (.ofName .measure (some "amount")) query ∧ o.page = none ∧ o.hasLimit = false ∧
      placesBrowser.DrillsTo o places nameless 1 keys ∧
      placesBrowser.factsIn firstSale [] = .ok facts ∧
      KeysDecide placesBrowser.compiler keys (level "city").attributes facts ∧
      ∃ a after row path point whole later,
        perform (placesBrowser.call byCityAlone) ⟨Slice.full placesBrowser.cube, (), []⟩ =
          (.ok a, after) ∧
        row ∈ a.rows ∧ keys.map (fun key => Record.get? row key.refText) = path.map some ∧
        (Slice.full placesBrowser.cube).cutByPoint (.object (.dimension places))
          (Datum.lift (.list path)) (.object (.hierarchy nameless)) = .ok point ∧
        perform (placesBrowser.call (sum [])) ⟨point, (), []⟩ = (.ok whole, later) ∧
        ¬HasAggregates (some "amount") o.operators row whole.summary := by
  have onTable := placesBrowser_overTable
  have drilling := (⟨rfl, fun _ same => (by cases same), rfl, rfl, rfl, by decide⟩ :
    placesBrowser.Drilling (Slice.full placesBrowser.cube) byCityAlone _
      (.ofName .measure (some "amount")) _)
  have restricted : placesBrowser.factsIn firstSale [] = .ok firstSale.rows := rfl
  have decided : KeysDecide placesBrowser.compiler (level "city").attributes
      (level "city").attributes firstSale.rows :=
    ⟨fun _ _ _ _ same => same, fun fact member key among =>
      List.mem_singleton.mp among ▸ ne_asterisk_firstSale fact member⟩
  obtain ⟨summary, groups, kept, rowOf, found, perform_eq⟩ :=
    drilling.perform_call onTable (reaches_ofCuts []) rfl restricted () []
  obtain ⟨after, done⟩ := (perform_eq [] _ rfl (ComputedField.extendAll_nil _)).1 rfl
  have filled : kept ≠ [] := by
    rintro rfl
    have none := ((found.all rfl rfl).flatten.trans found.shares.whole).length_eq
    cases none
  obtain ⟨fact, among, standing, whole⟩ := found.exists_fact decided (List.Subset.refl _)
    (List.cons_ne_nil _ _) (List.head_mem filled)
  have inside : fact ∈ kept.head filled := by
    rw [whole]
    exact List.mem_filter.mpr ⟨among, Cell.sameKey_refl _⟩
  obtain rfl : fact = _ := List.mem_singleton.mp among
  -- The cut has no hierarchy to name, so that the city is looked for among the countries.
  have empty : placesBrowser.factsIn firstSale [.point "place" none [.text "Linz"]] = .ok [] := rfl
  have summarizing := (⟨rfl, rfl, ⟨[], rfl⟩, rfl⟩ :
    placesBrowser.Summarizing (sum []) _ (.ofName .measure (some "amount")))
  obtain ⟨a, later, called, tells⟩ := summarizing.perform_call onTable
    (onTable.storeAnswers.keepsTrue_of_reaches (reaches_ofCuts [.point "place" none [.text "Linz"]]))
    empty rfl (by decide) () []
  refine ⟨_, _, _, _, onTable, isStored_firstSale, drilling, rfl, rfl,
    ⟨rfl, ⟨_, ofDraft_places⟩, List.mem_cons_of_mem _ List.mem_cons_self, rfl, rfl, rfl⟩,
    restricted, decided, _, after, rowOf (kept.head filled), [.text "Linz"], _, a, later, done,
    List.mem_map_of_mem (List.head_mem filled), ?_, rfl, called, ?_⟩
  · exact congrArg (fun value => [value]) (standing _ (List.mem_singleton_self _))
  · rintro ⟨⟨count, ofRow, ofSummary⟩, -⟩
    rw [tells.records, Option.some.injEq] at ofSummary
    rw [(found.tells _).records, Option.some.injEq, ← ofSummary] at ofRow
    have none := List.length_eq_zero_iff.mp (Int.ofNat.inj (Datum.int.inj ofRow))
    rw [none] at inside
    cases inside

end Browser

end Olap
