/-
Orders of grouped queries. A row of a drill-down, or of a list of members, stands for a group of facts,
and it is ordered by one value only if all facts of the group agree on it or it is an aggregate of them.
The usual order and the orders by aggregated fields are of this kind. An order by the reference of an
attribute goes by the column of the attribute, whatever the rows are grouped by: any attribute, measure
or detail of the cube may be asked for. So such an order is of this kind exactly when its column is one
of those that are grouped by, or the name of an aggregate. A name that is neither a field the query
makes nor the reference of an attribute is refused.
-/

import Olap.Proofs.Arrangements
import Olap.Proofs.Names

namespace Olap

/-- The layer that is about the facts themselves. -/
def Query.innermost : Query → Layer
  | .scan _ layer => layer
  | .derived source _ => source.innermost

namespace Expression

/-- An aggregate is the same whichever row stands for the group. -/
theorem ofGroup_of_isAggregate {expression : Expression} (aggregate : expression.isAggregate = true)
    (group : List Row) (standing other : Option Row) :
    expression.ofGroup group standing = expression.ofGroup group other := by
  cases expression with
  | column => cases aggregate
  | aggregate function column => cases column <;> rfl

end Expression

namespace Layer

variable {layer : Layer} {rows group : List Row}

/-! ### Orders of groups -/

/-- The names of the aggregates that are selected. -/
def aggregateNames (layer : Layer) : List String :=
  (layer.projections.filter (·.expression.isAggregate)).map (·.name)

/-- Every column of the order is grouped by, or is the name of an aggregate. -/
def OrdersGroups (layer : Layer) : Prop :=
  ∀ order ∈ layer.orderBy, order.column ∈ layer.groupBy ∨ order.column ∈ layer.aggregateNames

/-- Nothing is selected but aggregates and columns that are grouped by. -/
def SelectsGroups (layer : Layer) : Prop :=
  ∀ p ∈ layer.projections,
    p.expression.isAggregate = true ∨ ∃ column ∈ layer.groupBy, p.expression = .column column

/-- A name in the order denotes the same value whichever row stands for the group. -/
def HasOneValue (layer : Layer) (group : List Row) (name : String) : Prop :=
  ∀ row ∈ group, ∀ other ∈ group,
    Cell.same ((Projection.denoted layer.projections name).ofGroup group (some row))
      ((Projection.denoted layer.projections name).ofGroup group (some other)) = true

theorem mem_aggregateNames {name : String} :
    name ∈ layer.aggregateNames ↔
      ∃ p ∈ layer.projections, p.expression.isAggregate = true ∧ p.name = name := by
  simp only [aggregateNames, List.mem_map, List.mem_filter, and_assoc]

/-- The rows of a group agree on the columns that are grouped by. -/
theorem same_of_mem_groups (known : group ∈ layer.groups rows) {column : String}
    (grouped : column ∈ layer.groupBy) {row other : Row} (member : row ∈ group)
    (otherMember : other ∈ group) : Cell.same (row.cell column) (other.cell column) = true := by
  rw [groups_eq_groupRows (List.ne_nil_of_mem grouped)] at known
  have alike := (shares_groupRows _ _ _).alike group known row member
  rw [alike] at otherMember
  have keys := Cell.sameKey_iff.mp (List.mem_filter.mp otherMember).2
  simp only [Row.key, List.map_map, List.map_inj_left] at keys
  exact beq_iff_eq.mpr (keys column grouped)

/-- What an order of groups goes by is an aggregate or a column that is grouped by. -/
theorem OrdersGroups.denoted (orders : layer.OrdersGroups) (selects : layer.SelectsGroups)
    {order : RowOrder} (member : order ∈ layer.orderBy) :
    (Projection.denoted layer.projections order.column).isAggregate = true ∨
      ∃ column ∈ layer.groupBy,
        Projection.denoted layer.projections order.column = .column column := by
  unfold Projection.denoted
  cases looked : layer.projections.find? (·.name == order.column) with
  | some p => exact selects p (List.mem_of_find?_eq_some looked)
  | none =>
    rcases orders order member with grouped | aggregate
    · exact Or.inr ⟨order.column, grouped, rfl⟩
    · obtain ⟨p, selected, -, named⟩ := mem_aggregateNames.mp aggregate
      exact absurd (beq_iff_eq.mpr named) (List.find?_eq_none.mp looked p selected)

theorem OrdersGroups.hasOneValue (orders : layer.OrdersGroups) (selects : layer.SelectsGroups)
    (known : group ∈ layer.groups rows) {order : RowOrder} (member : order ∈ layer.orderBy) :
    layer.HasOneValue group order.column := by
  intro row inside other otherInside
  rcases orders.denoted selects member with aggregate | ⟨column, grouped, same⟩
  · rw [Expression.ofGroup_of_isAggregate aggregate group (some row) (some other)]
    exact Cell.same_refl _
  · rw [same]
    exact same_of_mem_groups known grouped inside otherInside

end Layer

/-! ### Questions about groups -/

namespace Question

/-- The options of a question that is answered by a row for each group. -/
def groupOptions? : Question → Option QueryOptions
  | drill _ o => some o.toQueryOptions
  | values _ _ o _ => some o
  | summary .. | facts _ | detail .. => none

/-- The question with another field to order by. -/
def orderedBy (name : String) : Question → Question
  | drill measure o => drill measure { o with orderBy := some name }
  | values dimension path o hierarchy =>
    values dimension path { o with orderBy := some name } hierarchy
  | facts o => facts { o with orderBy := some name }
  | question => question

end Question

/-- An attribute is found by a reference, or there is none. -/
theorem Cube.kind_of_attributeWithRef {c : Cube} {ref : String} {fault : Fault}
    (failed : c.attributeWithRef ref = .error fault) :
    ∃ p : Problem, fault = .problem p ∧ p.kind = .noSuchAttribute := by
  unfold attributeWithRef at failed
  split at failed
  · cases failed
  · split at failed
    · cases failed
      exact ⟨_, rfl, rfl⟩
    · split at failed
      · unfold Dimension.attributeNamed Dimension.attributeBy at failed
        split at failed
        · cases failed
        · cases failed
          exact ⟨_, rfl, rfl⟩
      · cases failed
        exact ⟨_, rfl, rfl⟩

namespace Compiler

variable {c : Compiler} {cuts : List Cut} {o : QueryOptions} {layer : Layer}

theorem orderColumn_of_unknown {name : String} {generated : List String} (other : name ∉ generated)
    (unknown : ∀ a, c.cube.attributeWithRef name ≠ .ok a) :
    c.orderColumn name generated = fail (.unknownOrder name c.cube.name) := by
  unfold orderColumn
  rw [if_neg (by simpa using other)]
  cases looked : c.cube.attributeWithRef name with
  | ok a => exact absurd looked (unknown a)
  | error fault =>
    obtain ⟨p, rfl, missing⟩ := Cube.kind_of_attributeWithRef looked
    exact if_pos missing

/-- An order by a field that the query makes goes by this field, and one by the reference of an
attribute by the column of the attribute. -/
theorem orderings_ok {name : String} (asked : o.orderBy = some name) (filled : name ≠ "")
    {generated usual : List String} {order : List RowOrder} :
    c.orderings o generated usual = .ok order ↔
      name ∈ generated ∧ order = [⟨name, o.direction⟩] ∨
        name ∉ generated ∧ ∃ a, c.cube.attributeWithRef name = .ok a ∧
          order = [⟨c.column a, o.direction⟩] := by
  rw [orderings_of_named asked filled]
  by_cases member : name ∈ generated
  · rw [orderColumn_of_generated member]
    simp [Except.map, member, eq_comm]
  · cases looked : c.cube.attributeWithRef name with
    | ok a =>
      rw [orderColumn_of_found member looked]
      simp [Except.map, member, eq_comm]
    | error fault =>
      rw [orderColumn_of_unknown member fun a => by simp [looked]]
      simp [Except.map, fail, member]

/-- What is asked to be ordered by is an aggregated field, or an attribute with a column that is
grouped by or has the name of one. Without a field to order by nothing is asked. -/
def KeepsToGroups (c : Compiler) (o : QueryOptions) (layer : Layer) : Prop :=
  ∀ name, o.orderBy = some name → name ≠ "" → name ∈ layer.aggregateNames ∨
    ∃ a, c.cube.attributeWithRef name = .ok a ∧
      (c.column a ∈ layer.groupBy ∨ c.column a ∈ layer.aggregateNames)

/-- A layer that is ordered as asked for is ordered by what its groups have one value of, if and
only if this is asked for. -/
theorem ordersGroups_iff {usual : List String} (within : usual ⊆ layer.groupBy)
    (ordered : c.orderings o layer.aggregateNames usual = .ok layer.orderBy) :
    layer.OrdersGroups ↔ c.KeepsToGroups o layer := by
  cases asked : o.orderBy.filter (!·.isEmpty) with
  | none =>
    have order : layer.orderBy = usual.map (⟨·, o.direction⟩) := by
      unfold orderings at ordered
      rw [asked] at ordered
      exact (Except.ok.inj ordered).symm
    refine iff_of_true (fun each member => ?_) fun name given filled => ?_
    · rw [order] at member
      obtain ⟨column, inside, rfl⟩ := List.mem_map.mp member
      exact Or.inl (within inside)
    · rw [given, Option.filter_some, if_pos (by simpa using filled)] at asked
      cases asked
  | some name =>
    obtain ⟨given, filled⟩ := Option.filter_eq_some_iff.mp asked
    have filled : name ≠ "" := by simpa using filled
    have asks : c.KeepsToGroups o layer ↔ name ∈ layer.aggregateNames ∨
        ∃ a, c.cube.attributeWithRef name = .ok a ∧
          (c.column a ∈ layer.groupBy ∨ c.column a ∈ layer.aggregateNames) := by
      constructor
      · exact fun keeps => keeps name given filled
      · intro keeps other givenToo _
        cases given.symm.trans givenToo
        exact keeps
    rw [asks, Layer.OrdersGroups]
    rcases (orderings_ok given filled).mp ordered with
      ⟨generated, order⟩ | ⟨other, a, looked, order⟩
    · rw [order, List.forall_mem_singleton]
      exact iff_of_true (Or.inr generated) (Or.inl generated)
    · rw [order, List.forall_mem_singleton]
      simp [other, looked]

/-! ### What questions about groups compile to -/

/-- A layer that selects groups, in the order that is asked for or else a usual one by what is
grouped. -/
structure Groups (c : Compiler) (o : QueryOptions) (layer : Layer) : Prop where
  selects : layer.SelectsGroups
  ordered : ∃ usual ⊆ layer.groupBy, c.orderings o layer.aggregateNames usual = .ok layer.orderBy

theorem isAggregate_of_mem {m : Attribute} {operators : List String} {p : Projection}
    (member : p ∈ c.aggregateProjections m operators) : p.expression.isAggregate = true := by
  rcases List.mem_append.mp member with some | last
  · obtain ⟨operator, -, made⟩ := List.mem_filterMap.mp some
    obtain ⟨function, -, rfl⟩ := Option.map_eq_some_iff.mp made
    rfl
  · rw [List.mem_singleton.mp last]
    rfl

theorem aggregateNames_groupedLayer (m : Attribute) (o : AggregateOptions)
    (attributes : List Attribute) (conditions : List Predicate) (order : List RowOrder) :
    (c.groupedLayer m o attributes conditions order).aggregateNames =
      (c.aggregateProjections m o.operators).map (·.name) := by
  have columns : (attributes.map c.projection).filter (·.expression.isAggregate) = [] := by
    refine List.filter_eq_nil_iff.mpr fun p member => ?_
    obtain ⟨a, -, rfl⟩ := List.mem_map.mp member
    exact Bool.false_ne_true
  unfold Layer.aggregateNames groupedLayer
  rw [List.filter_append, columns, List.append_nil,
    List.filter_eq_self.mpr fun p => isAggregate_of_mem]

theorem Drills.groups {m : Attribute} {o : AggregateOptions} {conditions : List Predicate}
    {attributes : List Attribute} {order : List RowOrder}
    (drills : c.Drills cuts m o conditions attributes order) :
    c.Groups o.toQueryOptions (c.groupedLayer m o attributes conditions order) where
  selects p member := by
    rcases List.mem_append.mp member with aggregate | column
    · exact Or.inl (isAggregate_of_mem aggregate)
    · obtain ⟨a, known, rfl⟩ := List.mem_map.mp column
      exact Or.inr ⟨c.column a, List.mem_map_of_mem known, rfl⟩
  ordered := ⟨attributes.map c.column, List.Subset.refl _, by
    rw [aggregateNames_groupedLayer]
    exact drills.ordered⟩

theorem innermost_drilled (m : Attribute) (o : AggregateOptions) (conditions : List Predicate)
    (attributes : List Attribute) (order : List RowOrder) :
    (c.drilled m o conditions attributes order).innermost =
      c.groupedLayer m o attributes conditions order := by
  unfold drilled
  split <;> rfl

theorem aggregateNames_memberLayer (attributes : List Attribute) (conditions : List Predicate)
    (column : String) (order : List RowOrder) (o : QueryOptions) :
    (c.memberLayer attributes conditions column order o).aggregateNames = [] := by
  refine List.map_eq_nil_iff.mpr (List.filter_eq_nil_iff.mpr fun p member => ?_)
  obtain ⟨a, -, rfl⟩ := List.mem_map.mp member
  exact Bool.false_ne_true

theorem groups_memberLayer {attributes : List Attribute} {conditions : List Predicate}
    {key : Attribute} {order : List RowOrder} (listed : key ∈ attributes)
    (ordered : c.orderings o [] [c.column key] = .ok order) :
    c.Groups o (c.memberLayer attributes conditions (c.column key) order o) where
  selects p member := by
    obtain ⟨a, known, rfl⟩ := List.mem_map.mp member
    exact Or.inr ⟨c.column a, List.mem_map_of_mem known, rfl⟩
  ordered := by
    refine ⟨[c.column key], ?_, ?_⟩
    · exact List.cons_subset.mpr ⟨List.mem_map_of_mem listed, List.nil_subset _⟩
    · rw [aggregateNames_memberLayer]
      exact ordered

theorem groups_of_compile {question : Question} {q : Query}
    (asked : question.groupOptions? = some o) (made : c.compile cuts question = .ok (some q)) :
    c.Groups o q.innermost := by
  cases question with
  | drill measure given =>
    cases asked
    obtain ⟨-, m, conditions, attributes, order, -, drills, rfl⟩ := drill_ok.1 made
    rw [innermost_drilled]
    exact drills.groups
  | values dimension path given hierarchy =>
    cases asked
    obtain ⟨_, made, ⟨⟩⟩ := Result.map_ok.1 made
    obtain ⟨d, h, items, conditions, along, key, order, -, -, -, -, ordered,
      ⟨level, below, keyed⟩, rfl⟩ := exists_of_values made
    refine groups_memberLayer (List.mem_flatMap.mpr ⟨level, mem_listedLevels below, ?_⟩) ordered
    exact Level.keyAttribute_mem keyed
  | _ => cases asked

/-- The rows of a limit are ranked by an aggregate. -/
theorem ranked_by_aggregate {question : Question} (accepted : question.IsAccepted) {source : Query}
    {ranking : Layer} (made : c.compile cuts question = .ok (some (.derived source ranking))) :
    ∀ order ∈ ranking.orderBy, order.column ∈ source.innermost.aggregateNames := by
  cases question with
  | drill measure o =>
    obtain ⟨-, m, conditions, attributes, order, -, drills, same⟩ := drill_ok.1 made
    unfold drilled at same
    split at same
    · rename_i limited
      cases same
      refine List.forall_mem_singleton.mpr ?_
      show _ ∈ (c.groupedLayer m o attributes conditions order).aggregateNames
      rw [aggregateNames_groupedLayer]
      obtain ⟨function, known⟩ := accepted.exists_aggregate? (accepted.rankedBy_mem limited)
      exact List.mem_map_of_mem (f := (·.name))
        (mem_aggregateProjections (accepted.rankedBy_mem limited) known)
    · cases same
  | summary measure o =>
    obtain ⟨_, made, ⟨⟩⟩ := Result.map_ok.1 made
    obtain ⟨m, conditions, -, -, same⟩ := summary_ok.1 made
    cases same
  | facts o =>
    obtain ⟨_, made, ⟨⟩⟩ := Result.map_ok.1 made
    obtain ⟨conditions, order, -, -, same⟩ := exists_of_facts made
    cases same
  | values dimension path o hierarchy =>
    obtain ⟨_, made, ⟨⟩⟩ := Result.map_ok.1 made
    obtain ⟨d, h, items, conditions, along, key, order, -, -, -, -, -, -, same⟩ :=
      exists_of_values made
    cases same
  | detail dimension path hierarchy =>
    obtain ⟨_, made, ⟨⟩⟩ := Result.map_ok.1 made
    obtain ⟨d, h, items, conditions, along, -, -, -, -, same⟩ := exists_of_detail made
    cases same

/-! ### Orders that are refused -/

/-- A drill-down fails with its order. -/
theorem drill_of_failed {measure : Description} {o : AggregateOptions} {m : Attribute}
    {conditions : List Predicate} {attributes : List Attribute} {fault : Fault}
    (drillsDown : o.isDrillDown = true) (measured : c.cube.measure measure = .ok m)
    (rowed : c.rowAttributes o = .ok attributes) (compiled : c.predicates cuts = .ok conditions)
    (failed : c.orderings o.toQueryOptions ((c.aggregateProjections m o.operators).map (·.name))
      (attributes.map c.column) = .error fault) :
    c.drill cuts measure o = .error fault := by
  unfold drill grouped
  rw [drillsDown, measured, rowed, compiled]
  dsimp only [bind, Except.bind]
  rw [failed]
  rfl

/-- A drill-down that compiles does not compile any more with an order that is refused. -/
theorem drill_of_refused {measure : Description} {o : AggregateOptions} {q : Query}
    (made : c.drill cuts measure o = .ok (some q)) {name : String} (filled : name ≠ "")
    {fault : Fault} (refused : c.orderColumn name q.innermost.aggregateNames = .error fault) :
    c.drill cuts measure { o with orderBy := some name } = .error fault := by
  obtain ⟨drillsDown, m, conditions, attributes, order, measured, drills, rfl⟩ := drill_ok.1 made
  rw [innermost_drilled, aggregateNames_groupedLayer] at refused
  refine drill_of_failed drillsDown measured drills.grouped drills.compiled ?_
  rw [orderings_of_named rfl filled]
  exact congrArg _ refused

/-- A list of members that compiles does not compile any more with an order that is refused. -/
theorem values_of_refused {dimension hierarchy : Description} {path : Value} {q : Query}
    (made : c.values dimension path cuts o hierarchy = .ok q) {name : String} (filled : name ≠ "")
    {fault : Fault} (refused : c.orderColumn name [] = .error fault) :
    c.values dimension path cuts { o with orderBy := some name } hierarchy = .error fault := by
  obtain ⟨d, held, made⟩ := Result.bind_ok.1 made
  obtain ⟨h, found, made⟩ := Result.bind_ok.1 made
  obtain ⟨items, given, made⟩ := Result.bind_ok.1 made
  obtain ⟨level?, next, made⟩ := Result.bind_ok.1 made
  cases level? with
  | none => cases made
  | some level =>
    obtain ⟨conditions, compiled, made⟩ := Result.bind_ok.1 made
    obtain ⟨along, pathCompiled, made⟩ := Result.bind_ok.1 made
    obtain ⟨key, keyed, made⟩ := Result.bind_ok.1 made
    have failed : c.orderings { o with orderBy := some name } [] [c.column key] = .error fault := by
      rw [orderings_of_named rfl filled, refused]
      rfl
    unfold values
    simp only [held, found, given, next, compiled, pathCompiled, keyed, failed, bind, Except.bind]

/-- A question about groups that compiles does not compile any more with an order that is refused. -/
theorem compile_of_refused {question : Question} {q : Query}
    (asked : question.groupOptions? = some o) (made : c.compile cuts question = .ok (some q))
    {name : String} (filled : name ≠ "") {fault : Fault}
    (refused : c.orderColumn name q.innermost.aggregateNames = .error fault) :
    c.compile cuts (question.orderedBy name) = .error fault := by
  cases question with
  | drill measure given => exact drill_of_refused made filled refused
  | values dimension path given hierarchy =>
    obtain ⟨_, made, ⟨⟩⟩ := Result.map_ok.1 made
    have none : q.innermost.aggregateNames = [] := by
      obtain ⟨d, h, items, conditions, along, key, order, -, -, -, -, -, -, rfl⟩ :=
        exists_of_values made
      exact aggregateNames_memberLayer _ _ _ _ _
    rw [none] at refused
    show (c.values dimension path cuts { given with orderBy := some name } hierarchy).map some = _
    rw [values_of_refused made filled refused]
    rfl
  | _ => cases asked

/-- A question about groups is ordered by columns that are grouped by and names of aggregates if and
only if what is asked to be ordered by is one of them, and then every row has one value for each of
the columns, whichever fact stands for its group. Otherwise the rows are ordered by the column of an
attribute, as asked. A name that is neither an aggregated field nor the reference of an attribute is
refused. -/
theorem grouped_order_iff {question : Question} {q : Query}
    (asked : question.groupOptions? = some o) (accepted : question.IsAccepted)
    (made : c.compile cuts question = .ok (some q)) :
    (q.innermost.OrdersGroups ↔ c.KeepsToGroups o q.innermost) ∧
      (∀ source ranking, q = .derived source ranking →
        ∀ order ∈ ranking.orderBy, order.column ∈ source.innermost.aggregateNames) ∧
      (c.KeepsToGroups o q.innermost → ∀ rows, ∀ group ∈ q.innermost.groups rows,
        ∀ order ∈ q.innermost.orderBy, q.innermost.HasOneValue group order.column) ∧
      (¬c.KeepsToGroups o q.innermost → ∃ name a, o.orderBy = some name ∧
        c.cube.attributeWithRef name = .ok a ∧
        q.innermost.orderBy = [⟨c.column a, o.direction⟩]) ∧
      ∀ name, name ≠ "" → name ∉ q.innermost.aggregateNames →
        (∀ a, c.cube.attributeWithRef name ≠ .ok a) → ∃ p : Problem, p.kind = .query ∧
          c.compile cuts (question.orderedBy name) = fail p := by
  obtain ⟨selects, usual, within, ordered⟩ := groups_of_compile asked made
  have kept := ordersGroups_iff within ordered
  refine ⟨kept, ?_, ?_, ?_, ?_⟩
  · rintro source ranking rfl
    exact ranked_by_aggregate accepted made
  · exact fun keeps rows group known order member =>
      (kept.mpr keeps).hasOneValue selects known member
  · intro strays
    simp only [KeepsToGroups, not_forall, not_or] at strays
    obtain ⟨name, given, filled, other, -⟩ := strays
    rcases (orderings_ok given filled).mp ordered with ⟨generated, -⟩ | ⟨-, a, looked, order⟩
    · exact absurd generated other
    · exact ⟨name, a, given, looked, order⟩
  · intro name filled other unknown
    exact ⟨_, rfl, compile_of_refused asked made filled (orderColumn_of_unknown other unknown)⟩

end Compiler

/-! ### Orders of countries -/

namespace Market

/-- The sums of the countries, ordered by a field. -/
def countriesBy (field : String) : AggregateOptions :=
  { AggregateOptions.unset with
    rowDimension := some "place", rowLevels := some ["country"], orderBy := some field
    given := ["order_by", "row_dimension", "row_levels"] }

theorem isAccepted_countriesBy (field : String) : (countriesBy field).IsAccepted :=
  ⟨[("row_dimension", .text "place"), ("row_levels", .text "country"), ("order_by", .text field)], rfl⟩

end Market

namespace Compiler

open Market

/-- Countries can be ordered by the country, and can not be ordered by what no attribute is called. -/
theorem grouped_order_byCountry :
    ∃ q, salesBrowser.compiler.compile [] (.drill (.text "amount") (countriesBy "place.country")) =
        .ok (some q) ∧
      q.innermost.OrdersGroups ∧
      (∀ group ∈ q.innermost.groups salesTable.rows, ∀ order ∈ q.innermost.orderBy,
        q.innermost.HasOneValue group order.column) ∧
      ∃ p : Problem, p.kind = .query ∧
        salesBrowser.compiler.compile [] (.drill (.text "amount") (countriesBy "place.street")) =
          fail p := by
  obtain ⟨q, made⟩ : ∃ q, salesBrowser.compiler.compile []
      (.drill (.text "amount") (countriesBy "place.country")) = .ok (some q) := ⟨_, rfl⟩
  have asked : (Question.drill (.text "amount") (countriesBy "place.country")).groupOptions? =
      some (countriesBy "place.country").toQueryOptions := rfl
  obtain ⟨kept, -, settles, -, refuses⟩ :=
    grouped_order_iff asked (isAccepted_countriesBy "place.country") made
  have keeps : salesBrowser.compiler.KeepsToGroups (countriesBy "place.country").toQueryOptions
      q.innermost := by
    rintro name ⟨⟩ -
    cases made
    exact Or.inr ⟨_, rfl, Or.inl (by decide)⟩
  refine ⟨q, made, kept.mpr keeps, settles keeps salesTable.rows,
    refuses "place.street" (by decide) ?_ fun a looked => ?_⟩
  · cases made
    decide
  · cases looked

/-- Countries can be ordered by the city, of which a country has many. -/
theorem exists_order_outside_groups :
    ∃ q, (countriesBy "place.city").IsAccepted ∧
      salesBrowser.compiler.compile [] (.drill (.text "amount") (countriesBy "place.city")) =
        .ok (some q) ∧
      ¬q.innermost.OrdersGroups ∧
      ∃ group ∈ q.innermost.groups salesTable.rows, ∃ order ∈ q.innermost.orderBy,
        ¬q.innermost.HasOneValue group order.column := by
  refine ⟨_, isAccepted_countriesBy _, rfl, fun orders => ?_, salesTable.rows, ?_,
    ⟨"place.city", .asc⟩, List.mem_singleton_self _, fun one => ?_⟩
  · exact absurd (orders ⟨"place.city", .asc⟩ (List.mem_singleton_self _)) (by decide)
  · rw [Layer.groups_eq_groupRows (List.cons_ne_nil _ _), groupRows,
      show distinctKeys (salesTable.rows.map (Row.key _)) = [[.text "AT"]] from rfl,
      List.mergeSort_singleton]
    exact List.mem_singleton_self _
  · exact absurd (one _ List.mem_cons_self _ (List.mem_cons_of_mem _ List.mem_cons_self)) (by decide)

end Compiler

end Olap
