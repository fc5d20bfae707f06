/-
What questions compile to. The query for a summary and the query for a drill-down are about the same
conditions and have the same aggregates; the second one also groups by the attributes that it
selects, and a limit is one more layer around it. The conditions are comparisons, and a layer is
only put around columns that are selected once, so every compiled query can be written as a
statement.
-/

import Olap.Proofs.Accepted

namespace Olap

/-- A name that may be absent is the name of whoever has it, or has none as well. -/
theorem isNamed_ofOption_eq (own other : Option String) :
    isNamed other (.ofOption own) = (other == own) := by
  cases own <;> cases other <;> rfl

/-- Whoever has the name that is wanted is found by it. -/
theorem isNamed_ofOption {own : Option String} {wanted : Description}
    (named : isNamed own wanted = true) (other : Option String) :
    isNamed other (.ofOption own) = isNamed other wanted := by
  cases own with
  | none =>
    cases wanted with
    | null => rfl
    | text | direction => simp [isNamed, Datum.text?] at named
    | _ => cases named
  | some name =>
    cases wanted with
    | text s | direction d =>
      simp only [isNamed, Datum.text?, beq_iff_eq, Option.some.injEq] at named
      subst named
      rfl
    | _ => cases named

theorem Cube.measure_of_name {c : Cube} {wanted : Description} {m : Attribute}
    (known : c.measure wanted = .ok m) : c.measure (.ofOption m.name) = .ok m := by
  unfold measure at known ⊢
  cases found : c.measures.find? (isNamed ·.name wanted.measureName) with
  | none =>
    simp only [found] at known
    obtain ⟨available, -, failed⟩ := Result.bind_ok.1 known
    cases failed
  | some other =>
    simp only [found, Except.ok.injEq] at known
    subst known
    have same : Description.measureName (.ofOption other.name) = .ofOption other.name := by
      cases other.name <;> rfl
    have named : isNamed other.name wanted.measureName = true :=
      List.find?_some (p := fun a : Attribute => isNamed a.name wanted.measureName) found
    simp only [same, isNamed_ofOption named, found]

namespace Compiler

variable {c : Compiler} {cuts : List Cut} {m : Attribute} {o : AggregateOptions} {query : Query}

/-! ### Queries -/

theorem summary_ok {measure : Description} :
    c.summary cuts measure o = .ok query ↔
      ∃ m conditions, c.cube.measure measure = .ok m ∧ c.predicates cuts = .ok conditions ∧
        query = .scan c.table (c.summaryLayer m o.operators conditions) := by
  unfold summary
  simp only [Result.bind_ok, pure, Except.pure, Except.ok.injEq]
  constructor
  · rintro ⟨m, known, conditions, compiled, rfl⟩
    exact ⟨m, conditions, known, compiled, rfl⟩
  · rintro ⟨m, conditions, known, compiled, rfl⟩
    exact ⟨m, known, conditions, compiled, rfl⟩

/-- What a drill-down compiles to: conditions, attributes to group by, and an order. -/
structure Drills (c : Compiler) (cuts : List Cut) (m : Attribute) (o : AggregateOptions)
    (conditions : List Predicate) (attributes : List Attribute) (order : List RowOrder) :
    Prop where
  compiled : c.predicates cuts = .ok conditions
  grouped : c.rowAttributes o = .ok attributes
  ordered : c.orderings o.toQueryOptions ((c.aggregateProjections m o.operators).map (·.name))
    (attributes.map c.column) = .ok order

/-- The query of a drill-down, ranked if there is a limit. -/
def drilled (c : Compiler) (m : Attribute) (o : AggregateOptions) (conditions : List Predicate)
    (attributes : List Attribute) (order : List RowOrder) : Query :=
  if o.hasLimit then
    rankLimit m o (.scan c.table (c.groupedLayer m o attributes conditions order))
  else .scan c.table (c.groupedLayer m o attributes conditions order)

theorem drill_ok {measure : Description} :
    c.drill cuts measure o = .ok (some query) ↔
      o.isDrillDown = true ∧ ∃ m conditions attributes order, c.cube.measure measure = .ok m ∧
        c.Drills cuts m o conditions attributes order ∧
        query = c.drilled m o conditions attributes order := by
  unfold drill grouped
  cases o.isDrillDown with
  | false => simp
  | true =>
    rw [if_neg (by simp)]
    simp only [Result.bind_ok, pure, Except.pure, Except.ok.injEq, Option.some.injEq, true_and]
    constructor
    · rintro ⟨m, known, rows, ⟨attributes, grouped, conditions, compiled, order, ordered, rfl⟩, rfl⟩
      exact ⟨m, conditions, attributes, order, known, ⟨compiled, grouped, ordered⟩, rfl⟩
    · rintro ⟨m, conditions, attributes, order, known, drills, rfl⟩
      exact ⟨m, known, _, ⟨attributes, drills.grouped, conditions, drills.compiled, order,
        drills.ordered, rfl⟩, rfl⟩

/-- Without levels there is nothing to drill down to. -/
theorem drill_none {measure : Description} (bare : o.isDrillDown = false) :
    c.drill cuts measure o = .ok none := by
  unfold drill
  rw [bare]
  rfl

/-! ### Selected columns -/

/-- The aggregate of the measure by an operator, as it is selected. -/
def aggregateProjection (c : Compiler) (m : Attribute) (operator : String)
    (function : Aggregator) : Projection :=
  ⟨.aggregate function (some (c.column m)), aggregatedName (shownName m.name) operator⟩

/-- The number of records, as it is selected. -/
def recordProjection : Projection := ⟨.aggregate .count none, recordCount⟩

theorem mem_aggregateProjections {operators : List String} {operator : String}
    {function : Aggregator} (member : operator ∈ operators)
    (known : aggregate? operator = some function) :
    c.aggregateProjection m operator function ∈ c.aggregateProjections m operators := by
  refine List.mem_append_left _ (List.mem_filterMap.mpr ⟨operator, member, ?_⟩)
  rw [known]
  rfl

theorem recordProjection_mem (operators : List String) :
    recordProjection ∈ c.aggregateProjections m operators :=
  List.mem_append_right _ (List.mem_singleton_self _)

theorem any_isAggregate (operators : List String) (more : List Projection) :
    (c.aggregateProjections m operators ++ more).any (·.expression.isAggregate) = true :=
  List.any_eq_true.mpr
    ⟨recordProjection, List.mem_append_left _ (recordProjection_mem operators), rfl⟩

/-- The aggregates of known operators are named by them. -/
theorem map_name_aggregateProjections {operators : List String}
    (known : ∀ operator ∈ operators, ∃ function, aggregate? operator = some function) :
    (c.aggregateProjections m operators).map (·.name) =
      operators.map (aggregatedName (shownName m.name)) ++ [recordCount] := by
  unfold aggregateProjections
  rw [List.map_append]
  congr 1
  induction operators with
  | nil => rfl
  | cons operator rest inductionHypothesis =>
    obtain ⟨function, found⟩ := known operator List.mem_cons_self
    rw [List.filterMap_cons, found, List.map_cons]
    exact congrArg _ (inductionHypothesis fun other member =>
      known other (List.mem_cons_of_mem _ member))

theorem map_name_groupedLayer {conditions : List Predicate} {attributes : List Attribute}
    {order : List RowOrder} :
    (c.groupedLayer m o attributes conditions order).projections.map (·.name) =
      (c.aggregateProjections m o.operators).map (·.name) ++ attributes.map (·.refText) := by
  rw [groupedLayer, List.map_append, List.map_map]
  rfl

/-- A limit selects nothing else. -/
theorem aliases_drilled (conditions : List Predicate) (attributes : List Attribute)
    (order : List RowOrder) :
    (c.drilled m o conditions attributes order).aliases =
      (c.aggregateProjections m o.operators).map (·.name) ++ attributes.map (·.refText) := by
  unfold drilled
  split
  · exact map_name_groupedLayer
  · exact map_name_groupedLayer

/-! ### Conditions -/

/-- Conditions that compare a column with values. -/
def IsComparison : Predicate → Prop
  | .equals .. | .between .. => True
  | .present _ | .other _ => False

theorem isComparison_of_pathConditions {levels : List Level} {path : List Value}
    {conditions : List Predicate} (compiled : c.pathConditions levels path = .ok conditions) :
    ∀ condition ∈ conditions, IsComparison condition := by
  induction levels generalizing path conditions with
  | nil =>
    cases compiled
    intro _ member
    cases member
  | cons level rest inductionHypothesis =>
    cases path with
    | nil =>
      cases compiled
      intro _ member
      cases member
    | cons value path =>
      unfold pathConditions at compiled
      split at compiled
      · exact inductionHypothesis compiled
      · obtain ⟨key, -, compiled⟩ := Result.bind_ok.1 compiled
        obtain ⟨others, below, compiled⟩ := Result.bind_ok.1 compiled
        cases compiled
        intro condition member
        rcases List.mem_cons.mp member with rfl | later
        · trivial
        · exact inductionHypothesis below condition later

theorem isComparison_of_cutPredicates {cut : Cut} {conditions : List Predicate}
    (compiled : c.cutPredicates cut = .ok conditions) :
    ∀ condition ∈ conditions, IsComparison condition := by
  cases cut with
  | point dimension hierarchy path =>
    obtain ⟨⟨_, h⟩, -, compiled⟩ := Result.bind_ok.1 compiled
    obtain ⟨levels, -, compiled⟩ := Result.bind_ok.1 compiled
    exact isComparison_of_pathConditions compiled
  | range dimension hierarchy low high =>
    obtain ⟨d, -, compiled⟩ := Result.bind_ok.1 compiled
    obtain ⟨column, -, compiled⟩ := Result.bind_ok.1 compiled
    cases compiled
    intro condition member
    rw [List.mem_singleton.mp member]
    trivial
  | set => cases compiled
  | bare => cases compiled

theorem isComparison_of_predicates {conditions : List Predicate}
    (compiled : c.predicates cuts = .ok conditions) :
    ∀ condition ∈ conditions, IsComparison condition := by
  induction cuts generalizing conditions with
  | nil =>
    cases compiled
    intro _ member
    cases member
  | cons cut rest inductionHypothesis =>
    obtain ⟨first, head, compiled⟩ := Result.bind_ok.1 compiled
    obtain ⟨others, below, compiled⟩ := Result.bind_ok.1 compiled
    cases compiled
    intro condition member
    rcases List.mem_append.mp member with early | late
    · exact isComparison_of_cutPredicates head condition early
    · exact inductionHypothesis below condition late

end Compiler

end Olap
