/-
Questions about slices. Five kinds of questions compile to queries, each in its own way, but the cuts of
the slice come into all of them alike: whatever else a question asks for is settled without them, and
their conditions come first among those on the facts. So a question compiles exactly when the cuts do,
once it compiles for the whole cube, and the queries only differ by the conditions of the cuts.
-/

import Olap.Proofs.FactLists
import Olap.Proofs.Sound

namespace Olap

/-- The conditions that facts have to meet to be used by a query. -/
def Query.conditions : Query → List Predicate
  | .scan _ layer => layer.predicates
  | .derived source _ => source.conditions

/-- A question about a slice. -/
inductive Question
  | summary (measure : Description) (o : AggregateOptions)
  | drill (measure : Description) (o : AggregateOptions)
  | facts (o : QueryOptions)
  | values (dimension : Description) (path : Value) (o : QueryOptions) (hierarchy : Description)
  | detail (dimension : Description) (path : Value) (hierarchy : Description)

/-- The query that answers a question about the slice of some cuts. A drill-down needs none when there
are no levels to drill down to. -/
def Compiler.compile (c : Compiler) (cuts : List Cut) : Question → Result (Option Query)
  | .summary measure o => (c.summary cuts measure o).map some
  | .drill measure o => c.drill cuts measure o
  | .facts o => (c.facts cuts o).map some
  | .values dimension path o hierarchy => (c.values dimension path cuts o hierarchy).map some
  | .detail dimension path hierarchy => (c.detail dimension path cuts hierarchy).map some

namespace Question

/-- The question about the top of a hierarchy in place of a path along it. -/
def atRoot : Question → Question
  | values dimension _ o hierarchy => values dimension (.list []) o hierarchy
  | detail dimension _ hierarchy => detail dimension (.list []) hierarchy
  | question => question

/-- The path that a question is about. -/
def path : Question → Result (List Value)
  | values _ path .. | detail _ path _ => normalizePath path
  | summary .. | drill .. | facts _ => .ok []

end Question

namespace Compiler

variable {c : Compiler} {cuts : List Cut}

/-! ### Conditions that are asked for -/

/-- The places of a path whose values are not left open. -/
def closedPlaces (path : List Value) : List Nat :=
  (List.range path.length).filter fun place =>
    match path[place]? with
    | some .wildcard => false
    | _ => true

/-- A path asks for one equality for every place that is not left open: the key of the level at this
place has the value at this place. -/
def PathAsks (c : Compiler) (levels : List Level) (path : List Value)
    (conditions : List Predicate) : Prop :=
  List.Forall₂ (fun place condition => ∃ level key value, levels[place]? = some level ∧
    level.keyAttribute = .ok key ∧ path[place]? = some value ∧
      condition = .equals (c.column key) value) (closedPlaces path) conditions

theorem closedPlaces_wildcard (path : List Value) :
    closedPlaces (.wildcard :: path) = (closedPlaces path).map Nat.succ := by
  unfold closedPlaces
  rw [List.length_cons, List.range_succ_eq_map, List.filter_cons, List.filter_map]
  rfl

theorem closedPlaces_of_ne_wildcard {value : Value} (closed : value ≠ .wildcard) (path : List Value) :
    closedPlaces (value :: path) = 0 :: (closedPlaces path).map Nat.succ := by
  unfold closedPlaces
  rw [List.length_cons, List.range_succ_eq_map, List.filter_cons, List.filter_map]
  cases value with
  | wildcard => exact absurd rfl closed
  | _ => rfl

/-- The conditions of a path are the ones that it asks for, as far as the path does not leave its
hierarchy. -/
theorem pathAsks_of_pathConditions {levels : List Level} {path : List Value}
    {conditions : List Predicate} (fits : path.length ≤ levels.length)
    (compiled : c.pathConditions levels path = .ok conditions) : c.PathAsks levels path conditions := by
  induction levels generalizing path conditions with
  | nil =>
    obtain rfl := List.eq_nil_of_length_eq_zero (Nat.le_zero.mp fits)
    cases compiled
    exact .nil
  | cons level rest inductionHypothesis =>
    cases path with
    | nil =>
      cases compiled
      exact .nil
    | cons value path =>
      have shorter : path.length ≤ rest.length := Nat.le_of_succ_le_succ fits
      have deeper {others : List Predicate} (below : c.pathConditions rest path = .ok others) :
          List.Forall₂ (fun place condition => ∃ found key own,
            (level :: rest)[place]? = some found ∧ found.keyAttribute = .ok key ∧
              (value :: path)[place]? = some own ∧ condition = .equals (c.column key) own)
            ((closedPlaces path).map Nat.succ) others :=
        List.forall₂_map_left_iff.mpr (inductionHypothesis shorter below)
      unfold pathConditions at compiled
      unfold PathAsks
      split at compiled
      · rw [closedPlaces_wildcard]
        exact deeper compiled
      · rename_i closed
        rw [closedPlaces_of_ne_wildcard closed]
        obtain ⟨key, keyed, compiled⟩ := Result.bind_ok.1 compiled
        obtain ⟨others, below, compiled⟩ := Result.bind_ok.1 compiled
        cases compiled
        exact .cons ⟨level, key, value, rfl, keyed, rfl, rfl⟩ (deeper below)

/-! ### Questions without cuts -/

/-- A question goes no deeper than its hierarchy, and a list of members has a level left to list. -/
def Fits (c : Compiler) (path : List Value) : Question → Prop
  | .values dimension _ _ hierarchy => ∀ d h, c.cube.dimensionOf dimension = .ok d →
      d.hierarchy hierarchy = .ok h → path.length < h.levels.length
  | .detail dimension _ hierarchy => ∀ d h, c.cube.dimensionOf dimension = .ok d →
      d.hierarchy hierarchy = .ok h → path.length ≤ h.levels.length
  | .summary .. | .drill .. | .facts _ => True

/-- The conditions that a question asks for besides those of the cuts: the ones of its path, and for a
list of members that there is a key at the level that is listed. -/
def QuestionAsks (c : Compiler) (path : List Value) (conditions : List Predicate) : Question → Prop
  | .values dimension _ _ hierarchy => ∃ d h level key along,
      c.cube.dimensionOf dimension = .ok d ∧ d.hierarchy hierarchy = .ok h ∧
      h.levels[path.length]? = some level ∧ level.keyAttribute = .ok key ∧
      c.PathAsks h.levels path along ∧ conditions = along ++ [.present (c.column key)]
  | .detail dimension _ hierarchy => ∃ d h, c.cube.dimensionOf dimension = .ok d ∧
      d.hierarchy hierarchy = .ok h ∧ c.PathAsks h.levels path conditions
  | .summary .. | .drill .. | .facts _ => conditions = []

/-- Whether there is an order does not depend on the usual one. -/
theorem exists_orderings {o : QueryOptions} {generated usual : List String}
    {order : List RowOrder} (ordered : c.orderings o generated usual = .ok order)
    (other : List String) : ∃ order, c.orderings o generated other = .ok order := by
  unfold orderings at ordered ⊢
  split at ordered
  · exact ⟨order, ordered⟩
  · exact ⟨_, rfl⟩

/-- The layer that reads what is known about a member off one of its facts. -/
def detailLayer (c : Compiler) (h : Hierarchy) (conditions : List Predicate) : Layer :=
  { Layer.whole with
    projections := h.attributes.map c.projection
    predicates := conditions, limit := some 1, label := "dimension_detail" }

/-- The query for the member at a path. -/
theorem detail_eq {dimension hierarchy : Description} {path : Value} {items : List Value}
    {d : Dimension} {h : Hierarchy} {along : List Predicate}
    (held : c.cube.dimensionOf dimension = .ok d) (found : d.hierarchy hierarchy = .ok h)
    (given : normalizePath path = .ok items) (fits : items.length ≤ h.levels.length)
    (compiled : c.pathConditions h.levels items = .ok along) (cuts : List Cut) :
    c.detail dimension path cuts hierarchy = (c.predicates cuts).map fun conditions =>
      .scan c.table (c.detailLayer h (conditions ++ along)) := by
  have pathCompiled := pathPredicates_ok.2 ⟨fits, compiled⟩
  unfold detail
  simp only [held, found, given, pathCompiled, bind, Except.bind]
  cases c.predicates cuts <;> rfl

theorem exists_of_detail {dimension hierarchy : Description} {path : Value} {q : Query}
    (made : c.detail dimension path cuts hierarchy = .ok q) :
    ∃ d h items conditions along, c.cube.dimensionOf dimension = .ok d ∧
      d.hierarchy hierarchy = .ok h ∧ c.predicates cuts = .ok conditions ∧
      c.pathConditions h.levels items = .ok along ∧
      q = .scan c.table (c.detailLayer h (conditions ++ along)) := by
  obtain ⟨d, held, made⟩ := Result.bind_ok.1 made
  obtain ⟨h, found, made⟩ := Result.bind_ok.1 made
  obtain ⟨items, -, made⟩ := Result.bind_ok.1 made
  obtain ⟨conditions, compiled, made⟩ := Result.bind_ok.1 made
  obtain ⟨along, pathCompiled, made⟩ := Result.bind_ok.1 made
  cases made
  exact ⟨d, h, items, conditions, along, held, found, compiled,
    (pathPredicates_ok.1 pathCompiled).2, rfl⟩

/-! ### What questions compile to -/

/-- A question compiles for a slice when its cuts do. The conditions of the cuts are followed by what the
question itself asks for. -/
theorem exists_compile_eq (sound : c.cube.IsSound) {question : Question} {root : Query}
    {path : List Value} (compiles : c.compile [] question.atRoot = .ok (some root))
    (given : question.path = .ok path) (fits : c.Fits path question) :
    ∃ (make : List Predicate → Query) (own : List Predicate), c.QuestionAsks path own question ∧
      (∀ conditions, (make conditions).conditions = conditions ++ own) ∧
      ∀ cuts, c.compile cuts question = (c.predicates cuts).map fun conditions =>
        some (make conditions) := by
  cases question with
  | summary measure o =>
    obtain ⟨q, made, -⟩ := Result.map_ok.1 compiles
    obtain ⟨m, -, known, -⟩ := summary_ok.1 made
    refine ⟨fun conditions => .scan c.table (c.summaryLayer m o.operators conditions), [], rfl,
      fun conditions => (List.append_nil conditions).symm, fun cuts => ?_⟩
    unfold compile summary
    simp only [known, bind, Except.bind]
    cases c.predicates cuts <;> rfl
  | drill measure o =>
    obtain ⟨drilling, m, conditions, attributes, order, known, drills, -⟩ := drill_ok.1 compiles
    refine ⟨fun conditions => c.drilled m o conditions attributes order, [], rfl,
      fun conditions => ?_, fun cuts => ?_⟩
    · rw [List.append_nil]
      unfold drilled
      split <;> rfl
    · unfold compile drill grouped
      simp only [drilling, known, drills.grouped, drills.ordered, bind, Except.bind]
      cases c.predicates cuts <;> rfl
  | facts o =>
    obtain ⟨q, made, -⟩ := Result.map_ok.1 compiles
    obtain ⟨_, order, -, ordered, -⟩ := exists_of_facts made
    refine ⟨fun conditions => .scan c.table (c.factLayer conditions order o), [], rfl,
      fun conditions => (List.append_nil conditions).symm, fun cuts => ?_⟩
    unfold compile facts
    simp only [ordered, bind, Except.bind]
    cases c.predicates cuts <;> rfl
  | values dimension value o hierarchy =>
    obtain ⟨q, made, -⟩ := Result.map_ok.1 compiles
    obtain ⟨d, h, _, _, _, _, _, held, found, -, -, orderedAtRoot, -⟩ := exists_of_values made
    have provides := sound.provides_of_dimensionOf held found
    have below := List.getElem?_eq_getElem (fits d h held found)
    obtain ⟨key, keyed⟩ := provides.keyed _ (List.getElem_mem (fits d h held found))
    obtain ⟨along, compiled⟩ := exists_pathConditions provides.keyed path
    obtain ⟨order, ordered⟩ := exists_orderings orderedAtRoot [c.column key]
    refine ⟨fun conditions => .scan c.table (c.memberLayer (listedAttributes h path)
        (conditions ++ along) (c.column key) order o), along ++ [.present (c.column key)],
      ⟨d, h, _, key, along, held, found, below, keyed,
        pathAsks_of_pathConditions (fits d h held found).le compiled, rfl⟩,
      fun conditions => List.append_assoc _ _ _, fun cuts => ?_⟩
    rw [compile, values_eq held found given below keyed compiled ordered]
    cases c.predicates cuts <;> rfl
  | detail dimension value hierarchy =>
    obtain ⟨q, made, -⟩ := Result.map_ok.1 compiles
    obtain ⟨d, h, _, _, _, held, found, -⟩ := exists_of_detail made
    have provides := sound.provides_of_dimensionOf held found
    obtain ⟨along, compiled⟩ := exists_pathConditions provides.keyed path
    refine ⟨fun conditions => .scan c.table (c.detailLayer h (conditions ++ along)), along,
      ⟨d, h, held, found, pathAsks_of_pathConditions (fits d h held found) compiled⟩,
      fun conditions => rfl, fun cuts => ?_⟩
    rw [compile, detail_eq held found given (fits d h held found) compiled]
    cases c.predicates cuts <;> rfl

end Compiler

end Olap
