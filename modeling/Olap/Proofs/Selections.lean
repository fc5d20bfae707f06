/-
What cuts select. Each cut of a list says for itself whether it can be compiled and which facts meet
it. The list compiles when every cut does, and it selects the facts that meet all of them. So neither
the order of the cuts nor a cut that is there twice makes a difference, and one more cut leaves out
facts but never lets in others. The facts that an aggregation tells of are the ones its cuts select.

A point is met by the facts that have its values in the columns of the keys of the levels of its
hierarchy, each value at the level of its place in the path. The wildcard asks for nothing, so that a
path may go on with wildcards as deep as its hierarchy does. A range is met by the facts with a key
between the bounds, which belong to the range.
-/

import Olap.Proofs.Aggregating

namespace Olap

/-! ### Values of facts -/

namespace Cell

/-- A cell has a value: nothing for nothing, and else what the value is in a column of the type. -/
def Has (type : Option ColumnType) (value cell : Value) : Prop :=
  match value with
  | .null => rank cell = .absent
  | value => rank cell ≠ .absent ∧ rank cell = rank (fitTo type value)

/-- A cell lies between two bounds. Nothing lies between bounds one of which is absent, and no absent
cell lies between any. -/
def Within (type : Option ColumnType) (low high cell : Value) : Prop :=
  (rank cell ≠ .absent ∧ rank (fitTo type low) ≠ .absent ∧ rank (fitTo type high) ≠ .absent) ∧
    less cell (fitTo type low) = false ∧ less (fitTo type high) cell = false

end Cell

namespace Predicate

variable {types : ColumnTypes} {column : String} {row : Row}

theorem holds_equals_iff (value : Value) :
    (equals column value).holds types row = true ↔
      Cell.Has (Record.get? types column) value (row.cell column) := by
  cases value with
  | null => exact beq_iff_eq
  | _ =>
    simp only [holds, Cell.Has, Cell.equals, Cell.isAbsent, Cell.same, Bool.and_eq_true,
      Bool.not_eq_true', beq_eq_false_iff_ne, beq_iff_eq]

theorem holds_between_iff (low high : Value) :
    (between column low high).holds types row = true ↔
      Cell.Within (Record.get? types column) low high (row.cell column) := by
  simp only [holds, Cell.atMost, Cell.isAbsent, Cell.Within, Bool.and_eq_true, Bool.not_eq_true',
    beq_eq_false_iff_ne]
  constructor
  · rintro ⟨⟨⟨least, present⟩, above⟩, ⟨-, greatest⟩, below⟩
    exact ⟨⟨present, least, greatest⟩, above, below⟩
  · rintro ⟨⟨present, least, greatest⟩, above, below⟩
    exact ⟨⟨⟨least, present⟩, above⟩, ⟨present, greatest⟩, below⟩

end Predicate

/-! ### Paths -/

/-- A path has values for the first levels of its hierarchy. -/
theorem Hierarchy.levelsForPath_ok {h : Hierarchy} {path : List Value} {levels : List Level} :
    h.levelsForPath path false = .ok levels ↔
      path.length ≤ h.levels.length ∧ levels = h.levels.take path.length := by
  unfold levelsForPath levelsForDepth
  rw [if_neg (by omega)]
  split
  · constructor
    · intro failed
      cases failed
    · omega
  · constructor
    · intro taken
      cases taken
      exact ⟨by omega, rfl⟩
    · rintro ⟨-, rfl⟩
      rfl

namespace Compiler

variable {c : Compiler}

/-- Levels that a path has no values for make no conditions. -/
theorem pathConditions_take (levels : List Level) (path : List Value) :
    c.pathConditions (levels.take path.length) path = c.pathConditions levels path := by
  induction levels generalizing path with
  | nil => rw [List.take_nil]
  | cons level rest inductionHypothesis =>
    cases path with
    | nil => rfl
    | cons value path =>
      rw [List.length_cons, List.take_succ_cons]
      unfold pathConditions
      rw [inductionHypothesis]

theorem pathPredicates_eq {h : Hierarchy} {path : List Value} (fits : path.length ≤ h.levels.length) :
    c.pathPredicates h path = c.pathConditions h.levels path := by
  unfold pathPredicates
  rw [Hierarchy.levelsForPath_ok.2 ⟨fits, rfl⟩]
  exact pathConditions_take h.levels path

/-- A path has conditions when it does not leave its hierarchy, the ones along the hierarchy. -/
theorem pathPredicates_ok {h : Hierarchy} {path : List Value} {along : List Predicate} :
    c.pathPredicates h path = .ok along ↔
      path.length ≤ h.levels.length ∧ c.pathConditions h.levels path = .ok along := by
  constructor
  · intro compiled
    obtain ⟨levels, taken, -⟩ := Result.bind_ok.1 compiled
    obtain ⟨fits, -⟩ := Hierarchy.levelsForPath_ok.1 taken
    exact ⟨fits, (pathPredicates_eq fits).symm.trans compiled⟩
  · rintro ⟨fits, compiled⟩
    exact (pathPredicates_eq fits).trans compiled

/-- Wildcards make no conditions, either. -/
theorem pathConditions_append_wildcards (levels : List Level) (path : List Value) (count : Nat) :
    c.pathConditions levels (path ++ List.replicate count .wildcard) =
      c.pathConditions levels path := by
  induction levels generalizing path count with
  | nil => rfl
  | cons level rest inductionHypothesis =>
    cases path with
    | nil =>
      cases count with
      | zero => rfl
      | succ count =>
        have later := inductionHypothesis [] count
        rw [List.nil_append] at later ⊢
        rw [List.replicate_succ, pathConditions, later]
        cases rest <;> rfl
    | cons value path =>
      rw [List.cons_append]
      unfold pathConditions
      rw [inductionHypothesis]

end Compiler

/-! ### Cuts one by one -/

/-- A fact meets a cut. For a point, the column of the key of every level that the path has a value
for has this value; for a range, the column of the key field lies between the bounds. -/
def Cut.IsMetBy (c : Compiler) (types : ColumnTypes) (fact : Row) : Cut → Prop
  | .point dimension hierarchy path =>
    ∃ d h, c.cube.dimension dimension = .ok d ∧ d.hierarchy (.ofOption hierarchy) = .ok h ∧
      ∀ (index : Nat) value, path[index]? = some value → value ≠ .wildcard →
        ∃ level key, h.levels[index]? = some level ∧ level.keyAttribute = .ok key ∧
          Cell.Has (Record.get? types (c.column key)) value (fact.cell (c.column key))
  | .range dimension _ low high =>
    ∃ d column, c.cube.dimension dimension = .ok d ∧ c.keyFieldColumn d = .ok column ∧
      Cell.Within (Record.get? types column) low high (fact.cell column)
  | .set .. | .bare .. => False

namespace Compiler

variable {c : Compiler} {types : ColumnTypes} {fact : Row} {cuts : List Cut}

/-- The conditions of a path are met by the facts that have its values at their places. -/
theorem all_holds_pathConditions {levels : List Level} {path : List Value}
    {conditions : List Predicate} (compiled : c.pathConditions levels path = .ok conditions)
    (fits : path.length ≤ levels.length) :
    conditions.all (Predicate.holds types fact) = true ↔
      ∀ (index : Nat) value, path[index]? = some value → value ≠ .wildcard →
        ∃ level key, levels[index]? = some level ∧ level.keyAttribute = .ok key ∧
          Cell.Has (Record.get? types (c.column key)) value (fact.cell (c.column key)) := by
  induction levels generalizing path conditions with
  | nil =>
    cases compiled
    obtain rfl := List.length_eq_zero_iff.mp (Nat.le_zero.mp fits)
    simp
  | cons level rest inductionHypothesis =>
    cases path with
    | nil =>
      cases compiled
      simp
    | cons value path =>
      have shorter : path.length ≤ rest.length := Nat.le_of_succ_le_succ fits
      unfold pathConditions at compiled
      split at compiled
      · rw [inductionHypothesis compiled shorter]
        constructor
        · rintro later (_ | index) value found closed
          · exact absurd (Option.some.inj found).symm closed
          · exact later index value found closed
        · exact fun all index => all (index + 1)
      · rename_i closed
        obtain ⟨key, keyed, compiled⟩ := Result.bind_ok.1 compiled
        obtain ⟨others, below, compiled⟩ := Result.bind_ok.1 compiled
        cases compiled
        rw [List.all_cons, Bool.and_eq_true, Predicate.holds_equals_iff,
          inductionHypothesis below shorter]
        constructor
        · rintro ⟨first, later⟩ (_ | index) other found
          · cases found
            exact fun _ => ⟨level, key, rfl, keyed, first⟩
          · exact later index other found
        · intro all
          refine ⟨?_, fun index => all (index + 1)⟩
          obtain ⟨_, other, found, keyedToo, first⟩ := all 0 value rfl closed
          cases found
          cases keyed.symm.trans keyedToo
          exact first

/-- The conditions of a cut are met by the facts that meet the cut. -/
theorem all_holds_cutPredicates {cut : Cut} {conditions : List Predicate}
    (compiled : c.cutPredicates cut = .ok conditions) :
    conditions.all (Predicate.holds types fact) = true ↔ cut.IsMetBy c types fact := by
  cases cut with
  | point dimension hierarchy path =>
    obtain ⟨⟨d, h⟩, resolved, compiled⟩ := Result.bind_ok.1 compiled
    obtain ⟨fits, compiled⟩ :=
      pathPredicates_ok.1 (show c.pathPredicates h path = .ok conditions from compiled)
    obtain ⟨d', known, resolved⟩ := Result.bind_ok.1 resolved
    obtain ⟨h', looked, resolved⟩ := Result.bind_ok.1 resolved
    cases resolved
    rw [all_holds_pathConditions compiled fits]
    constructor
    · exact fun all => ⟨d, h, known, looked, all⟩
    · rintro ⟨_, _, knownToo, lookedToo, all⟩
      cases known.symm.trans knownToo
      cases looked.symm.trans lookedToo
      exact all
  | range dimension hierarchy low high =>
    obtain ⟨d, known, compiled⟩ := Result.bind_ok.1 compiled
    obtain ⟨column, keyed, compiled⟩ := Result.bind_ok.1 compiled
    cases compiled
    rw [List.all_cons, List.all_nil, Bool.and_true, Predicate.holds_between_iff]
    constructor
    · exact fun within => ⟨d, column, known, keyed, within⟩
    · rintro ⟨_, _, knownToo, keyedToo, within⟩
      cases known.symm.trans knownToo
      cases keyed.symm.trans keyedToo
      exact within
  | set => cases compiled
  | bare => cases compiled

/-! ### Cuts together -/

/-- Whether a cut can be compiled. -/
def compiles (c : Compiler) (cut : Cut) : Bool := (c.cutPredicates cut).isOk

/-- Whether a cut can be compiled and a fact meets its conditions. -/
def admits (c : Compiler) (types : ColumnTypes) (fact : Row) (cut : Cut) : Bool :=
  (c.cutPredicates cut).toOption.any fun conditions => conditions.all (Predicate.holds types fact)

/-- The facts of a table that cuts select, if all of them can be compiled. -/
def selected? (c : Compiler) (table : Table) (cuts : List Cut) : Option (List Row) :=
  (c.predicates cuts).toOption.map fun conditions =>
    selectRows table.columns conditions table.rows

theorem selected?_iff {table : Table} {facts : List Row} :
    c.selected? table cuts = some facts ↔
      ∃ conditions, c.predicates cuts = .ok conditions ∧
        selectRows table.columns conditions table.rows = facts := by
  unfold selected?
  cases c.predicates cuts <;> simp [Except.toOption]

theorem predicates_cons_ok {cut : Cut} {conditions : List Predicate} :
    c.predicates (cut :: cuts) = .ok conditions ↔
      ∃ first others, c.cutPredicates cut = .ok first ∧ c.predicates cuts = .ok others ∧
        conditions = first ++ others := by
  constructor
  · intro compiled
    obtain ⟨first, head, compiled⟩ := Result.bind_ok.1 compiled
    obtain ⟨others, below, compiled⟩ := Result.bind_ok.1 compiled
    cases compiled
    exact ⟨first, others, head, below, rfl⟩
  · rintro ⟨first, others, head, below, rfl⟩
    exact Result.bind_ok.2 ⟨first, head, Result.bind_ok.2 ⟨others, below, rfl⟩⟩

theorem compiles_iff {cut : Cut} :
    c.compiles cut = true ↔ ∃ conditions, c.cutPredicates cut = .ok conditions := by
  unfold compiles
  cases c.cutPredicates cut with
  | error => simp [Except.isOk, Except.toBool]
  | ok => simp [Except.isOk, Except.toBool]

/-- A list of cuts compiles when each of them does. -/
theorem exists_predicates_iff :
    (∃ conditions, c.predicates cuts = .ok conditions) ↔ cuts.all c.compiles = true := by
  induction cuts with
  | nil => exact ⟨fun _ => rfl, fun _ => ⟨[], rfl⟩⟩
  | cons cut rest inductionHypothesis =>
    rw [List.all_cons, Bool.and_eq_true, compiles_iff, ← inductionHypothesis]
    constructor
    · rintro ⟨_, compiled⟩
      obtain ⟨first, others, head, below, -⟩ := predicates_cons_ok.1 compiled
      exact ⟨⟨first, head⟩, others, below⟩
    · rintro ⟨⟨first, head⟩, others, below⟩
      exact ⟨_, predicates_cons_ok.2 ⟨first, others, head, below, rfl⟩⟩

/-- The conditions of a list of cuts are those of each of them. -/
theorem all_holds_predicates {conditions : List Predicate}
    (compiled : c.predicates cuts = .ok conditions) :
    conditions.all (Predicate.holds types fact) = cuts.all (c.admits types fact) := by
  induction cuts generalizing conditions with
  | nil =>
    cases compiled
    rfl
  | cons cut rest inductionHypothesis =>
    obtain ⟨first, others, head, below, rfl⟩ := predicates_cons_ok.1 compiled
    rw [List.all_append, List.all_cons, inductionHypothesis below, admits, head]
    rfl

/-- What a list of cuts selects, said cut by cut. -/
theorem selected?_eq (table : Table) (cuts : List Cut) :
    c.selected? table cuts =
      if cuts.all c.compiles then
        some (table.rows.filter fun fact => cuts.all (c.admits table.columns fact))
      else none := by
  unfold selected?
  cases compiled : c.predicates cuts with
  | ok conditions =>
    rw [if_pos (exists_predicates_iff.1 ⟨conditions, compiled⟩)]
    refine congrArg some (List.filter_congr fun fact _ => ?_)
    exact all_holds_predicates compiled
  | error =>
    rw [if_neg]
    · rfl
    · intro all
      obtain ⟨conditions, done⟩ := exists_predicates_iff.2 all
      cases compiled.symm.trans done

theorem selected?_eq_some {table : Table} {facts : List Row} :
    c.selected? table cuts = some facts ↔
      cuts.all c.compiles = true ∧
        facts = table.rows.filter fun fact => cuts.all (c.admits table.columns fact) := by
  rw [selected?_eq, Option.ite_none_right_eq_some, Option.some.injEq]
  exact and_congr_right fun _ => eq_comm

/-- Lists of cuts select the same when they agree on every test that all cuts have to pass. -/
theorem selected?_congr {others : List Cut}
    (same : ∀ test : Cut → Bool, (∀ cut cut', c.cutPredicates cut = c.cutPredicates cut' →
      test cut = test cut') → cuts.all test = others.all test) (table : Table) :
    c.selected? table cuts = c.selected? table others := by
  have compiled : cuts.all c.compiles = others.all c.compiles :=
    same _ fun cut cut' alike => by rw [compiles, compiles, alike]
  have admitted : ∀ fact, cuts.all (c.admits table.columns fact) =
      others.all (c.admits table.columns fact) :=
    fun fact => same _ fun cut cut' alike => by rw [admits, admits, alike]
  rw [selected?_eq, selected?_eq, compiled]
  simp only [admitted]

theorem admits_iff {cut : Cut} (compiled : c.compiles cut = true) :
    c.admits types fact cut = true ↔ cut.IsMetBy c types fact := by
  obtain ⟨conditions, done⟩ := compiles_iff.1 compiled
  rw [← all_holds_cutPredicates done, admits, done]
  rfl

/-- The conditions of cuts are met by the facts that meet every cut. -/
theorem all_holds_predicates_iff {conditions : List Predicate}
    (compiled : c.predicates cuts = .ok conditions) :
    conditions.all (Predicate.holds types fact) = true ↔
      ∀ cut ∈ cuts, cut.IsMetBy c types fact := by
  have each := List.all_eq_true.mp (exists_predicates_iff.mp ⟨conditions, compiled⟩)
  rw [all_holds_predicates compiled, List.all_eq_true]
  exact forall₂_congr fun cut member => admits_iff (each cut member)

/-- Cuts select exactly the facts that meet every cut. -/
theorem exists_meets_of_selected? {table : Table} {facts : List Row}
    (selected : c.selected? table cuts = some facts) :
    ∃ meets : Row → Bool,
      (∀ fact, meets fact = true ↔ ∀ cut ∈ cuts, cut.IsMetBy c table.columns fact) ∧
        facts = table.rows.filter meets := by
  obtain ⟨conditions, compiled, rfl⟩ := selected?_iff.mp selected
  exact ⟨_, fun fact => all_holds_predicates_iff compiled, rfl⟩

/-- A point whose hierarchy is found has the conditions of its path. -/
theorem cutPredicates_point {dimension : String} {hierarchy : Option String} {path : List Value}
    {d : Dimension} {h : Hierarchy}
    (resolved : Cut.resolve (.point dimension hierarchy path) c.cube = .ok (d, h))
    (fits : path.length ≤ h.levels.length) :
    c.cutPredicates (.point dimension hierarchy path) = c.pathConditions h.levels path := by
  show (Cut.resolve (.point dimension hierarchy path) c.cube >>= fun found =>
    c.pathPredicates found.2 path) = _
  rw [resolved]
  exact pathPredicates_eq fits

/-- Wildcards at the end of a path make no difference while the path fits into its hierarchy. -/
theorem cutPredicates_append_wildcards {dimension : String} {hierarchy : Option String}
    {path : List Value} {count : Nat} {d : Dimension} {h : Hierarchy}
    (resolved : Cut.resolve (.point dimension hierarchy path) c.cube = .ok (d, h))
    (fits : path.length + count ≤ h.levels.length) :
    c.cutPredicates (.point dimension hierarchy (path ++ List.replicate count .wildcard)) =
      c.cutPredicates (.point dimension hierarchy path) := by
  -- What a cut is resolved to does not depend on its path.
  have resolvedToo : Cut.resolve
      (.point dimension hierarchy (path ++ List.replicate count .wildcard)) c.cube = .ok (d, h) :=
    resolved
  rw [cutPredicates_point resolved (by omega), cutPredicates_point resolvedToo
    (by rw [List.length_append, List.length_replicate]; exact fits),
    pathConditions_append_wildcards]

end Compiler

/-- Cuts select exactly the facts that meet every cut. So whether they compile and what they select
does not depend on their order, on cuts that are there twice, or on wildcards at the end of a path
that fits into its hierarchy; and with one more cut they select no fact that was not selected. -/
theorem Compiler.selected?_laws (c : Compiler) (table : Table) :
    (∀ cuts facts, c.selected? table cuts = some facts →
      ∃ meets : Row → Bool,
        (∀ fact, meets fact = true ↔ ∀ cut ∈ cuts, cut.IsMetBy c table.columns fact) ∧
          facts = table.rows.filter meets) ∧
    (∀ cuts others : List Cut, cuts.Perm others →
      c.selected? table cuts = c.selected? table others) ∧
    (∀ before after cut, cut ∈ before ++ after →
      c.selected? table (before ++ cut :: after) = c.selected? table (before ++ after)) ∧
    (∀ before after dimension hierarchy path count d h,
      Cut.resolve (.point dimension hierarchy path) c.cube = .ok (d, h) →
      path.length + count ≤ h.levels.length →
        c.selected? table (before ++
            .point dimension hierarchy (path ++ List.replicate count .wildcard) :: after) =
          c.selected? table (before ++ .point dimension hierarchy path :: after)) ∧
    (∀ before after cut fewer, c.selected? table (before ++ cut :: after) = some fewer →
      ∃ facts, c.selected? table (before ++ after) = some facts ∧ fewer.Sublist facts) := by
  refine ⟨?exact, ?order, ?twice, ?wildcards, ?more⟩
  case exact => exact fun _ _ => exists_meets_of_selected?
  case order =>
    intro cuts others order
    exact selected?_congr (fun _ _ => order.all_eq) table
  case twice =>
    intro before after cut member
    refine selected?_congr (fun test _ => ?_) table
    rw [List.perm_middle.all_eq, List.all_cons, Bool.and_eq_right_iff_imp, List.all_eq_true]
    exact fun all => all cut member
  case wildcards =>
    intro before after dimension hierarchy path count d h resolved fits
    refine selected?_congr (fun test respects => ?_) table
    rw [List.all_append, List.all_append, List.all_cons, List.all_cons,
      respects _ _ (cutPredicates_append_wildcards resolved fits)]
  case more =>
    intro before after cut fewer selected
    obtain ⟨compiled, rfl⟩ := selected?_eq_some.1 selected
    rw [List.perm_middle.all_eq, List.all_cons, Bool.and_eq_true] at compiled
    refine ⟨_, selected?_eq_some.2 ⟨compiled.2, rfl⟩, ?_⟩
    simp only [List.perm_middle.all_eq, List.all_cons, ← List.filter_filter]
    exact List.filter_sublist

open Market in
/-- The three sales in a country are selected with a wildcard for the city as well, and one of them is
left when the city has to be unknown. -/
theorem Compiler.selected?_laws_sales :
    salesBrowser.compiler.selected? salesTable [.point "place" none [.text "AT", .wildcard]] =
        salesBrowser.compiler.selected? salesTable [.point "place" none [.text "AT"]] ∧
      ∃ facts, salesBrowser.compiler.selected? salesTable [.point "place" none [.text "AT"]] =
          some facts ∧
        [salesTable.rows[1]].Sublist facts ∧ facts.length = 3 := by
  obtain ⟨-, -, -, wildcards, more⟩ := selected?_laws salesBrowser.compiler salesTable
  obtain ⟨facts, selected, fewer⟩ := more [] [.point "place" none [.text "AT"]]
    (.point "place" (some "cities") [.wildcard, .null]) [salesTable.rows[1]] rfl
  refine ⟨wildcards [] [] "place" none [.text "AT"] 1 place cities rfl (by decide), facts, selected,
    fewer, ?_⟩
  cases selected
  rfl

namespace Browser

variable {σ : Type} {b : Browser σ} {table : Table} {cuts : List Cut} {facts : List Row}

/-- The facts that cuts agree on are the ones that they select. -/
theorem factsIn_ok_iff :
    b.factsIn table cuts = .ok facts ↔ b.compiler.selected? table cuts = some facts :=
  Result.map_ok.trans Compiler.selected?_iff.symm

/-- Cuts agree on exactly the facts that meet every cut. -/
theorem exists_meets_of_factsIn (restricted : b.factsIn table cuts = .ok facts) :
    ∃ meets : Row → Bool,
      (∀ fact, meets fact = true ↔ ∀ cut ∈ cuts, cut.IsMetBy b.compiler table.columns fact) ∧
        facts = table.rows.filter meets :=
  Compiler.exists_meets_of_selected? (factsIn_ok_iff.mp restricted)

end Browser

/-! ### A sale abroad -/

namespace Market

/-- A sale in a city of the same name in another country. -/
def abroad : Row :=
  [("place.country", .text "DE"), ("place.city", .text "Linz"), ("amount", .int 5)]

/-- The sales with the one abroad among them. -/
def abroadTable : Table := { salesTable with rows := abroad :: salesTable.rows }

def abroadBrowser : Browser Unit := ⟨sales, some (Database.evaluator [abroadTable]), .unset⟩

theorem abroadBrowser_overTable : abroadBrowser.OverTable [abroadTable] abroadTable :=
  ⟨⟨_, rfl, Database.evaluates_evaluator _⟩, rfl⟩

/-- The cut to Austria leaves the sale abroad out. -/
theorem factsIn_abroadTable :
    abroadBrowser.factsIn abroadTable inAustria.cuts = .ok salesTable.rows := rfl

/-- The sale abroad is a fact that does not meet the cut to Austria. -/
theorem abroad_unmet : abroad ∈ abroadTable.rows ∧
    ¬∀ cut ∈ inAustria.cuts, cut.IsMetBy abroadBrowser.compiler abroadTable.columns abroad := by
  obtain ⟨meets, meetsAll, left⟩ := Browser.exists_meets_of_factsIn factsIn_abroadTable
  refine ⟨List.mem_cons_self, fun met => ?_⟩
  have kept : abroad ∈ abroadTable.rows.filter meets :=
    List.mem_filter.mpr ⟨List.mem_cons_self, (meetsAll abroad).mpr met⟩
  rw [← left] at kept
  simp [abroad, salesTable] at kept

end Market

end Olap
