/-
Compiled queries can be written. Over a table nothing is in the way of that, as all conditions are of
kinds that are known. Over the rows of another query only its columns can be named; a limit ranks by one
of them, because accepted options only limit by an aggregation that is selected. What is left is a query
that selects two columns of one name: nothing can be said about its columns, and so a limit on its rows
can not be written, but no problem of the query is ever reported.
-/

import Olap.Proofs.Limits
import Olap.Proofs.Questions
import Olap.Proofs.Statements

namespace Olap

/-- A query can be written in all dialects, unless it is about the rows of a query that selects two
columns of one name. In any case the rows are ranked by selected columns, and no problem is reported. -/
structure Query.IsWritable (q : Query) : Prop where
  ranked : ∀ source layer, q = .derived source layer →
    ∀ order ∈ layer.orderBy, order.column ∈ source.aliases
  unreported : ∀ dialect p, Sql.queryPieces dialect false q ≠ .error (.problem p)
  written : (q.isDerived = true → q.aliases.Nodup) →
    ∀ dialect, ∃ pieces, Sql.queryPieces dialect false q = .ok pieces

/-- A query can be written in all dialects, or in none because it is about the rows of a query that selects
two columns of one name. -/
def Query.HingesOnNames (q : Query) : Prop :=
  ∀ dialect,
    ((q.isDerived = true → q.aliases.Nodup) ∧
      ∃ pieces, Sql.queryPieces dialect false q = .ok pieces) ∨
    ((q.isDerived = true ∧ ¬q.aliases.Nodup) ∧
      Sql.queryPieces dialect false q = .error (.outside .sqlAmbiguous))

/-- Options of an aggregation that is asked for are accepted ones. -/
def Question.IsAccepted : Question → Prop
  | summary _ o | drill _ o => o.IsAccepted
  | facts _ | values .. | detail .. => True

namespace Compiler

variable {c : Compiler} {cuts : List Cut} {m : Attribute} {o : AggregateOptions}

theorem isWritable_scan (table : String) {layer : Layer}
    (known : ∀ p ∈ layer.predicates, Sql.IsKnown p) : (Query.scan table layer).IsWritable where
  ranked _ _ same := by cases same
  unreported dialect p failed := by
    obtain ⟨pieces, written⟩ := Sql.exists_scanPieces dialect false table known
    cases written.symm.trans failed
  written _ dialect := Sql.exists_scanPieces dialect false table known

theorem isWritable_rankLimit (accepted : o.IsAccepted) (limited : o.hasLimit = true)
    {conditions : List Predicate} (known : ∀ p ∈ conditions, Sql.IsKnown p)
    (attributes : List Attribute) (order : List RowOrder) :
    (rankLimit m o
      (.scan c.table (c.groupedLayer m o attributes conditions order))).IsWritable := by
  have chosen := rankedBy_selected (c := c) (m := m) accepted limited conditions attributes order
  have pieces (dialect : Sql.Dialect) :=
    Sql.queryPieces_ranking dialect c.table (rankLimit m o (.scan c.table default)).layer
      (groupedLayer_filled conditions attributes order) known rfl rfl rfl rfl chosen
  refine ⟨fun source layer same ranking member => ?_, fun dialect p failed => ?_,
    fun distinct dialect => ?_⟩
  · cases same
    rw [List.mem_singleton.mp member]
    exact chosen
  · rcases pieces dialect with ⟨-, _, written⟩ | ⟨-, ambiguous⟩
    · cases written.symm.trans failed
    · cases ambiguous.symm.trans failed
  · rcases pieces dialect with ⟨-, written⟩ | ⟨repeated, -⟩
    · exact written
    · exact absurd (distinct rfl) repeated

theorem isWritable_summary {measure : Description} {q : Query}
    (made : c.summary cuts measure o = .ok q) : q.IsWritable := by
  obtain ⟨m, conditions, -, compiled, rfl⟩ := summary_ok.1 made
  exact isWritable_scan c.table (isKnown_of_predicates compiled)

theorem isWritable_drill (accepted : o.IsAccepted) {measure : Description} {q : Query}
    (made : c.drill cuts measure o = .ok (some q)) : q.IsWritable := by
  obtain ⟨-, m, conditions, attributes, order, -, drills, rfl⟩ := drill_ok.1 made
  have known := isKnown_of_predicates drills.compiled
  unfold drilled
  split
  · rename_i limited
    exact isWritable_rankLimit accepted limited known attributes order
  · exact isWritable_scan c.table known

theorem isWritable_facts {o : QueryOptions} {q : Query} (made : c.facts cuts o = .ok q) :
    q.IsWritable := by
  obtain ⟨conditions, order, compiled, -, rfl⟩ := exists_of_facts made
  exact isWritable_scan c.table (isKnown_of_predicates compiled)

theorem isWritable_fact (key : Value) : (c.fact key).IsWritable :=
  isWritable_scan c.table (List.forall_mem_singleton.mpr trivial)

theorem isWritable_values {dimension hierarchy : Description} {path : Value} {o : QueryOptions}
    {q : Query} (made : c.values dimension path cuts o hierarchy = .ok q) : q.IsWritable := by
  obtain ⟨d, h, items, conditions, along, key, order, -, -, compiled, pathCompiled, -, -, rfl⟩ :=
    exists_of_values made
  exact isWritable_scan c.table (isKnown_of_listing compiled pathCompiled (c.column key))

theorem isWritable_detail {dimension hierarchy : Description} {path : Value} {q : Query}
    (made : c.detail dimension path cuts hierarchy = .ok q) : q.IsWritable := by
  obtain ⟨d, h, items, conditions, along, -, -, compiled, pathCompiled, rfl⟩ := exists_of_detail made
  exact isWritable_scan c.table (List.forall_mem_append.mpr
    ⟨isKnown_of_predicates compiled, isKnown_of_pathConditions pathCompiled⟩)

/-- Compiled queries can be written. Whatever the cube, the cuts and the question are, writing the query
reports no problem, as long as the options of an aggregation are accepted ones. The column that rows of
a limit are ranked by is one of those that the ranked query selects, and unless two of these columns
have the same name, the query can be written in all dialects. So can the query for the fact of a key. -/
theorem compiled_isWritable (c : Compiler) :
    (∀ (cuts : List Cut) (question : Question), question.IsAccepted →
      ∀ q, c.compile cuts question = .ok (some q) → q.IsWritable) ∧
    ∀ key, (c.fact key).IsWritable := by
  refine ⟨fun cuts question accepted q made => ?_, isWritable_fact⟩
  cases question with
  | summary measure o =>
    obtain ⟨_, made, ⟨⟩⟩ := Result.map_ok.1 made
    exact isWritable_summary made
  | drill measure o => exact isWritable_drill accepted made
  | facts o =>
    obtain ⟨_, made, ⟨⟩⟩ := Result.map_ok.1 made
    exact isWritable_facts made
  | values dimension path o hierarchy =>
    obtain ⟨_, made, ⟨⟩⟩ := Result.map_ok.1 made
    exact isWritable_values made
  | detail dimension path hierarchy =>
    obtain ⟨_, made, ⟨⟩⟩ := Result.map_ok.1 made
    exact isWritable_detail made

/-- A limit on the rows of a query that selects two columns of one name fails by the names. -/
theorem ambiguous_of_compile {question : Question} (accepted : question.IsAccepted) {q : Query}
    (made : c.compile cuts question = .ok (some q)) (derived : q.isDerived = true)
    (repeated : ¬q.aliases.Nodup) (dialect : Sql.Dialect) :
    Sql.queryPieces dialect false q = .error (.outside .sqlAmbiguous) := by
  cases question with
  | summary measure o =>
    obtain ⟨_, made, ⟨⟩⟩ := Result.map_ok.1 made
    obtain ⟨m, conditions, -, -, rfl⟩ := summary_ok.1 made
    cases derived
  | drill measure o =>
    obtain ⟨-, m, conditions, attributes, order, -, drills, rfl⟩ := drill_ok.1 made
    unfold drilled at derived repeated ⊢
    split at derived
    next limited =>
      rw [if_pos limited] at repeated ⊢
      rcases Sql.queryPieces_ranking dialect c.table (rankLimit m o (.scan c.table default)).layer
        (groupedLayer_filled conditions attributes order) (isKnown_of_predicates drills.compiled)
        rfl rfl rfl rfl (rankedBy_selected accepted limited conditions attributes order) with
        ⟨distinct, -⟩ | ⟨-, ambiguous⟩
      · exact absurd distinct repeated
      · exact ambiguous
    next => cases derived
  | facts o =>
    obtain ⟨_, made, ⟨⟩⟩ := Result.map_ok.1 made
    obtain ⟨conditions, order, -, -, rfl⟩ := exists_of_facts made
    cases derived
  | values dimension path o hierarchy =>
    obtain ⟨_, made, ⟨⟩⟩ := Result.map_ok.1 made
    obtain ⟨d, h, items, conditions, along, key, order, -, -, -, -, -, -, rfl⟩ := exists_of_values made
    cases derived
  | detail dimension path hierarchy =>
    obtain ⟨_, made, ⟨⟩⟩ := Result.map_ok.1 made
    obtain ⟨d, h, items, conditions, along, -, -, -, -, rfl⟩ := exists_of_detail made
    cases derived

/-- Whether a compiled query can be written hinges on the names that it selects, and on nothing else. -/
theorem compiled_hingesOnNames {question : Question} (accepted : question.IsAccepted) {q : Query}
    (made : c.compile cuts question = .ok (some q)) : q.HingesOnNames := by
  intro dialect
  by_cases free : q.isDerived = true → q.aliases.Nodup
  · exact .inl ⟨free, ((compiled_isWritable c).1 cuts question accepted q made).written free dialect⟩
  · rw [Classical.not_imp] at free
    exact .inr ⟨free, ambiguous_of_compile accepted made free.1 free.2 dialect⟩

/-- A query that is compiled from some cuts: for a question about them, or for the fact of a key. -/
def Makes (c : Compiler) (cuts : List Cut) (q : Query) : Prop :=
  (∃ question : Question, question.IsAccepted ∧ c.compile cuts question = .ok (some q)) ∨
    ∃ key, q = c.fact key

theorem Makes.hingesOnNames {q : Query} (made : c.Makes cuts q) : q.HingesOnNames := by
  obtain ⟨question, accepted, made⟩ | ⟨key, rfl⟩ := made
  · exact compiled_hingesOnNames accepted made
  · have apart : (c.fact key).isDerived = true → (c.fact key).aliases.Nodup := fun derived => by
      cases derived
    exact fun dialect => .inl ⟨apart, (isWritable_fact key).written apart dialect⟩

end Compiler

theorem Market.isAccepted_bestCityOptions : bestCityOptions.IsAccepted :=
  ⟨[("row_dimension", .text "place"), ("row_levels", .list [.text "country", .text "city"]),
    ("limit", .text "rank"), ("limit_value", .int 1), ("limit_sort", .text "top")], rfl⟩

namespace Compiler

open Market in
/-- The ranking of the cities of Austria can be written in all dialects. -/
theorem compiled_isWritable_bestCity :
    ∃ q, salesBrowser.compiler.compile inAustria.cuts (.drill (.text "amount") bestCityOptions) =
        .ok (some q) ∧
      q.isDerived = true ∧ q.IsWritable ∧
      ∀ dialect, ∃ pieces, Sql.queryPieces dialect false q = .ok pieces := by
  have writable := (compiled_isWritable salesBrowser.compiler).1 inAustria.cuts
    (.drill (.text "amount") bestCityOptions) isAccepted_bestCityOptions _ rfl
  exact ⟨_, rfl, rfl, writable, writable.written fun _ => by decide⟩

end Compiler

end Olap
