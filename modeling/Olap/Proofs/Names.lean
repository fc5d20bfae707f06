/-
Names of selected columns. A row of a result is keyed by these names, so a name that is given to two
columns costs one of them. The checks of descriptions keep apart the names of attributes within a level,
of levels, hierarchies and measures, and of details from measures. They leave open what happens across
levels, among details, and between names of different kinds. Where nothing is left to chance there, all
columns of all queries have different names, and the store hands out its rows as they are.
-/

import Olap.Proofs.Renderings
import Olap.Sql.Store

namespace Olap

/-! ### Names that the checks keep apart -/

namespace Cube

variable {c : Cube}

/-- Measures are named once, and no detail is named like a measure. -/
theorem checkNames_ok {name : String} {measures details : List Attribute}
    (checked : checkNames name measures details = .ok ()) :
    (measures.map (·.name)).Nodup ∧ ∀ a ∈ details, ∀ b ∈ measures, a.name ≠ b.name := by
  unfold checkNames at checked
  dsimp only at checked
  split at checked
  · cases checked
  · rename_i once
    split at checked
    · obtain ⟨_, -, failed⟩ := Result.bind_ok.1 checked
      cases failed
    · rename_i free
      refine ⟨nodup_of_hasRepeats (by simpa using once), fun a detail b measure same => ?_⟩
      rw [Bool.not_eq_true, Bool.not_eq_false', List.isEmpty_iff, List.filter_eq_nil_iff] at free
      refine free a.name (List.mem_eraseDups.mpr (List.mem_map_of_mem detail)) ?_
      rw [List.contains_iff_mem, same]
      exact List.mem_map_of_mem measure

/-- What the checks of a cube leave open about names. -/
structure HasApartNames (c : Cube) : Prop where
  /-- No name is repeated across the levels of a dimension, as far as references go. -/
  attributes : ((c.dimensions.flatMap (·.attributes)).map (·.refText)).Nodup
  details : (c.details.map (·.name)).Nodup
  named : ∀ a ∈ c.details ++ c.measures, a.name ≠ none
  plain : ∀ a ∈ c.details ++ c.measures, ∀ b ∈ c.dimensions.flatMap (·.attributes),
    a.refText ≠ b.refText
  key : ∀ a ∈ c.factAttributes, a.refText ≠ c.keyField

/-- Details and measures belong to no dimension, so their references are their names. -/
theorem IsSettled.ref_eq (settled : c.IsSettled) {a : Attribute} (member : a ∈ c.details ++ c.measures) :
    a.ref = a.name := by
  have free : a.dimension = none := by
    rcases List.mem_append.mp member with detail | measure
    · exact (settled.details a detail).dimension
    · exact (settled.measures a measure).dimension
  unfold Attribute.ref
  rw [free]

/-- The key and the references of the attributes of a fact are all different. -/
theorem HasApartNames.nodup (apart : c.HasApartNames) (settled : c.IsSettled) :
    (c.keyField :: c.factAttributes.map (·.refText)).Nodup := by
  obtain ⟨measures, across⟩ := checkNames_ok settled.names
  have names : ((c.details ++ c.measures).map (·.name)).Nodup := by
    rw [List.map_append, List.nodup_append]
    refine ⟨apart.details, measures, ?_⟩
    intro name first other second
    obtain ⟨a, detail, rfl⟩ := List.mem_map.mp first
    obtain ⟨b, measure, rfl⟩ := List.mem_map.mp second
    exact across a detail b measure
  have texts : ((c.details ++ c.measures).map (·.refText)).Nodup := by
    refine (List.nodup_map_iff_inj_on names.of_map).mpr fun a first b second same => ?_
    refine List.inj_on_of_nodup_map names first second ?_
    obtain ⟨name, known⟩ := Option.ne_none_iff_exists'.mp (apart.named a first)
    obtain ⟨other, knownToo⟩ := Option.ne_none_iff_exists'.mp (apart.named b second)
    unfold Attribute.refText at same
    rw [settled.ref_eq first, settled.ref_eq second, known, knownToo] at same
    rw [known, knownToo]
    exact congrArg some same
  rw [List.nodup_cons]
  constructor
  · intro member
    obtain ⟨a, inside, same⟩ := List.mem_map.mp member
    exact apart.key a inside same
  · rw [factAttributes, List.append_assoc, List.map_append, List.nodup_append]
    refine ⟨apart.attributes, texts, ?_⟩
    intro ref first other second
    obtain ⟨b, owned, rfl⟩ := List.mem_map.mp first
    obtain ⟨a, plain, rfl⟩ := List.mem_map.mp second
    exact (apart.plain a plain b owned).symm

end Cube

/-! ### References of some attributes of a dimension -/

/-- The attributes of different levels of a dimension have different references. -/
theorem Cube.HasApartNames.nodup_levels {c : Cube} (apart : c.HasApartNames) {d : Dimension}
    (held : d ∈ c.dimensions) {levels : List Level} (once : levels.Nodup)
    (own : levels ⊆ d.levels) :
    ((levels.flatMap (·.attributes)).map (·.refText)).Nodup := by
  obtain ⟨order, same, part⟩ := once.subperm own
  have inside : d.attributes.Sublist (c.dimensions.flatMap (·.attributes)) := by
    have single := (List.singleton_sublist.mpr held).flatMap (·.attributes)
    rwa [List.flatMap_singleton] at single
  have distinct := apart.attributes.sublist
    (((part.flatMap (·.attributes)).trans inside).map (·.refText))
  exact ((same.flatMap_right (·.attributes)).map (·.refText)).nodup_iff.mp distinct

/-- References of dimensions have a point in them. -/
theorem Dimension.IsSettled.point_mem_refText {d : Dimension} (settled : d.IsSettled)
    {a : Attribute} (member : a ∈ d.attributes) : '.' ∈ a.refText.toList := by
  obtain ⟨level, inside, member⟩ := List.mem_flatMap.mp member
  have owned := (settled.levels level inside).2 a member
  have filled : d.name.isEmpty = false := by
    simpa using settled.name.ne_empty
  unfold Attribute.refText Attribute.ref
  rw [owned]
  dsimp only
  rw [filled]
  simp [shownName, String.toList_append]

namespace Compiler

variable {c : Compiler} {cuts : List Cut} {m : Attribute} {o : AggregateOptions}

/-! ### Names of aggregates -/

/-- The number of records shares its name with one aggregate at most. -/
theorem eq_of_aggregatedName_eq_recordCount {measure operator : String} {function : Aggregator}
    (known : aggregate? operator = some function)
    (same : aggregatedName measure operator = recordCount) :
    measure = "record" ∧ operator = "count" := by
  obtain ⟨name, found, -⟩ := Option.bind_eq_some_iff.mp known
  have member := Record.mem_of_get?_eq_some found
  have last := congrArg (fun text : String => text.toList.getLast?) same
  simp only [aggregatedName, String.toList_append, List.getLast?_append] at last
  simp only [aggregationOperators, List.mem_cons, Prod.mk.injEq, List.not_mem_nil, or_false] at member
  rcases member with ⟨rfl, -⟩ | ⟨rfl, -⟩ | ⟨rfl, -⟩ | ⟨rfl, -⟩ | ⟨rfl, -⟩
  · exact absurd (show some 'm' = some 't' from last) (by decide)
  · refine ⟨?_, rfl⟩
    have split : recordCount = "record" ++ "_" ++ "count" := rfl
    rw [aggregatedName, split, String.append_left_inj, String.append_left_inj] at same
    exact same
  · exact absurd (show some 'e' = some 't' from last) (by decide)
  · exact absurd (show some 'n' = some 't' from last) (by decide)
  · exact absurd (show some 'x' = some 't' from last) (by decide)

/-- What options leave open about the names of the aggregates of a measure. -/
structure HasApartAggregates (m : Attribute) (o : AggregateOptions) : Prop where
  once : o.operators.Nodup
  counted : "count" ∈ o.operators → m.name ≠ some "record"

theorem HasApartAggregates.nodup (apart : HasApartAggregates m o) (accepted : o.IsAccepted) :
    ((c.aggregateProjections m o.operators).map (·.name)).Nodup := by
  rw [map_name_aggregateProjections fun operator member => accepted.exists_aggregate? member,
    List.nodup_append]
  refine ⟨apart.once.map fun operator other same => ?_, List.nodup_singleton _, ?_⟩
  · exact (String.append_right_inj _).mp same
  · intro name member other last same
    obtain ⟨operator, chosen, rfl⟩ := List.mem_map.mp member
    obtain ⟨function, known⟩ := accepted.exists_aggregate? chosen
    rw [List.mem_singleton.mp last] at same
    obtain ⟨record, rfl⟩ := eq_of_aggregatedName_eq_recordCount known same
    refine apart.counted chosen ?_
    cases named : m.name with
    | none =>
      rw [named] at record
      exact absurd record (by decide)
    | some name =>
      rw [named] at record
      exact congrArg some record

/-! ### Attributes of rows -/

/-- The attributes that rows are drilled down to are those of the levels of these names. -/
theorem levelAttributes_ok {d : Dimension} {names : List String} {attributes : List Attribute}
    (found : levelAttributes d names = .ok attributes) :
    ∃ levels, levels ⊆ d.levels ∧ levels.map (·.name) = names.map some ∧
      attributes = levels.flatMap (·.attributes) := by
  induction names generalizing attributes with
  | nil =>
    cases found
    exact ⟨[], List.nil_subset _, rfl, rfl⟩
  | cons name rest inductionHypothesis =>
    obtain ⟨level, looked, found⟩ := Result.bind_ok.1 found
    obtain ⟨others, below, found⟩ := Result.bind_ok.1 found
    cases found
    obtain ⟨levels, own, named, rfl⟩ := inductionHypothesis below
    unfold Dimension.level at looked
    split at looked
    · rename_i known same
      cases looked
      refine ⟨level :: levels, List.cons_subset.mpr ⟨List.mem_of_find?_eq_some same, own⟩, ?_, rfl⟩
      rw [List.map_cons, List.map_cons, named]
      congr 1
      have wanted := List.find?_some
        (p := fun l : Level => isNamed l.name (Description.levelName (.text name))) same
      exact beq_iff_eq.mp wanted
    · cases looked

/-- Rows that are drilled down to different levels have different references. -/
theorem nodup_rowAttributes (apart : c.cube.HasApartNames) (once : o.levels.Nodup)
    {attributes : List Attribute} (grouped : c.rowAttributes o = .ok attributes) :
    (attributes.map (·.refText)).Nodup ∧
      ∀ a ∈ attributes, ∃ d ∈ c.cube.dimensions, a ∈ d.attributes := by
  unfold rowAttributes at grouped
  split at grouped
  · cases grouped
    exact ⟨List.nodup_nil, List.forall_mem_nil _⟩
  · obtain ⟨d, held, found⟩ := Result.bind_ok.1 grouped
    obtain ⟨levels, own, named, rfl⟩ := levelAttributes_ok found
    have distinct : (levels.map (·.name)).Nodup := by
      rw [named]
      exact once.map (Option.some_injective String)
    have inside := Cube.mem_of_dimension held
    refine ⟨apart.nodup_levels inside distinct.of_map own, fun a member => ⟨d, inside, ?_⟩⟩
    obtain ⟨level, among, member⟩ := List.mem_flatMap.mp member
    exact List.mem_flatMap.mpr ⟨level, own among, member⟩

end Compiler

/-- What a question leaves open about the names of its columns: operators and levels are chosen once, the
values of a measure "record" are not counted, and no aggregate is named like a reference. -/
def Question.HasApartNames (c : Compiler) : Question → Prop
  | summary measure o => ∀ m, c.cube.measure measure = .ok m → Compiler.HasApartAggregates m o
  | drill measure o => ∀ m, c.cube.measure measure = .ok m → Compiler.HasApartAggregates m o ∧
      o.levels.Nodup ∧ ∀ operator ∈ o.operators, ∀ d ∈ c.cube.dimensions, ∀ a ∈ d.attributes,
        aggregatedName (shownName m.name) operator ≠ a.refText
  | facts _ | values .. | detail .. => True

/-! ### Rows and their names -/

/-- What a layer selects does not depend on whether its order counts. -/
theorem Layer.projections_settled (isHeeded : Bool) (layer : Layer) :
    (if isHeeded then layer else layer.withoutOrder).projections = layer.projections ∧
      (if isHeeded then layer else layer.withoutOrder).groupBy = layer.groupBy := by
  unfold withoutOrder
  split
  · exact ⟨rfl, rfl⟩
  · split <;> exact ⟨rfl, rfl⟩

theorem Sql.selected_settled (q : Query) (isHeeded : Bool) :
    selected (q.settled isHeeded) = selected q := by
  induction q generalizing isHeeded with
  | scan table layer =>
    rw [Query.settled, selected, selected, (layer.projections_settled isHeeded).1]
  | derived source layer inductionHypothesis =>
    rw [Query.settled, selected, selected, (layer.projections_settled isHeeded).1,
      inductionHypothesis]

/-- A query names the columns of its rows in its innermost layer. -/
def Query.NamesColumns : Query → Prop
  | .scan _ layer => layer.projections ≠ []
  | .derived source layer => source.NamesColumns ∧ layer.projections = [] ∧ layer.groupBy = []

namespace Query

variable {q : Query}

/-- The rows that a query finds are keyed by the names of the columns that it selects, if the names are
known: a layer without a selection has rows of what it reads. -/
theorem keys_of_evaluate? {names : List String} (named : Sql.selected q = .named names)
    {db : Database} {types : ColumnTypes} {rows : List Row}
    (found : db.evaluate? q = some (types, rows)) : ∀ row ∈ rows, Record.keys row = names := by
  induction q generalizing types rows with
  | scan table layer =>
    obtain ⟨known, -, same⟩ := Option.map_eq_some_iff.mp found
    obtain ⟨groups, -, made⟩ := layer.apply_eq_map false known.columns known.rows
    obtain rfl : _ = rows := congrArg Prod.snd same
    rw [Sql.selected] at named
    split at named
    · cases named
    · rename_i filled
      cases named
      dsimp only
      rw [made]
      refine List.forall_mem_map.mpr fun group _ => Layer.keys_project ?_ group
      exact fun empty => filled (List.isEmpty_iff.mpr empty)
  | derived source layer inductionHypothesis =>
    obtain ⟨⟨innerTypes, innerRows⟩, innerFound, same⟩ := Option.map_eq_some_iff.mp found
    obtain ⟨groups, part, made⟩ := layer.apply_eq_map true innerTypes innerRows
    obtain rfl : _ = rows := congrArg Prod.snd same
    dsimp only
    rw [made]
    refine List.forall_mem_map.mpr fun group kept => ?_
    rw [Sql.selected] at named
    split at named
    · rename_i empty
      have plain := List.isEmpty_iff.mp empty
      exact inductionHypothesis named innerFound _
        (List.mem_of_mem_filter (Layer.project_mem_of_plain plain (part.subset kept)))
    · rename_i filled
      cases named
      exact Layer.keys_project (fun empty => filled (List.isEmpty_iff.mpr empty)) group

theorem NamesColumns.settled (named : q.NamesColumns) (isHeeded : Bool) :
    (q.settled isHeeded).NamesColumns ∧ (q.settled isHeeded).aliases = q.aliases := by
  induction q generalizing isHeeded with
  | scan table layer =>
    obtain ⟨projections, -⟩ := layer.projections_settled isHeeded
    unfold Query.settled NamesColumns aliases
    rw [projections]
    exact ⟨named, rfl⟩
  | derived source layer inductionHypothesis =>
    obtain ⟨projections, groups⟩ := layer.projections_settled isHeeded
    obtain ⟨inner, plain, grouped⟩ := named
    obtain ⟨innerNamed, same⟩ := inductionHypothesis inner
      (if isHeeded then layer else layer.withoutOrder).heedsOrder
    unfold Query.settled
    dsimp only
    refine ⟨⟨innerNamed, projections.trans plain, groups.trans grouped⟩, ?_⟩
    rw [aliases, aliases, projections, plain]
    exact same

theorem NamesColumns.selected_eq (named : q.NamesColumns) : Sql.selected q = .named q.aliases := by
  induction q with
  | scan table layer =>
    exact if_neg fun empty => named (List.isEmpty_iff.mp empty)
  | derived source layer inductionHypothesis =>
    obtain ⟨inner, plain, -⟩ := named
    rw [Sql.selected, aliases, plain]
    exact inductionHypothesis inner

/-- The rows that a query finds are keyed by the names of its columns. -/
theorem NamesColumns.keys_of_evaluate? (named : q.NamesColumns) {db : Database}
    {types : ColumnTypes} {rows : List Row} (found : db.evaluate? q = some (types, rows)) :
    ∀ row ∈ rows, Record.keys row = q.aliases :=
  Query.keys_of_evaluate? named.selected_eq found

end Query

/-- Rows whose columns have different names are handed out as they are. -/
theorem Sql.keyed_of_nodup {row : Row} (distinct : (Record.keys row).Nodup) (mode : Sql.Mode) :
    Sql.keyed mode row = .ok row := by
  cases mode with
  | literal => exact congrArg Except.ok (Record.ofPairs_of_nodup distinct)
  | bound =>
    unfold Sql.keyed
    dsimp only
    rw [isAmbiguous_eq_false distinct]
    rfl

namespace Compiler

variable {c : Compiler} {cuts : List Cut} {q : Query}

/-! ### Names of the columns of a query -/

/-- Some levels of a sound cube, at least one of which has a key, have attributes to select. -/
theorem projections_ne_nil {levels : List Level} {level : Level} {key : Attribute}
    (member : level ∈ levels) (keyed : level.keyAttribute = .ok key) :
    (levels.flatMap (·.attributes)).map c.projection ≠ [] :=
  List.ne_nil_of_mem (List.mem_map_of_mem
    (List.mem_flatMap.mpr ⟨level, member, Level.keyAttribute_mem keyed⟩))

theorem nodup_of_levels (sound : c.cube.IsSound) (apart : c.cube.HasApartNames)
    {dimension hierarchy : Description} {d : Dimension} {h : Hierarchy}
    (held : c.cube.dimensionOf dimension = .ok d) (found : d.hierarchy hierarchy = .ok h)
    {levels : List Level} (part : levels.Sublist h.levels) :
    ((levels.flatMap (·.attributes)).map (·.refText)).Nodup := by
  have provides := sound.provides_of_dimensionOf held found
  exact apart.nodup_levels (Cube.mem_of_dimensionOf held) (provides.once.sublist part)
    fun level member => provides.own (part.subset member)

theorem names_of_summary {measure : Description} {o : AggregateOptions} (accepted : o.IsAccepted)
    (choices : (Question.summary measure o).HasApartNames c)
    (made : c.summary cuts measure o = .ok q) : q.NamesColumns ∧ q.aliases.Nodup := by
  obtain ⟨m, conditions, known, -, rfl⟩ := summary_ok.1 made
  exact ⟨List.ne_nil_of_mem (recordProjection_mem o.operators), (choices m known).nodup accepted⟩

theorem names_of_drill (sound : c.cube.IsSound) (apart : c.cube.HasApartNames)
    {measure : Description} {o : AggregateOptions} (accepted : o.IsAccepted)
    (choices : (Question.drill measure o).HasApartNames c)
    (made : c.drill cuts measure o = .ok (some q)) : q.NamesColumns ∧ q.aliases.Nodup := by
  obtain ⟨-, m, conditions, attributes, order, known, drills, rfl⟩ := drill_ok.1 made
  obtain ⟨aggregates, levels, others⟩ := choices m known
  obtain ⟨references, inside⟩ := nodup_rowAttributes apart levels drills.grouped
  constructor
  · have filled := groupedLayer_filled (c := c) (m := m) (o := o) conditions attributes order
    unfold drilled
    split
    · exact ⟨filled, rfl, rfl⟩
    · exact filled
  · rw [aliases_drilled, List.nodup_append]
    refine ⟨aggregates.nodup accepted, references, ?_⟩
    rintro name member _ reference rfl
    obtain ⟨a, grouped, rfl⟩ := List.mem_map.mp reference
    obtain ⟨d, held, owned⟩ := inside a grouped
    rw [map_name_aggregateProjections fun operator member => accepted.exists_aggregate? member] at member
    rcases List.mem_append.mp member with generated | counted
    · obtain ⟨operator, chosen, same⟩ := List.mem_map.mp generated
      exact others operator chosen d held a owned same
    · have point := (sound d held).point_mem_refText owned
      rw [List.mem_singleton.mp counted] at point
      exact absurd point (by decide)

theorem names_of_values (sound : c.cube.IsSound) (apart : c.cube.HasApartNames)
    {dimension hierarchy : Description} {path : Value} {o : QueryOptions}
    (made : c.values dimension path cuts o hierarchy = .ok q) :
    q.NamesColumns ∧ q.aliases.Nodup := by
  obtain ⟨d, h, items, conditions, along, key, order, held, found, -, -, -, ⟨level, below, keyed⟩,
    rfl⟩ := exists_of_values made
  refine ⟨projections_ne_nil (mem_listedLevels below) keyed, ?_⟩
  show (((listedAttributes h items).map c.projection).map (·.name)).Nodup
  rw [List.map_map]
  exact nodup_of_levels sound apart held found
    ((List.drop_sublist _ _).trans (List.take_sublist _ _))

theorem names_of_detail (sound : c.cube.IsSound) (apart : c.cube.HasApartNames)
    {dimension hierarchy : Description} {path : Value}
    (made : c.detail dimension path cuts hierarchy = .ok q) :
    q.NamesColumns ∧ q.aliases.Nodup := by
  obtain ⟨d, h, items, conditions, along, held, found, -, -, rfl⟩ := exists_of_detail made
  have provides := sound.provides_of_dimensionOf held found
  obtain ⟨level, member⟩ := List.exists_mem_of_ne_nil _ provides.filled
  obtain ⟨key, keyed⟩ := provides.keyed level member
  refine ⟨projections_ne_nil member keyed, ?_⟩
  show ((h.attributes.map c.projection).map (·.name)).Nodup
  rw [List.map_map]
  exact nodup_of_levels sound apart held found (List.Sublist.refl _)

/-- No column of a result is lost. When the names that the checks leave open are apart, in the cube and in
the question, the columns of a compiled query all have different names. So the rows that are found for
it have every column, and the store hands them out as they are. -/
theorem aliases_nodup (settled : c.cube.IsSettled) (sound : c.cube.IsSound)
    (apart : c.cube.HasApartNames) {question : Question} (accepted : question.IsAccepted)
    (choices : question.HasApartNames c) (made : c.compile cuts question = .ok (some q)) :
    q.aliases.Nodup ∧ ∀ db rows, Database.answer? db q = some rows →
      ∀ row ∈ rows, Record.keys row = q.aliases ∧ ∀ mode, Sql.keyed mode row = .ok row := by
  obtain ⟨named, distinct⟩ : q.NamesColumns ∧ q.aliases.Nodup := by
    cases question with
    | summary measure o =>
      obtain ⟨_, made, ⟨⟩⟩ := Result.map_ok.1 made
      exact names_of_summary accepted choices made
    | drill measure o => exact names_of_drill sound apart accepted choices made
    | facts o =>
      obtain ⟨_, made, ⟨⟩⟩ := Result.map_ok.1 made
      obtain ⟨conditions, order, -, -, rfl⟩ := exists_of_facts made
      refine ⟨List.cons_ne_nil _ _, ?_⟩
      show (c.factProjections.map (·.name)).Nodup
      rw [map_name_factProjections]
      exact apart.nodup settled
    | values dimension path o hierarchy =>
      obtain ⟨_, made, ⟨⟩⟩ := Result.map_ok.1 made
      exact names_of_values sound apart made
    | detail dimension path hierarchy =>
      obtain ⟨_, made, ⟨⟩⟩ := Result.map_ok.1 made
      exact names_of_detail sound apart made
  refine ⟨distinct, fun db rows answered row member => ?_⟩
  obtain ⟨⟨types, found⟩, evaluated, rfl⟩ := Option.map_eq_some_iff.mp answered
  obtain ⟨namedToo, same⟩ := named.settled true
  have keys := namedToo.keys_of_evaluate? evaluated row member
  rw [same] at keys
  exact ⟨keys, Sql.keyed_of_nodup (keys ▸ distinct)⟩

end Compiler

/-! ### Names of a market -/

namespace Market

theorem hasApartNames_sales : sales.HasApartNames where
  attributes := by decide
  details := List.nodup_nil
  named := by decide
  plain := by decide
  key := by decide

/-- Goods in two levels that both have a name, with a note that is listed twice and a measure of the
records that were sold. -/
def goods : Fields Part :=
  [("name", .text "sales"), ("measures", .list [.text "record"]),
    ("details", .list [.text "note", .text "note"]),
    ("dimensions", .list [.record [("name", .text "product"), ("levels", .list [
      .record [("name", .text "category"), ("attributes", .list [.text "code", .text "name"])],
      .record [("name", .text "item"), ("attributes", .list [.text "sku", .text "name"])]])]])]

end Market

namespace Compiler

open Market

/-- All columns of the ranked cities of Austria have different names. -/
theorem aliases_nodup_bestCity :
    ∃ q, salesBrowser.compiler.compile inAustria.cuts (.drill (.text "amount") bestCityOptions) =
        .ok (some q) ∧
      q.aliases.Nodup ∧ ∀ rows, Database.answer? [salesTable] q = some rows →
        ∀ row ∈ rows, Record.keys row = q.aliases ∧ ∀ mode, Sql.keyed mode row = .ok row := by
  have accepted : Question.IsAccepted (.drill (.text "amount") bestCityOptions) :=
    isAccepted_bestCityOptions
  have choices : Question.HasApartNames salesBrowser.compiler
      (.drill (.text "amount") bestCityOptions) := by
    intro m known
    cases known
    exact ⟨⟨by decide, by decide⟩, by decide, by decide⟩
  obtain ⟨q, made⟩ : ∃ q, salesBrowser.compiler.compile inAustria.cuts
      (.drill (.text "amount") bestCityOptions) = .ok (some q) := ⟨_, rfl⟩
  obtain ⟨distinct, keys⟩ := aliases_nodup isSettled_sales isSound_sales hasApartNames_sales
    accepted choices made
  exact ⟨q, made, distinct, keys [salesTable]⟩

/-- A cube is accepted whose facts have two columns of one name, and so has a summary of it. -/
theorem exists_repeated_alias :
    ∃ c o, Cube.ofFields goods = .ok c ∧ o.IsAccepted ∧
      (∃ q, (Compiler.of c none).compile [] (.facts .unset) = .ok (some q) ∧ ¬ q.aliases.Nodup) ∧
      ∃ q, (Compiler.of c none).compile [] (.summary (.text "record") o) = .ok (some q) ∧
        ¬ q.aliases.Nodup :=
  ⟨_, { AggregateOptions.unset with aggregations := some ["count"], given := ["aggregations"] }, rfl,
    ⟨[("aggregations", .text "count")], rfl⟩, ⟨_, rfl, by decide⟩, ⟨_, rfl, by decide⟩⟩

end Compiler

end Olap
