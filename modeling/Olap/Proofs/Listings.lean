/-
Members and drill-downs. What is listed below a path can be seen in a drill-down of the slice that is cut
at the path, to the same levels: one of the two queries has the path among its conditions, the other one
among the cuts of the slice, and both group by the same attributes. The drill-down has rows for facts
without a key right below the path as well, and it has aggregates. Apart from these the rows are the
same, because facts are shared out by attributes in one way only.
-/

import Olap.Proofs.Members

namespace Olap

namespace AggregateOptions

/-! ### Options of a drill-down -/

/-- The options of a drill-down to some levels of a dimension, and nothing else. -/
def drillingTo (dimension : String) (levels : List String) : AggregateOptions :=
  { unset with
    rowDimension := some dimension, rowLevels := some levels
    given := ["row_dimension", "row_levels"] }

/-- The fields that ask for a drill-down. -/
def drillFields (dimension : Description) (levels : List String) : Fields Part :=
  [("row_dimension", dimension), ("row_levels", .list (levels.map .text))]

theorem checkLevels_texts (names : List String) :
    (Options.checkLevels (.list (names.map .text))).result = .ok (some names) := by
  have each : (Check.eachFrom Options.checkLevelName 0
      ((names.map Datum.text).map Item.datum)).result = .ok names := by
    rw [List.map_map]
    exact Check.eachFrom_map_ok (fun _ _ => rfl) 0
  exact Check.result_map.2 ⟨names, each, rfl⟩

/-- A drill-down to some levels of a dimension is accepted. -/
theorem accept_drillFields {dimension : Description} {name : String} {levels : List String}
    (named : (Options.checkDimension dimension).result = .ok (some name))
    (filled : name.isEmpty = false) :
    accept .null (drillFields dimension levels) = .ok (drillingTo name levels) := by
  have checked : IsChecked (drillFields dimension levels) (drillingTo name levels) :=
    ⟨⟨rfl, rfl, rfl, rfl, rfl⟩, Check.result_under.2 named, Check.result_under.2 (checkLevels_texts levels),
      rfl, rfl, rfl, rfl, rfl⟩
  have validated : validate (drillingTo name levels) = .ok () := by
    unfold validate
    rw [show isSet (drillingTo name levels).rowDimension = !name.isEmpty from rfl, filled,
      if_neg (by simp)]
    rfl
  have made : ofFields (drillFields dimension levels) = .ok (drillingTo name levels) :=
    ofFields_ok.2 ⟨⟨checked, rfl⟩, rfl, validated⟩
  show Options.acceptFields ofFields .null (drillFields dimension levels) = _
  refine Result.bind_ok.2 ⟨[], rfl, ?_⟩
  show Options.reportInvalid (ofFields (drillFields dimension levels)) = _
  rw [made]
  rfl

end AggregateOptions

namespace Browser

open Olap.Action Compiler

variable {σ : Type} {b : Browser σ} {db : Database} {table : Table}

/-! ### Rows without their aggregates -/

/-- The fields of a row that have one of some names. -/
def fieldsIn (names : List String) (row : Row) : Row := row.filter fun field => names.contains field.1

/-- When all names differ, the items with the names of the last ones are the last ones. -/
theorem filter_contains_map {α : Type} (name : α → String) {first last : List α}
    (distinct : ((first ++ last).map name).Nodup) :
    ((first ++ last).filter fun item => (last.map name).contains (name item)) = last := by
  rw [List.map_append, List.nodup_append] at distinct
  rw [List.filter_append, List.filter_eq_nil_iff.mpr, List.filter_eq_self.mpr, List.nil_append]
  · intro item member
    exact List.contains_iff_mem.mpr (List.mem_map_of_mem member)
  · intro item member contained
    exact distinct.2.2 _ (List.mem_map_of_mem member) _ (List.contains_iff_mem.mp contained) rfl

/-- Without its aggregates, the row of a group has the values of the first fact of the group. -/
theorem fieldsIn_project {c : Compiler} {layer : Layer} {aggregates : List Projection}
    {attributes : List Attribute} {fields : List String}
    (selected : layer.projections = aggregates ++ attributes.map c.projection)
    (plain : ∀ p ∈ layer.projections, p.expression.extreme? = none)
    (distinct : (layer.projections.map (·.name)).Nodup)
    (apart : ∀ a ∈ attributes, a.refText ∉ fields) (some : attributes ≠ []) (group : List Row) :
    fieldsIn (attributes.map (·.refText)) (numberFields fields (layer.project group)) =
      c.memberRow attributes group := by
  have filled : layer.projections.isEmpty = false := by
    rw [selected]
    simpa using fun _ => some
  unfold Layer.project
  rw [filled, if_neg Bool.false_ne_true]
  dsimp only
  rw [standing?_eq_head? plain, selected]
  rw [selected] at distinct
  have names : attributes.map (·.refText) = (attributes.map c.projection).map (·.name) := by
    rw [List.map_map]
    rfl
  unfold fieldsIn numberFields
  rw [List.map_map, List.filter_map, names]
  refine (congrArg _ (filter_contains_map Projection.name distinct)).trans ?_
  unfold memberRow
  rw [List.map_map]
  refine List.map_congr_left fun a member => ?_
  show (a.refText, if fields.contains a.refText then _ else _) = _
  rw [if_neg (by simpa using apart a member)]
  rfl

/-! ### Drilling down at a path -/

/-- A call for the rows of some levels of a dimension. -/
def drillCall (measure dimension : Description) (levels : List String) (patience : Patience) :
    AggregateCall :=
  ⟨measure, .null, AggregateOptions.drillFields dimension levels, .ok [], patience⟩

/-- What a dimension is looked up by is a name of it to the options of a drill-down. -/
theorem checkDimension_of_dimensionOf {c : Cube} {wanted : Description} {d : Dimension}
    (held : c.dimensionOf wanted = .ok d) :
    (Options.checkDimension wanted).result = .ok (some d.name) := by
  obtain ⟨-, -, named⟩ := Cube.dimensionOf_ok held
  unfold Options.checkDimension Coerce.optional Coerce.text
  split
  · rename_i absent
    rw [absent] at named
    cases named
  · rw [named]
    rfl

variable {dimension hierarchy options : Description} {overrides : Fields Part} {path : List Value}
  {d : Dimension} {h : Hierarchy} {level : Level} {key : Attribute} {o : QueryOptions}

/-- There is always a level that is listed. -/
theorem Descends.isDrillDown (down : b.Descends dimension hierarchy path d h level key)
    {names : List String}
    (named : (listedLevels h (path.map pathElement)).map (·.name) = names.map some) :
    (AggregateOptions.drillingTo d.name names).isDrillDown = true := by
  cases names with
  | nil =>
    have member := mem_listedLevels down.normalized.below
    rw [List.map_eq_nil_iff.mp named] at member
    cases member
  | cons => rfl

/-- Levels that are listed are levels to drill down to. -/
theorem Descends.rowAttributes (down : b.Descends dimension hierarchy path d h level key)
    (made : ∃ draft, Dimension.ofDraft draft = .ok d) (declared : h ∈ d.hierarchies)
    {names : List String}
    (named : (listedLevels h (path.map pathElement)).map (·.name) = names.map some) :
    b.compiler.rowAttributes (AggregateOptions.drillingTo d.name names) =
      .ok (listedAttributes h (path.map pathElement)) := by
  obtain ⟨draft, made⟩ := made
  unfold Compiler.rowAttributes
  rw [down.isDrillDown named, if_neg (by simp)]
  refine Result.bind_ok.2 ⟨d, (Cube.dimensionOf_ok down.held).1,
    d.levelAttributes_eq (fun level member => ?_) named⟩
  exact Dimension.find?_of_mem_levels made declared
    (List.mem_of_mem_take (List.mem_of_mem_drop member))

/-- The aggregates of a drill-down without a choice of operators: the sum and the number of records. -/
theorem aggregateProjections_sum (c : Compiler) (m : Attribute) :
    c.aggregateProjections m ["sum"] = [c.aggregateProjection m "sum" .sum, recordProjection] := rfl

/-- No extreme value is asked for by the usual operator. -/
theorem extreme?_groupedLayer (c : Compiler) (m : Attribute) {o : AggregateOptions}
    (usual : o.operators = ["sum"]) (attributes : List Attribute) (conditions : List Predicate)
    (order : List RowOrder) :
    ∀ p ∈ (c.groupedLayer m o attributes conditions order).projections,
      p.expression.extreme? = none := by
  intro p member
  rcases List.mem_append.mp member with aggregated | told
  · rw [usual, aggregateProjections_sum] at aggregated
    rcases List.mem_pair.mp aggregated with rfl | rfl
    · rfl
    · rfl
  · obtain ⟨a, -, rfl⟩ := List.mem_map.mp told
    rfl

/-- The drill-down to the listed levels compiles in the slice that is cut at the path. -/
theorem Descends.drilling (down : b.Descends dimension hierarchy path d h level key)
    (made : ∃ draft, Dimension.ofDraft draft = .ok d) (declared : h ∈ d.hierarchies)
    {names : List String}
    (named : (listedLevels h (path.map pathElement)).map (·.name) = names.map some)
    {measure : Description} {m : Attribute} (measured : b.cube.measure measure = .ok m)
    (distinct : ([fieldOf m.name "sum", recordCount] ++
      (listedAttributes h (path.map pathElement)).map (·.refText)).Nodup)
    {slice : Slice} (hashable : slice.isHashable = true) {conditions : List Predicate}
    (compiled : b.compiler.predicates slice.cuts = .ok conditions) (patience : Patience) :
    ∃ order, b.Drilling slice (drillCall measure dimension names patience)
      (AggregateOptions.drillingTo d.name names) m
      (b.compiler.drilled m (AggregateOptions.drillingTo d.name names) conditions
        (listedAttributes h (path.map pathElement)) order) := by
  have grouped := down.rowAttributes made declared named
  refine ⟨_, AggregateOptions.accept_drillFields (checkDimension_of_dimensionOf down.held)
      (Cube.isEmpty_name_of_dimension (Cube.dimensionOf_ok down.held).1),
    fun given same => (by cases same), measured, hashable,
    drill_ok.2 ⟨down.isDrillDown named, m, conditions, _, _, Cube.measure_of_name measured,
      ⟨compiled, grouped, rfl⟩, rfl⟩, ?_⟩
  rw [aliases_drilled]
  exact distinct

/-- The row of a drill-down has the value of a key that its group has. -/
theorem get?_numberFields_valueIn {c : Compiler} {layer : Layer} {fields : List String}
    (plain : ∀ p ∈ layer.projections, p.expression.extreme? = none)
    (distinct : (layer.projections.map (·.name)).Nodup) {a : Attribute}
    (selected : c.projection a ∈ layer.projections) (apart : a.refText ∉ fields) {group : List Row}
    (filled : group ≠ []) :
    Record.get? (numberFields fields (layer.project group)) a.refText = some (c.valueIn a group) := by
  rw [get?_numberFields_attribute distinct
    ((standing?_eq_head? plain group).trans (List.head?_eq_some_head filled)) selected apart, valueIn,
    List.head?_eq_some_head filled]
  rfl

/-- Without a limit and without computed fields, the rows of a result are the rows that were found,
with numbers for the aggregates. -/
theorem withRows_nil {bare : Aggregation} (unlimited : bare.options.hasLimit = false)
    (found : List Row) :
    withRows bare [] found =
      .ok { bare with
        rows := found.map (numberFields (aggregatedFields bare.measure bare.options.operators)) } := by
  rw [withRows_unlimited bare unlimited, finishRows, ComputedField.extendAll_nil]
  rfl

/-- The drill-down to the listed levels has rows for groups that share out the facts, and a row has the
values of its group besides the aggregates. -/
theorem Descends.perform_drillCall (down : b.Descends dimension hierarchy path d h level key)
    (onTable : b.OverTable db table) (made : ∃ draft, Dimension.ofDraft draft = .ok d)
    (declared : h ∈ d.hierarchies) {levels : List String}
    (named : (listedLevels h (path.map pathElement)).map (·.name) = levels.map some)
    {measure : Description} {m : Attribute} (measured : b.cube.measure measure = .ok m)
    (distinct : ([fieldOf m.name "sum", recordCount] ++
      (listedAttributes h (path.map pathElement)).map (·.refText)).Nodup)
    {slice : Slice} (hashable : slice.isHashable = true) (kept : b.KeepsTrue db.IsAnswer slice)
    {facts : List Row} (restricted : b.factsIn table slice.cuts = .ok facts) (patience : Patience)
    (state : σ) (log : List LogLine) :
    ∃ a after groups rowOf,
      perform (b.call (drillCall measure dimension levels patience)) ⟨slice, state, log⟩ =
        (.ok a, after) ∧
      a.rows = groups.map rowOf ∧
      Shares ((listedAttributes h (path.map pathElement)).map b.compiler.column) groups facts ∧
      ∀ group ∈ groups, group ≠ [] ∧
        fieldsIn ((listedAttributes h (path.map pathElement)).map (·.refText)) (rowOf group) =
          b.compiler.memberRow (listedAttributes h (path.map pathElement)) group ∧
        Record.get? (rowOf group) key.refText = some (b.compiler.valueIn key group) := by
  obtain ⟨conditions, compiled, rfl⟩ := Result.map_ok.1 restricted
  obtain ⟨order, drilling⟩ :=
    down.drilling made declared named measured distinct hashable compiled patience
  obtain ⟨groups, -, whole, answered⟩ := onTable.answer?_drilled m
    (AggregateOptions.drillingTo d.name levels) conditions (listedAttributes h (path.map pathElement))
    order
  obtain ⟨summary, after, -, -, performed⟩ :=
    drilling.perform_answer onTable kept restricted answered state log
  have names := drilling.distinct
  rw [aliases_drilled] at names
  have selectedNames : ((b.compiler.groupedLayer m (AggregateOptions.drillingTo d.name levels)
      (listedAttributes h (path.map pathElement)) conditions order).projections.map (·.name)).Nodup := by
    rwa [map_name_groupedLayer]
  have plain := extreme?_groupedLayer b.compiler m (o := AggregateOptions.drillingTo d.name levels) rfl
    (listedAttributes h (path.map pathElement)) conditions order
  have apart := refText_notMem_aggregatedFields
    (AggregateOptions.isAccepted_of_accept drilling.lawful drilling.accepted) names
  have listedKey : key ∈ listedAttributes h (path.map pathElement) := down.mem_listedAttributes
  have some : listedAttributes h (path.map pathElement) ≠ [] := List.ne_nil_of_mem listedKey
  refine ⟨_, after, groups, fun group => numberFields (aggregatedFields m.name ["sum"])
      ((b.compiler.groupedLayer m (AggregateOptions.drillingTo d.name levels)
        (listedAttributes h (path.map pathElement)) conditions order).project group),
    (performed [] rfl).trans (congrArg (·, after) (withRows_nil rfl _)), List.map_map,
    (shares_groupedLayer _ _ _ _ _ _ _).of_perm (whole rfl rfl), fun group member => ?_⟩
  have filled : group ≠ [] := by
    have among := (whole rfl rfl).mem_iff.mp member
    rw [Layer.groups_eq_groupRows (by simpa [groupedLayer] using some)] at among
    exact ne_nil_of_mem_groupRows among
  refine ⟨filled, fieldsIn_project rfl plain selectedNames apart some group, ?_⟩
  exact get?_numberFields_valueIn plain selectedNames
    (List.mem_append_right _ (List.mem_map_of_mem listedKey)) (apart key listedKey) filled

/-- A group has a fact with a key when its first fact has one. -/
theorem any_present {c : Compiler} {columns : List String} {groups : List (List Row)}
    {facts : List Row} (shares : Shares columns groups facts) {key : Attribute}
    (told : c.column key ∈ columns) {group : List Row} (member : group ∈ groups)
    (filled : group ≠ []) :
    (group.any fun fact => !Cell.isAbsent (fact.cell (c.column key))) =
      !Cell.isAbsent (c.valueIn key group) := by
  rw [valueIn, List.head?_eq_some_head filled, Bool.eq_iff_iff, List.any_eq_true]
  constructor
  · rintro ⟨fact, inside, present⟩
    rw [shares.alike group member _ (List.head_mem filled), List.mem_filter, Cell.sameKey_key,
      List.all_eq_true] at inside
    have same := beq_iff_eq.mp (inside.2 _ told)
    unfold Cell.isAbsent at present ⊢
    rw [← same] at present
    exact present
  · exact fun present => ⟨group.head filled, List.head_mem filled, present⟩

theorem isKeyValue_pathElement {value : Value} (known : Cut.isKeyValue value = true) :
    Cut.isKeyValue (pathElement value) = true := by
  unfold pathElement
  split
  · rfl
  · exact known

/-- What is listed below a path are the rows of a drill-down, in the slice that is cut at the path, to
the levels that are listed: those that have a key right below the path, without the aggregates. -/
theorem listed_rows_perm_drilled_rows (onTable : b.OverTable db table) {slice : Slice}
    {all : List Row} (restricted : b.factsIn table slice.cuts = .ok all)
    (hashable : slice.isHashable = true)
    (down : b.Descends dimension hierarchy path d h level key)
    (made : ∃ draft, Dimension.ofDraft draft = .ok d) (declared : h ∈ d.hierarchies)
    (settled : h.name = none → d.defaultHierarchy = .ok h)
    (known : ∀ value ∈ path, Cut.isKeyValue value = true)
    (asked : b.ListsAll options overrides key o) {names : List String}
    (named : (listedLevels h (path.map pathElement)).map (·.name) = names.map some)
    {measure : Description} {m : Attribute} (measured : b.cube.measure measure = .ok m)
    (distinct : ([fieldOf m.name "sum", recordCount] ++
      (listedAttributes h (path.map pathElement)).map (·.refText)).Nodup)
    (patience drillPatience : Patience) (state : σ) (log : List LogLine) :
    ∃ rows after point,
      perform (b.values dimension (.list path) options overrides hierarchy patience)
        ⟨slice, state, log⟩ = (.ok rows, after) ∧
      slice.cutByPoint dimension (Datum.lift (.list path)) hierarchy = .ok point ∧
      ∀ state log, ∃ a after,
        perform (b.call (drillCall measure dimension names drillPatience)) ⟨point, state, log⟩ =
          (.ok a, after) ∧
        rows.Perm ((a.rows.filter fun row =>
            !Cell.isAbsent ((Record.get? row key.refText).getD .null)).map
          (fieldsIn ((listedAttributes h (path.map pathElement)).map (·.refText)))) := by
  obtain ⟨conditions, along⟩ := exists_pathConditions (c := b.compiler) down.keyed
    (path.map pathElement)
  obtain ⟨groups, stateAfter, logAfter, shares, filled, listed⟩ := down.perform_values asked onTable
    restricted along (List.nodup_append.mp distinct).2.1 patience state log
  obtain ⟨name, resolved, cut⟩ := down.exists_cutByPoint settled
  have atPath := factsIn_append_point restricted (resolved _) down.normalized.length_lt.le along
  have knownToo : ∀ value ∈ path.map pathElement, Cut.isKeyValue value = true := by
    intro value member
    obtain ⟨given, among, rfl⟩ := List.mem_map.mp member
    exact isKeyValue_pathElement (known given among)
  have hashableToo := isHashable_point hashable slice.cube d.name name knownToo
  refine ⟨_, _, _, listed, cut slice path, fun state log => ?_⟩
  obtain ⟨a, after, drilled, rowOf, performed, rows, sharesToo, each⟩ := down.perform_drillCall onTable
    made declared named measured distinct hashableToo (keepsTrue_of_nil b _ rfl) atPath drillPatience
    state log
  refine ⟨a, after, performed, ?_⟩
  have told := List.mem_map_of_mem (f := b.compiler.column) down.mem_listedAttributes
  -- The groups of the drill-down whose facts have the key share out the facts that are listed.
  have withKey := sharesToo.filter
    (fun fact => !Cell.isAbsent (fact.cell (b.compiler.column key))) fun fact _ other _ same => by
      rw [Cell.sameKey_key, List.all_eq_true] at same
      rw [Cell.isAbsent, Cell.isAbsent, beq_iff_eq.mp (same _ told)]
  have order := shares.perm withKey filled fun group member =>
    (each group (List.mem_of_mem_filter member)).1
  rw [rows, List.filter_map, List.map_map]
  refine (order.map _).trans (List.Perm.of_eq ?_)
  have chosen : drilled.filter ((fun row =>
      !Cell.isAbsent ((Record.get? row key.refText).getD .null)) ∘ rowOf) =
        drilled.filter fun group => group.any fun fact =>
          !Cell.isAbsent (fact.cell (b.compiler.column key)) := by
    refine List.filter_congr fun group member => ?_
    rw [any_present sharesToo told member (each group member).1, Function.comp_apply,
      (each group member).2.2]
    rfl
  rw [chosen]
  exact List.map_congr_left fun group member => ((each group (List.mem_of_mem_filter member)).2.1).symm

end Browser

/-! ### Listings of the market -/

namespace Market

open Browser

/-- From cities up to countries, under no name. -/
def upwards : Hierarchy := { nameless with levels := [level "city", level "country"] }

/-- Places with a hierarchy from cities up to countries that has no name and is not the chosen one. -/
def regions : Dimension :=
  { place with hierarchies := [cities, upwards], defaultHierarchyName := some "cities" }

theorem ofDraft_regions :
    Dimension.ofDraft (draft [cities, upwards] (some "cities")) = .ok regions := rfl

/-- A browser of one sale in a region. -/
def regionsBrowser : Browser Unit :=
  ⟨{ sales with dimensions := [regions] }, some (Database.evaluator [firstSale]), .unset⟩

theorem regionsBrowser_overTable : regionsBrowser.OverTable [firstSale] firstSale :=
  ⟨⟨_, rfl, Database.evaluates_evaluator _⟩, rfl⟩

/-- The name of a country. -/
def country : Attribute := (Attribute.ofName .attribute (some "country")).attach "place"

end Market

namespace Browser

open Olap.Action Compiler Market

/-- Below any country there is one known city, and it has a row in the drill-down. -/
theorem listed_rows_perm_drilled_rows_linz :
    ∃ point, inAustria.cutByPoint (.text "place") (Datum.lift (.list [.text "*"])) (.text "cities") =
        .ok point ∧
      ∃ a after, perform (salesBrowser.call (drillCall (.text "amount") (.text "place")
          ["country", "city"] ⟨.null, none⟩)) ⟨point, (), []⟩ = (.ok a, after) ∧
        [[("place.country", .text "AT"), ("place.city", .text "Linz")]].Perm
          ((a.rows.filter fun row =>
            !Cell.isAbsent ((Record.get? row "place.city").getD .null)).map
              (fieldsIn ["place.country", "place.city"])) := by
  have down : salesBrowser.Descends (.text "place") (.text "cities") [.text "*"] place cities
      (level "city") city := ⟨rfl, rfl, keyed_cities, rfl, rfl⟩
  have closed : ∀ value ∈ [(.text "*" : Value)], Cut.isKeyValue value = true := by
    intro value member
    rw [List.mem_singleton.mp member]
    rfl
  have all : salesBrowser.factsIn salesTable inAustria.cuts = .ok salesTable.rows := rfl
  have named : (listedLevels cities [.wildcard]).map (·.name) = ["country", "city"].map some := rfl
  have measured : salesBrowser.cube.measure (.text "amount") =
      .ok (.ofName .measure (some "amount")) := rfl
  obtain ⟨rows, after, point, listed, cut, drilled⟩ :=
    listed_rows_perm_drilled_rows salesBrowser_overTable all rfl down ⟨_, ofDraft_place⟩
      (List.mem_singleton_self _) (fun none => nomatch none) closed
      (⟨rfl, rfl, _, rfl⟩ : salesBrowser.ListsAll .null [] _ .unset) named measured (by decide)
      ⟨.null, none⟩ ⟨.null, none⟩ () []
  have computed : (perform (salesBrowser.values (.text "place") (.list [.text "*"]) .null []
      (.text "cities") ⟨.null, none⟩) ⟨inAustria, (), []⟩).1 =
        .ok [[("place.country", .text "AT"), ("place.city", .text "Linz")]] := by
    cbv
  rw [listed] at computed
  cases computed
  obtain ⟨a, drilledAfter, performed, same⟩ := drilled () []
  exact ⟨point, cut, a, drilledAfter, performed, same⟩

/-- Along a hierarchy that has no name and is not the default, a member is listed that no drill-down
has: the slice is cut at another level, where it has no facts. -/
theorem exists_listed_row_not_drilled_of_nameless :
    regionsBrowser.OverTable [firstSale] firstSale ∧
      Dimension.ofDraft (draft [cities, upwards] (some "cities")) = .ok regions ∧
      upwards ∈ regions.hierarchies ∧
      regionsBrowser.Descends (.object (.dimension regions)) (.object (.hierarchy upwards))
        [.text "Linz"] regions upwards (level "country") country ∧
      (listedLevels upwards [.text "Linz"]).map (·.name) = [some "country"] ∧
      (perform (regionsBrowser.values (.object (.dimension regions)) (.list [.text "Linz"]) .null []
          (.object (.hierarchy upwards)) ⟨.null, none⟩)
        ⟨Slice.full regionsBrowser.cube, (), []⟩).1 = .ok [[("place.country", .text "AT")]] ∧
      ∃ point, (Slice.full regionsBrowser.cube).cutByPoint (.object (.dimension regions))
          (Datum.lift (.list [.text "Linz"])) (.object (.hierarchy upwards)) = .ok point ∧
        ((perform (regionsBrowser.call (drillCall (.text "amount") (.object (.dimension regions))
          ["country"] ⟨.null, none⟩)) ⟨point, (), []⟩).1.map (·.rows)) = .ok [] := by
  have keyed : ∀ level ∈ upwards.levels, ∃ key, level.keyAttribute = .ok key := by
    intro level member
    rcases List.mem_pair.mp member with rfl | rfl
    · exact ⟨_, rfl⟩
    · exact ⟨_, rfl⟩
  have listed : (perform (regionsBrowser.values (.object (.dimension regions))
      (.list [.text "Linz"]) .null [] (.object (.hierarchy upwards)) ⟨.null, none⟩)
        ⟨Slice.full regionsBrowser.cube, (), []⟩).1 = .ok [[("place.country", .text "AT")]] := by
    cbv
  have drilled : (perform (regionsBrowser.call (drillCall (.text "amount")
      (.object (.dimension regions)) ["country"] ⟨.null, none⟩))
        ⟨Slice.ofCuts regionsBrowser.cube [.point "place" none [.text "Linz"]], (), []⟩).1.map
          (·.rows) = .ok [] := by
    cbv
  exact ⟨regionsBrowser_overTable, ofDraft_regions, List.mem_cons_of_mem _ (List.mem_singleton_self _),
    ⟨rfl, rfl, keyed, rfl, rfl⟩, rfl, listed, _, rfl, drilled⟩

end Browser

end Olap
