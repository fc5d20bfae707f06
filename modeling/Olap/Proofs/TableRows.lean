/-
Rows of tables. A result that is drilled down by a dimension is shown as a table along one of its
hierarchies: each row has the key and the label of one level and a path down to it. The level is the
one that was asked for last. Levels can be asked for in any order, so it is the deepest of them only
when the deepest was asked for last; otherwise rows are told by a level further up, and the keys
below it are in the record only.
-/

import Olap.Proofs.Names

namespace Olap

/-! ### Levels of a hierarchy -/

namespace Hierarchy

variable {h : Hierarchy}

/-- A level that has a place is found there, and by its name. -/
theorem levelIndex_ok {name : String} {place : Nat}
    (indexed : h.levelIndex (.text name) = .ok place) :
    ∃ level, h.levels[place]? = some level ∧ level.name = some name ∧
      h.level (.text name) = .ok level := by
  unfold levelIndex at indexed
  split at indexed
  · rename_i found looked
    cases indexed
    obtain ⟨inside, named, before⟩ := List.findIdx?_eq_some_iff_getElem.mp looked
    have first : h.levels.find? (fun level =>
        isNamed level.name (Description.levelName (.text name))) = some h.levels[place] :=
      List.find?_eq_some_iff_getElem.mpr
        ⟨named, place, inside, rfl, fun other earlier => by simpa using before other earlier⟩
    refine ⟨h.levels[place], List.getElem?_eq_getElem inside, beq_iff_eq.mp named, ?_⟩
    unfold level
    rw [first]
  · cases indexed

/-- The keys of the first levels. -/
theorem keys_eq {keyOf : Level → Attribute}
    (keyed : ∀ level ∈ h.levels, level.keyAttribute = .ok (keyOf level)) (count : Nat) :
    h.keys (some count) = .ok ((h.levels.take count).map fun level => (keyOf level).ref) := by
  have first : leading (count : Int) h.levels = h.levels.take count := by
    unfold leading
    rw [if_neg (by omega), Int.natAbs_natCast]
  unfold keys
  rw [show (some (count : Int)).elim h.levels (fun depth => leading depth h.levels) = _ from first,
    allOf_of_each (g := keyOf) fun level member => keyed level (List.mem_of_mem_take member)]
  exact congrArg Except.ok (List.map_map ..)

/-- The greatest place in the hierarchy among the levels of some names. -/
structure IsDeepest (h : Hierarchy) (names : List String) (depth : Nat) : Prop where
  reached : ∃ name ∈ names, h.levelIndex (.text name) = .ok depth
  bounds : ∀ name ∈ names, ∀ place, h.levelIndex (.text name) = .ok place → place ≤ depth

/-- Of the levels of some names one is the deepest. -/
theorem exists_isDeepest {names : List String} (filled : names ≠ [])
    (own : ∀ name ∈ names, ∃ place, h.levelIndex (.text name) = .ok place) :
    ∃ depth, h.IsDeepest names depth := by
  induction names with
  | nil => exact absurd rfl filled
  | cons name rest inductionHypothesis =>
    obtain ⟨⟨place, indexed⟩, others⟩ := List.forall_mem_cons.mp own
    have same {found : Nat} (again : h.levelIndex (.text name) = .ok found) : found = place :=
      Except.ok.inj (again.symm.trans indexed)
    by_cases none : rest = []
    · refine ⟨place, ⟨name, List.mem_cons_self, indexed⟩, ?_⟩
      rw [none]
      exact List.forall_mem_singleton.mpr fun found again => (same again).le
    · obtain ⟨depth, ⟨deep, among, reached⟩, bounds⟩ := inductionHypothesis none others
      rcases Nat.le_total place depth with above | below
      · refine ⟨depth, ⟨deep, List.mem_cons_of_mem _ among, reached⟩,
          List.forall_mem_cons.mpr ⟨?_, bounds⟩⟩
        exact fun found again => (same again).trans_le above
      · refine ⟨place, ⟨name, List.mem_cons_self, indexed⟩, List.forall_mem_cons.mpr ⟨?_, ?_⟩⟩
        · exact fun found again => (same again).le
        · exact fun other member found known => (bounds other member found known).trans below

/-- The last of some names is that of the level at a place. -/
def EndsAt (h : Hierarchy) (names : List String) (depth : Nat) : Prop :=
  ∃ last, names.getLast? = some last ∧ h.levelIndex (.text last) = .ok depth

end Hierarchy

/-- The levels of a sound dimension have their keys. -/
theorem Dimension.Provides.exists_keyOf {d : Dimension} {h : Hierarchy} (provides : d.Provides h) :
    ∃ keyOf : Level → Attribute, ∀ level ∈ h.levels, level.keyAttribute = .ok (keyOf level) := by
  refine ⟨fun level => level.keyAttribute.toOption.getD default, fun level member => ?_⟩
  obtain ⟨key, keyed⟩ := provides.keyed level member
  show level.keyAttribute = .ok (level.keyAttribute.toOption.getD default)
  rw [keyed]
  rfl

/-- A dimension that was looked up is held under its name. -/
theorem Cube.dimension_name {c : Cube} {wanted : Description} {d : Dimension}
    (held : c.dimensionOf wanted = .ok d) : c.dimension d.name = .ok d := by
  unfold dimensionOf at held
  dsimp only at held
  split at held
  · cases held
  · split at held
    · rename_i name _
      have held : c.dimension name = .ok d := held
      have looked := held
      unfold dimension at looked
      split at looked
      · cases looked
      · split at looked
        · rename_i known
          cases looked
          rw [name_of_findDimension? known]
          exact held
        · cases looked
    · cases held

/-! ### Columns of rows -/

/-- The rows have a value in every column of the query. -/
def Query.FillsColumns (q : Query) (rows : List Row) : Prop :=
  ∀ row ∈ rows, ∀ name ∈ q.aliases, (Record.get? row name).isSome

namespace ComputedField

variable {fields : List ComputedField}

/-- Computing fields takes none away. -/
theorem isSome_get?_extend {row extended : Row} (done : extend fields row = .ok extended)
    {key : String} (present : (Record.get? row key).isSome) : (Record.get? extended key).isSome := by
  induction fields generalizing row with
  | nil =>
    cases done
    exact present
  | cons field rest inductionHypothesis =>
    rw [extend] at done
    split at done
    · cases done
    · refine inductionHypothesis done ?_
      by_cases same : field.name = key
      · rw [same, Record.get?_set_self]
        rfl
      · rwa [Record.get?_set_of_ne row _ same]

theorem exists_of_mem_extendAll {rows extended : List Row} (done : extendAll fields rows = .ok extended)
    {row : Row} (member : row ∈ extended) : ∃ before ∈ rows, extend fields before = .ok row := by
  induction rows generalizing extended with
  | nil =>
    cases done
    cases member
  | cons first rest inductionHypothesis =>
    rw [extendAll] at done
    split at done
    · cases done
    · rename_i changed one
      obtain ⟨others, below, rfl⟩ := Result.map_ok.1 done
      rcases List.mem_cons.mp member with rfl | later
      · exact ⟨first, List.mem_cons_self, one⟩
      · obtain ⟨before, inside, same⟩ := inductionHypothesis below later
        exact ⟨before, List.mem_cons_of_mem _ inside, same⟩

end ComputedField

namespace Browser

open Olap.Action Compiler

variable {σ : Type} {b : Browser σ}

/-- A finished row has what the row that was found has. -/
theorem isSome_of_finishRows {measure : Option String} {o : AggregateOptions}
    {computed : List ComputedField} {found rows : List Row}
    (finished : finishRows measure o computed found = .ok rows) {name : String}
    (present : ∀ row ∈ found, (Record.get? row name).isSome) :
    ∀ row ∈ rows, (Record.get? row name).isSome := by
  intro row member
  obtain ⟨numbered, among, extended⟩ := ComputedField.exists_of_mem_extendAll finished member
  obtain ⟨original, inside, rfl⟩ := List.mem_map.mp among
  refine ComputedField.isSome_get?_extend extended ?_
  rw [get?_numberFields, Option.isSome_map]
  exact present original inside

/-- The result of a call is about the cube of the browser, and its rows have all attributes of the levels
that were asked for. -/
theorem StoreAnswers.rows_of_call (given : b.StoreAnswers Query.FillsColumns) {call : AggregateCall}
    {session after : Session σ} {a : Aggregation}
    (done : perform (b.call call) session = (.ok a, after)) :
    a.cube = some b.cube ∧ (a.rows = [] ∨
      ∃ attributes, b.compiler.rowAttributes a.options = .ok attributes ∧
        ∀ column ∈ attributes, ∀ row ∈ a.rows, (Record.get? row column.refText).isSome) := by
  obtain ⟨m, fields, -, -, -, bound, -,
    ⟨-, none⟩ | ⟨query, found, middle, compiled, executed, finished⟩⟩ := rows_of_aggregate done
  · exact ⟨bound, Or.inl none⟩
  · obtain ⟨-, measured, conditions, attributes, order, -, drills, rfl⟩ := drill_ok.1 compiled
    refine ⟨bound, Or.inr ⟨attributes, drills.grouped, fun column member => ?_⟩⟩
    refine isSome_of_finishRows finished fun row inside => ?_
    refine (given.of_execute executed).2 row inside column.refText ?_
    rw [aliases_drilled]
    exact List.mem_append_right _ (List.mem_map_of_mem member)

end Browser

theorem Hierarchy.EndsAt.unique {h : Hierarchy} {names : List String} {place other : Nat}
    (ends : h.EndsAt names place) (again : h.EndsAt names other) : place = other := by
  obtain ⟨last, listed, indexed⟩ := ends
  obtain ⟨same, found, known⟩ := again
  cases listed.symm.trans found
  exact Except.ok.inj (indexed.symm.trans known)

/-- Rows are drilled down to all attributes of the levels that were asked for. -/
theorem Compiler.mem_rowAttributes {c : Compiler} {o : AggregateOptions} {d : Dimension}
    (settled : d.IsSettled) (held : c.cube.dimension d.name = .ok d)
    (drilled : o.rowDimension = some d.name) {attributes : List Attribute}
    (grouped : c.rowAttributes o = .ok attributes) {name : String} (asked : name ∈ o.levels)
    {level : Level} (own : level ∈ d.levels) (named : level.name = some name) {a : Attribute}
    (member : a ∈ level.attributes) : a ∈ attributes := by
  unfold rowAttributes at grouped
  split at grouped
  · rename_i bare
    have empty : o.levels = [] := by simpa [AggregateOptions.isDrillDown] using bare
    rw [empty] at asked
    cases asked
  · obtain ⟨other, looked, found⟩ := Result.bind_ok.1 grouped
    rw [drilled] at looked
    cases held.symm.trans looked
    obtain ⟨levels, inside, names, rfl⟩ := levelAttributes_ok found
    obtain ⟨known, listed, same⟩ : ∃ known ∈ levels, known.name = some name := by
      rw [← List.mem_map, names]
      exact List.mem_map_of_mem asked
    have one := List.inj_on_of_nodup_map (nodup_of_hasRepeats settled.levelsOnce) (inside listed) own
      (same.trans named.symm)
    exact List.mem_flatMap.mpr ⟨level, one ▸ listed, member⟩

/-! ### Paths of rows -/

namespace Aggregation

theorem length_rowPath (record : Row) (keys : List String) (cut : List Value) :
    (rowPath record keys cut).length = keys.length := by
  induction keys generalizing cut with
  | nil => rfl
  | cons key rest inductionHypothesis =>
    rw [rowPath, List.length_cons, inductionHypothesis, List.length_cons]

/-- At each place a path has the record's own key, or else the value of the cut, or else the wildcard. -/
theorem getElem?_rowPath (record : Row) (keys : List String) (cut : List Value) (place : Nat) :
    (rowPath record keys cut)[place]? = keys[place]?.map fun key =>
      (Record.get? record key).getD (cut[place]?.getD .wildcard) := by
  induction keys generalizing cut place with
  | nil => rfl
  | cons key rest inductionHypothesis =>
    rw [rowPath]
    cases place with
    | zero =>
      rw [List.getElem?_cons_zero, List.getElem?_cons_zero, Option.map_some, List.headD_eq_head?_getD,
        List.head?_eq_getElem?]
    | succ place =>
      rw [List.getElem?_cons_succ, List.getElem?_cons_succ, inductionHypothesis, List.getElem?_tail]

/-! ### Rows of results -/

/-- The row that is shown of a record: told by the level at a place, with a path along the keys. -/
def tableRow (a : Aggregation) (d : Dimension) (h : Hierarchy) (depth : Nat)
    (keyOf : Level → Attribute) (key label : Attribute) (record : Row) : TableRow :=
  { key := (Record.get? record key.refText).getD .null
    label := (Record.get? record label.refText).getD .null
    path := rowPath record ((h.levels.take (depth + 1)).map fun level => (keyOf level).refText)
      (cutPath d.name a.cuts)
    isBase := depth + 1 == h.levels.length
    record }

theorem record_tableRow (a : Aggregation) (d : Dimension) (h : Hierarchy) (depth : Nat)
    (keyOf : Level → Attribute) (key label : Attribute) (record : Row) :
    (a.tableRow d h depth keyOf key label record).record = record := rfl

end Aggregation

/-- The path of a row ends at a place of a hierarchy, and wherever the row has a key of its own this is
the value in its path. -/
structure TableRow.KeepsKeys (row : TableRow) (h : Hierarchy) (depth : Nat) : Prop where
  reaches : row.path.length = depth + 1
  own : ∀ (place : Nat) level key value, place ≤ depth → h.levels[place]? = some level →
    level.keyAttribute = .ok key → Record.get? row.record key.refText = some value →
      row.path[place]? = some value

namespace Aggregation

theorem keepsKeys_tableRow (a : Aggregation) (d : Dimension) {h : Hierarchy} {depth : Nat}
    (long : depth < h.levels.length) {keyOf : Level → Attribute}
    (keyed : ∀ level ∈ h.levels, level.keyAttribute = .ok (keyOf level)) (key label : Attribute)
    (record : Row) : (a.tableRow d h depth keyOf key label record).KeepsKeys h depth where
  reaches := by
    rw [tableRow, length_rowPath, List.length_map, List.length_take]
    omega
  own := by
    intro place level found value above there foundKey filled
    cases (keyed level (List.mem_of_getElem? there)).symm.trans foundKey
    rw [record_tableRow] at filled
    rw [tableRow, getElem?_rowPath, List.getElem?_map,
      List.getElem?_take_of_lt (Nat.lt_succ_of_le above), there]
    show some ((Record.get? record (keyOf level).refText).getD _) = some value
    rw [filled]
    rfl

/-- A result that is drilled down by a dimension, as it is looked at along a hierarchy of it. -/
structure Shows (a : Aggregation) (dimension hierarchy : Description) (d : Dimension)
    (h : Hierarchy) : Prop where
  bound : ∃ c, a.cube = some c ∧ c.IsSound ∧ c.dimensionOf dimension = .ok d
  found : d.hierarchy hierarchy = .ok h
  drilled : a.options.rowDimension = some d.name

variable {a : Aggregation} {dimension hierarchy : Description} {d : Dimension} {h : Hierarchy}

theorem Shows.provides (shows : a.Shows dimension hierarchy d h) : d.Provides h := by
  obtain ⟨c, -, sound, held⟩ := shows.bound
  exact sound.provides_of_dimensionOf held shows.found

/-- The table has one row of every record, told by the level that was asked for last. -/
theorem Shows.exists_tableRows (shows : a.Shows dimension hierarchy d h) {depth : Nat}
    (ends : h.EndsAt a.options.levels depth) {keyOf : Level → Attribute}
    (keyed : ∀ level ∈ h.levels, level.keyAttribute = .ok (keyOf level)) :
    ∃ level label, h.levels[depth]? = some level ∧ level.labelAttributeOf = .ok label ∧
      a.tableRows dimension hierarchy =
        .ok (a.rows.map (a.tableRow d h depth keyOf (keyOf level) label)) := by
  obtain ⟨c, bound, sound, held⟩ := shows.bound
  obtain ⟨last, listed, indexed⟩ := ends
  obtain ⟨level, below, -, looked⟩ := Hierarchy.levelIndex_ok indexed
  have member := List.mem_of_getElem? below
  have settled := (sound d (Cube.mem_of_dimensionOf held)).levels level (shows.provides.own member)
  obtain ⟨label, labelled⟩ := settled.1.exists_labelAttribute
  refine ⟨level, label, below, labelled, ?_⟩
  have keys := h.keys_eq keyed (depth + 1)
  rw [Nat.cast_succ] at keys
  -- Nothing fails on the way: the dimension, the hierarchy, the level, its keys and its label are there.
  simp only [tableRows, bound, held, shows.found, listed, shows.drilled, bne_self_eq_false, looked,
    indexed, keys, keyed level member, labelled, bind, Except.bind, pure, Except.pure]
  rw [if_neg (by simp), List.map_map]
  rfl

end Aggregation

/-! ### A table of the market -/

namespace Market

/-- One row for every query, with the names of the columns in the columns. -/
def namesOfColumns (q : Query) : List Row := [q.aliases.map fun name => (name, .text name)]

/-- The amounts, drilled down to some levels of the places. -/
def sumByLevels (levels : List String) : AggregateCall :=
  sum [("row_dimension", .text "place"), ("row_levels", .list (levels.map .text))]

/-- A browser of the sales whose store names columns. -/
def namingBrowser : Browser Unit := ⟨sales, some (Store.steady namesOfColumns), .unset⟩

theorem fillsColumns_namingBrowser : namingBrowser.StoreAnswers Query.FillsColumns := by
  rintro _ ⟨⟩ request state rows answered
  cases answered
  refine List.forall_mem_singleton.mpr fun name member => ?_
  rw [← Record.contains_eq_isSome_get?, Record.contains, List.any_eq_true]
  exact ⟨(name, .text name), List.mem_map_of_mem member, beq_self_eq_true _⟩

end Market

/-! ### What a row describes -/

open Market

/-- A row of a table describes the level at a place of a hierarchy: it has the key and the label of that
level, its path ends there and has the keys of the levels of some names in their places, and the row is
one of the lowest level exactly when the level is. -/
structure TableRow.Describes (row : TableRow) (h : Hierarchy) (names : List String) (depth : Nat) :
    Prop where
  told : ∃ level key label, h.levels[depth]? = some level ∧ level.keyAttribute = .ok key ∧
    level.labelAttributeOf = .ok label ∧ Record.get? row.record key.refText = some row.key ∧
    Record.get? row.record label.refText = some row.label
  reaches : row.path.length = depth + 1
  leads : ∀ name ∈ names, ∃ place level key value, h.levelIndex (.text name) = .ok place ∧
    h.levels[place]? = some level ∧ level.keyAttribute = .ok key ∧
    Record.get? row.record key.refText = some value ∧ row.path[place]? = some value
  base : row.isBase = true ↔ depth + 1 = h.levels.length

namespace Aggregation

variable {a : Aggregation} {dimension hierarchy : Description} {d : Dimension} {h : Hierarchy}

/-- The records have all attributes of the levels that were asked for. -/
def HasLevels (a : Aggregation) (d : Dimension) : Prop :=
  ∀ row ∈ a.rows, ∀ name ∈ a.options.levels, ∀ level ∈ d.levels, level.name = some name →
    ∀ column ∈ level.attributes, (Record.get? row column.refText).isSome

theorem hasLevels_of_call {σ : Type} {b : Browser σ} (given : b.StoreAnswers Query.FillsColumns)
    {call : AggregateCall} {session after : Session σ}
    (done : Action.perform (b.call call) session = (.ok a, after))
    (held : b.cube.dimension d.name = .ok d) (settled : d.IsSettled)
    (drilled : a.options.rowDimension = some d.name) : a.HasLevels d := by
  obtain ⟨-, none | ⟨attributes, grouped, present⟩⟩ := given.rows_of_call done
  · intro row member
    rw [none] at member
    cases member
  · intro row member name asked level own named column among
    exact present column
      (Compiler.mem_rowAttributes settled held drilled grouped asked own named among) row member

/-- Each record that is shown by the deepest level has a row that describes it. -/
theorem Shows.describes (shows : a.Shows dimension hierarchy d h) (has : a.HasLevels d)
    (own : ∀ name ∈ a.options.levels, ∃ place, h.levelIndex (.text name) = .ok place) {depth : Nat}
    (deepest : h.IsDeepest a.options.levels depth) {keyOf : Level → Attribute}
    (keyed : ∀ level ∈ h.levels, level.keyAttribute = .ok (keyOf level)) {level : Level}
    (below : h.levels[depth]? = some level) {label : Attribute}
    (labelled : level.labelAttributeOf = .ok label) {record : Row} (member : record ∈ a.rows) :
    (a.tableRow d h depth keyOf (keyOf level) label record).Describes h a.options.levels depth := by
  have inside := shows.provides.own
  obtain ⟨name, asked, indexed⟩ := deepest.reached
  obtain ⟨same, again, named, -⟩ := Hierarchy.levelIndex_ok indexed
  obtain rfl : level = same := Option.some.inj (below.symm.trans again)
  have among := List.mem_of_getElem? below
  have present := has record member name asked level (inside among) named
  obtain ⟨key, keyFound⟩ := Option.isSome_iff_exists.mp
    (present _ (Level.keyAttribute_mem (keyed level among)))
  obtain ⟨shown, labelFound⟩ := Option.isSome_iff_exists.mp
    (present _ (Level.attributeNamed_mem labelled))
  have keeps := a.keepsKeys_tableRow d (List.getElem?_eq_some_iff.mp below).1 keyed (keyOf level)
    label record
  refine ⟨⟨level, _, label, below, keyed level among, labelled, ?_, ?_⟩, ?_, ?_, beq_iff_eq⟩
  · rw [tableRow, keyFound]
    rfl
  · rw [tableRow, labelFound]
    rfl
  · exact keeps.reaches
  · intro other listed
    obtain ⟨place, found⟩ := own other listed
    obtain ⟨above, there, called, -⟩ := Hierarchy.levelIndex_ok found
    have held := List.mem_of_getElem? there
    obtain ⟨value, filled⟩ := Option.isSome_iff_exists.mp (has record member other listed above
      (inside held) called _ (Level.keyAttribute_mem (keyed above held)))
    exact ⟨place, above, _, value, found, there, keyed above held, filled,
      keeps.own place above _ value (deepest.bounds other listed place found) there (keyed above held)
        filled⟩

/-- Table rows describe the deepest level that was drilled down to exactly when that level was asked for
last: they have its key and its label, and a path down to it with the keys of all levels that were asked
for. -/
theorem tableRows_describe_deepest {σ : Type} {b : Browser σ} (sound : b.cube.IsSound)
    (given : b.StoreAnswers Query.FillsColumns) {call : AggregateCall} {session after : Session σ}
    (done : Action.perform (b.call call) session = (.ok a, after))
    (held : b.cube.dimensionOf dimension = .ok d) (found : d.hierarchy hierarchy = .ok h)
    (drilled : a.options.rowDimension = some d.name) (filled : a.options.levels ≠ [])
    (own : ∀ name ∈ a.options.levels, ∃ place, h.levelIndex (.text name) = .ok place) :
    ∃ rows depth, a.tableRows dimension hierarchy = .ok rows ∧ rows.map (·.record) = a.rows ∧
      h.IsDeepest a.options.levels depth ∧
      ∀ row ∈ rows, row.Describes h a.options.levels depth ↔ h.EndsAt a.options.levels depth := by
  have known := Cube.dimension_name held
  have shows : a.Shows dimension hierarchy d h :=
    ⟨⟨b.cube, (given.rows_of_call done).1, sound, held⟩, found, drilled⟩
  have has := hasLevels_of_call given done known (sound d (Cube.mem_of_dimensionOf held)) drilled
  obtain ⟨keyOf, keyed⟩ := shows.provides.exists_keyOf
  obtain ⟨last, listed⟩ := Option.isSome_iff_exists.mp (List.getLast?_isSome.mpr filled)
  obtain ⟨place, indexed⟩ := own last (List.mem_of_getLast? listed)
  have ends : h.EndsAt a.options.levels place := ⟨last, listed, indexed⟩
  obtain ⟨level, label, below, labelled, shown⟩ := shows.exists_tableRows ends keyed
  obtain ⟨depth, deepest⟩ := Hierarchy.exists_isDeepest filled own
  refine ⟨_, depth, shown, ?_, deepest, ?_⟩
  · rw [List.map_map]
    exact List.map_id _
  · intro row member
    obtain ⟨record, among, rfl⟩ := List.mem_map.mp member
    constructor
    · intro describes
      have keeps := a.keepsKeys_tableRow d (List.getElem?_eq_some_iff.mp below).1 keyed (keyOf level)
        label record
      obtain rfl : place = depth := Nat.succ.inj (keeps.reaches.symm.trans describes.reaches)
      exact ends
    · intro endsThere
      obtain rfl := ends.unique endsThere
      exact shows.describes has own deepest keyed below labelled among

theorem tableRows_describe_deepest_byCity :
    ∃ a after rows, Action.perform (namingBrowser.call (sumByLevels ["country", "city"]))
        ⟨Slice.ofCuts sales [], (), []⟩ = (.ok a, after) ∧
      a.tableRows (.text "place") .null = .ok rows ∧ rows.length = 1 ∧
      ∀ row ∈ rows, row.Describes cities ["country", "city"] 1 := by
  obtain ⟨a, after, done, drilled, listed, one⟩ :
      ∃ a after, Action.perform (namingBrowser.call (sumByLevels ["country", "city"]))
          ⟨Slice.ofCuts sales [], (), []⟩ = (.ok a, after) ∧
        a.options.rowDimension = some "place" ∧ a.options.levels = ["country", "city"] ∧
        a.rows.length = 1 := ⟨_, _, rfl, rfl, rfl, rfl⟩
  have held : sales.dimensionOf (.text "place") = .ok place := rfl
  have found : place.hierarchy .null = .ok cities := rfl
  have own : ∀ name ∈ a.options.levels, ∃ place, cities.levelIndex (.text name) = .ok place := by
    rw [listed]
    exact List.forall_mem_cons.mpr ⟨⟨0, rfl⟩, List.forall_mem_singleton.mpr ⟨1, rfl⟩⟩
  obtain ⟨rows, depth, shown, same, deepest, describes⟩ :=
    tableRows_describe_deepest isSound_sales fillsColumns_namingBrowser done held found drilled
      (by rw [listed]; exact List.cons_ne_nil _ _) own
  rw [listed] at deepest describes
  obtain rfl : depth = 1 := by
    obtain ⟨name, member, reached⟩ := deepest.reached
    obtain ⟨level, below, -⟩ := Hierarchy.levelIndex_ok reached
    have long : depth < 2 := (List.getElem?_eq_some_iff.mp below).1
    have deep : 1 ≤ depth := deepest.bounds "city" (by decide) 1 rfl
    omega
  refine ⟨a, after, rows, done, shown, ?_, fun row inside =>
    (describes row inside).mpr ⟨"city", rfl, rfl⟩⟩
  rw [← one, ← same, List.length_map]

/-- With the levels the other way round, rows are told by the countries. -/
theorem exists_tableRows_of_countries :
    ∃ a after rows, Action.perform (namingBrowser.call (sumByLevels ["city", "country"]))
        ⟨Slice.ofCuts sales [], (), []⟩ = (.ok a, after) ∧
      a.tableRows (.text "place") .null = .ok rows ∧ rows.length = 1 ∧
      cities.IsDeepest ["city", "country"] 1 ∧
      ∀ row ∈ rows, ¬row.Describes cities ["city", "country"] 1 := by
  obtain ⟨a, after, done, row, shown, short⟩ :
      ∃ a after, Action.perform (namingBrowser.call (sumByLevels ["city", "country"]))
          ⟨Slice.ofCuts sales [], (), []⟩ = (.ok a, after) ∧
        ∃ row, a.tableRows (.text "place") .null = .ok [row] ∧ row.path.length = 1 :=
    ⟨_, _, rfl, _, rfl, rfl⟩
  refine ⟨a, after, [row], done, shown, rfl, ⟨⟨"city", by decide, rfl⟩, ?_⟩,
    List.forall_mem_singleton.mpr fun describes => ?_⟩
  · exact List.forall_mem_cons.mpr ⟨fun place found => (Except.ok.inj found).ge,
      List.forall_mem_singleton.mpr fun place found => (Except.ok.inj found).ge.trans (by decide)⟩
  · exact absurd (short.symm.trans describes.reaches) (by decide)

end Aggregation

end Olap
