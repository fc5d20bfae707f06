/-
Listing the members below a path. The query for them groups the facts that the cuts and the path agree
on by the attributes of the levels that are listed, as far as these facts have a key at the next level.
So the listed rows stand for groups which share out these facts. A slice that is cut one level deeper,
at the key of a row, has the facts of all groups with this key. Listed keys therefore lead to every fact
that goes further down, and different keys to different facts.
-/

import Olap.Proofs.Paths

namespace Olap

/-! ### Groups without aggregates -/

namespace Compiler

variable {c : Compiler} {cuts : List Cut}

/-- The value of an attribute that the first row of a group has. -/
def valueIn (c : Compiler) (a : Attribute) (group : List Row) : Value :=
  (group.head?.map (Row.cell · (c.column a))).getD .null

/-- The row of the values that a group has of attributes. -/
def memberRow (c : Compiler) (attributes : List Attribute) (group : List Row) : Row :=
  attributes.map fun a => (a.refText, c.valueIn a group)

/-- The layer that lists members: rows are grouped by attributes as far as a column is present. -/
def memberLayer (c : Compiler) (attributes : List Attribute) (conditions : List Predicate)
    (column : String) (order : List RowOrder) (o : QueryOptions) : Layer :=
  { projections := attributes.map c.projection
    predicates := conditions ++ [.present column], groupBy := attributes.map c.column
    orderBy := order, limit := o.limitRows, offset := o.offset, label := "dimension_values" }

/-- The facts that have a key. -/
def withKey (c : Compiler) (key : Attribute) (facts : List Row) : List Row :=
  facts.filter fun fact => !Cell.isAbsent (fact.cell (c.column key))

/-- The levels that are listed: from the first wildcard of the path down to the level below it. -/
def listedLevels (h : Hierarchy) (path : List Value) : List Level :=
  (h.levels.take (path.length + 1)).drop (firstOpen path)

/-- The attributes of the levels that are listed. -/
def listedAttributes (h : Hierarchy) (path : List Value) : List Attribute :=
  (listedLevels h path).flatMap (·.attributes)

theorem firstOpen_le (path : List Value) : firstOpen path ≤ path.length :=
  (List.takeWhile_prefix _).length_le

theorem mem_listedLevels {h : Hierarchy} {path : List Value} {level : Level}
    (below : h.levels[path.length]? = some level) : level ∈ listedLevels h path := by
  have inside := firstOpen_le path
  refine List.mem_of_getElem? (i := path.length - firstOpen path) ?_
  rw [listedLevels, List.getElem?_drop, List.getElem?_take, if_pos (by omega),
    Nat.add_sub_cancel' inside]
  exact below

/-- Without extreme values the first row stands for a group. -/
theorem standing?_eq_head? {layer : Layer}
    (plain : ∀ p ∈ layer.projections, p.expression.extreme? = none) (group : List Row) :
    layer.standing? group = group.head? := by
  have none : layer.lastExtreme? = none := by
    unfold Layer.lastExtreme?
    rw [List.filterMap_eq_nil_iff.mpr]
    · rfl
    · intro expression member
      obtain ⟨p, selected, rfl⟩ := List.mem_map.mp (List.mem_eraseDups.mp member)
      exact plain p selected
  unfold Layer.standing?
  rw [none]

/-- A layer that selects attributes makes of a group the row of their values. -/
theorem project_eq_memberRow {layer : Layer} {attributes : List Attribute}
    (selected : layer.projections = attributes.map c.projection) (some : attributes ≠ []) :
    layer.project = c.memberRow attributes := by
  have plain : ∀ p ∈ layer.projections, p.expression.extreme? = none := by
    intro p member
    rw [selected] at member
    obtain ⟨a, -, rfl⟩ := List.mem_map.mp member
    rfl
  have filled : layer.projections.isEmpty = false := by simpa [selected] using some
  funext group
  unfold Layer.project
  rw [filled, if_neg Bool.false_ne_true]
  dsimp only
  rw [standing?_eq_head? plain, selected]
  unfold memberRow
  rw [List.map_map]
  rfl

/-- The groups of which members are listed share out the facts that meet the conditions and have the
key. -/
theorem shares_memberLayer {attributes : List Attribute} (some : attributes ≠ [])
    (conditions more : List Predicate) (key : Attribute) (order : List RowOrder) (o : QueryOptions)
    (types : ColumnTypes) (rows : List Row) {groups : List (List Row)}
    (sorted : groups.Perm ((c.memberLayer attributes (conditions ++ more) (c.column key) order o).groups
      (selectRows types
        (c.memberLayer attributes (conditions ++ more) (c.column key) order o).predicates rows))) :
    Shares (attributes.map c.column) groups
        (c.withKey key ((selectRows types conditions rows).filter fun fact =>
          more.all (Predicate.holds types fact))) ∧
      ∀ group ∈ groups, group ≠ [] := by
  have selected : selectRows types
      (c.memberLayer attributes (conditions ++ more) (c.column key) order o).predicates rows =
        c.withKey key ((selectRows types conditions rows).filter fun fact =>
          more.all (Predicate.holds types fact)) := by
    rw [memberLayer, selectRows_append, selectRows_append, withKey]
    refine List.filter_congr fun fact _ => ?_
    rw [List.all_cons, List.all_nil, Bool.and_true]
    rfl
  rw [selected, Layer.groups_eq_groupRows (by simpa [memberLayer] using some)] at sorted
  exact ⟨(shares_groupRows _ _ _).of_perm sorted, fun group member =>
    ne_nil_of_mem_groupRows (sorted.mem_iff.mp member)⟩

/-- The query that lists the members of a level below a path. -/
theorem values_eq {dimension hierarchy : Description} {path : Value} {items : List Value}
    {o : QueryOptions} {d : Dimension} {h : Hierarchy} {level : Level} {key : Attribute}
    {along : List Predicate} {order : List RowOrder}
    (held : c.cube.dimensionOf dimension = .ok d) (found : d.hierarchy hierarchy = .ok h)
    (given : normalizePath path = .ok items) (below : h.levels[items.length]? = some level)
    (keyed : level.keyAttribute = .ok key)
    (compiled : c.pathConditions h.levels items = .ok along)
    (ordered : c.orderings o [] [c.column key] = .ok order) (cuts : List Cut) :
    c.values dimension path cuts o hierarchy = (c.predicates cuts).map fun conditions =>
      .scan c.table
        (c.memberLayer (listedAttributes h items) (conditions ++ along) (c.column key) order o) := by
  have shorter := (List.getElem?_eq_some_iff.mp below).1
  have next : h.nextLevel items = .ok (some level) := by
    unfold Hierarchy.nextLevel
    rw [if_neg (by omega), below]
  have pathCompiled := pathPredicates_ok.2 ⟨shorter.le, compiled⟩
  unfold values
  simp only [held, found, given, next, pathCompiled, keyed, ordered, bind, Except.bind]
  cases c.predicates cuts <;> rfl

theorem exists_of_values {dimension hierarchy : Description} {path : Value} {o : QueryOptions}
    {q : Query} (made : c.values dimension path cuts o hierarchy = .ok q) :
    ∃ d h items conditions along key order, c.cube.dimensionOf dimension = .ok d ∧
      d.hierarchy hierarchy = .ok h ∧ c.predicates cuts = .ok conditions ∧
      c.pathConditions h.levels items = .ok along ∧
      c.orderings o [] [c.column key] = .ok order ∧
      (∃ level, h.levels[items.length]? = some level ∧ level.keyAttribute = .ok key) ∧
      q = .scan c.table
        (c.memberLayer (listedAttributes h items) (conditions ++ along) (c.column key) order o) := by
  obtain ⟨d, held, made⟩ := Result.bind_ok.1 made
  obtain ⟨h, found, made⟩ := Result.bind_ok.1 made
  obtain ⟨items, -, made⟩ := Result.bind_ok.1 made
  obtain ⟨level?, next, made⟩ := Result.bind_ok.1 made
  cases level? with
  | none => cases made
  | some level =>
    obtain ⟨conditions, compiled, made⟩ := Result.bind_ok.1 made
    obtain ⟨along, pathCompiled, made⟩ := Result.bind_ok.1 made
    obtain ⟨key, keyed, made⟩ := Result.bind_ok.1 made
    obtain ⟨order, ordered, made⟩ := Result.bind_ok.1 made
    cases made
    have below : h.levels[items.length]? = some level := by
      unfold Hierarchy.nextLevel at next
      split at next
      · cases next
      · exact Except.ok.inj next
    exact ⟨d, h, items, conditions, along, key, order, held, found, compiled,
      (pathPredicates_ok.1 pathCompiled).2, ordered, ⟨level, below, keyed⟩, rfl⟩

end Compiler

namespace Browser

open Olap.Action Compiler

variable {σ : Type} {b : Browser σ} {db : Database} {table : Table}

/-! ### Listed rows -/

/-- Options that are accepted, do not ask for a page, and can be ordered by. -/
structure ListsAll (b : Browser σ) (options : Description) (overrides : Fields Part)
    (key : Attribute) (o : QueryOptions) : Prop where
  accepted : (QueryOptions.accept options overrides).map Options.base = .ok o
  unpaged : o.page = none
  ordered : ∃ order, b.compiler.orderings o [] [b.compiler.column key] = .ok order

variable {dimension hierarchy options : Description} {overrides : Fields Part} {path : List Value}
  {d : Dimension} {h : Hierarchy} {level : Level} {key : Attribute} {o : QueryOptions}

/-- The key of the level right below the path is listed. -/
theorem Descends.mem_listedAttributes (down : b.Descends dimension hierarchy path d h level key) :
    key ∈ listedAttributes h (path.map pathElement) :=
  List.mem_flatMap.mpr
    ⟨level, mem_listedLevels down.normalized.below, Level.keyAttribute_mem down.keyOfLevel⟩

/-- The listed rows belong to groups that share out the facts which have a key right below the path. -/
theorem Descends.perform_values (down : b.Descends dimension hierarchy path d h level key)
    (asked : b.ListsAll options overrides key o) (onTable : b.OverTable db table) {slice : Slice}
    {facts : List Row} (restricted : b.factsIn table slice.cuts = .ok facts)
    {conditions : List Predicate}
    (along : b.compiler.pathConditions h.levels (path.map pathElement) = .ok conditions)
    (distinct : ((listedAttributes h (path.map pathElement)).map (·.refText)).Nodup)
    (patience : Patience) (state : σ) (log : List LogLine) :
    ∃ groups stateAfter logAfter,
      Shares ((listedAttributes h (path.map pathElement)).map b.compiler.column) groups
        (b.compiler.withKey key
          (facts.filter fun fact => conditions.all (Predicate.holds table.columns fact))) ∧
      (∀ group ∈ groups, group ≠ []) ∧
      perform (b.values dimension (.list path) options overrides hierarchy patience)
          ⟨slice, state, log⟩ =
        (.ok (groups.map (b.compiler.memberRow (listedAttributes h (path.map pathElement)))),
          ⟨slice, stateAfter, logAfter⟩) := by
  obtain ⟨others, compiled, rfl⟩ := Result.map_ok.1 restricted
  obtain ⟨order, ordered⟩ := asked.ordered
  obtain ⟨given, accepted, rfl⟩ := Result.map_ok.1 asked.accepted
  have some : listedAttributes h (path.map pathElement) ≠ [] :=
    List.ne_nil_of_mem down.mem_listedAttributes
  have normalized : normalizePath (.list path) = .ok (path.map pathElement) := rfl
  have query := (values_eq down.held down.found normalized down.normalized.below down.keyOfLevel along
    ordered slice.cuts).trans (Result.map_ok.2 ⟨others, compiled, rfl⟩)
  -- The aliases of the query are the references of the attributes.
  have aliases : (Query.scan b.compiler.table (b.compiler.memberLayer
      (listedAttributes h (path.map pathElement)) (others ++ conditions) (b.compiler.column key) order
      given.base)).aliases.Nodup := by
    show ((List.map b.compiler.projection _).map (·.name)).Nodup
    rw [List.map_map]
    exact distinct
  obtain ⟨groups, sorted, made⟩ := Layer.apply_eq_map_of_unpaged
    (b.compiler.memberLayer (listedAttributes h (path.map pathElement)) (others ++ conditions)
      (b.compiler.column key) order given.base)
    (by show given.base.page.bind _ = none; rw [asked.unpaged]; rfl)
    (by show given.base.page.map _ = none; rw [asked.unpaged]; rfl) false table.columns table.rows
  obtain ⟨stateAfter, logAfter, executed⟩ := onTable.perform_execute aliases
    (exists_statement_scan _ (isKnown_of_listing compiled along (b.compiler.column key)))
    ((Database.answer?_scan onTable.known _).trans (congrArg _ made)) patience ⟨slice, state, log⟩
  rw [project_eq_memberRow rfl some] at executed
  obtain ⟨shares, filled⟩ := shares_memberLayer some _ _ _ _ _ _ _ sorted
  refine ⟨groups, stateAfter, logAfter, shares, filled, ?_⟩
  exact perform_bind_ok.2 ⟨given, _, perform_require_ok.2 ⟨accepted, rfl⟩, perform_bind_ok.2
      ⟨_, _, rfl, perform_bind_ok.2 ⟨_, _, perform_require_ok.2 ⟨query, rfl⟩, executed⟩⟩⟩

/-- A listed row has the values of its group. -/
theorem get?_memberRow {c : Compiler} {attributes : List Attribute}
    (distinct : (attributes.map (·.refText)).Nodup) {a : Attribute} (member : a ∈ attributes)
    (group : List Row) :
    Record.get? (c.memberRow attributes group) a.refText = some (c.valueIn a group) := by
  refine Record.get?_of_mem ?_ (List.mem_map.mpr ⟨a, member, rfl⟩)
  rw [Record.keys, memberRow, List.map_map]
  exact distinct

/-- A group has the value of a key that its facts have, and every fact is in such a group. -/
theorem exists_fact_of_group {c : Compiler} {columns : List String} {groups : List (List Row)}
    {facts : List Row} (shares : Shares columns groups facts)
    (filled : ∀ group ∈ groups, group ≠ []) (key : Attribute) {group : List Row}
    (member : group ∈ groups) : ∃ fact ∈ facts, c.valueIn key group = fact.cell (c.column key) := by
  have some := filled group member
  refine ⟨group.head some, shares.mem_of_mem member (List.head_mem some), ?_⟩
  rw [valueIn, List.head?_eq_some_head some]
  rfl

theorem exists_group_of_fact {c : Compiler} {columns : List String} {groups : List (List Row)}
    {facts : List Row} (shares : Shares columns groups facts) {key : Attribute}
    (told : c.column key ∈ columns) {fact : Row} (member : fact ∈ facts) :
    ∃ group ∈ groups, Cell.same (c.valueIn key group) (fact.cell (c.column key)) = true := by
  obtain ⟨group, known, inside⟩ := List.mem_flatten.mp (shares.whole.mem_iff.mpr member)
  have some : group ≠ [] := List.ne_nil_of_mem inside
  refine ⟨group, known, ?_⟩
  have alike := inside
  rw [shares.alike group known _ (List.head_mem some), List.mem_filter, Cell.sameKey_key,
    List.all_eq_true] at alike
  rw [valueIn, List.head?_eq_some_head some]
  exact alike.2 _ told

/-! ### Members and their facts -/

/-- Values without repetition that others are represented by. -/
structure Represents (chosen all : List Value) : Prop where
  among : chosen ⊆ all
  covers : ∀ value ∈ all, ∃ one ∈ chosen, Cell.same one value = true
  apart : chosen.Pairwise fun value other => Cell.same value other = false

/-- The facts with a value in a column, for values that are different and that every fact has one of:
together they are all facts, and they are different facts. -/
theorem Represents.share_out {chosen all : List Value} (represents : Represents chosen all)
    {column : String} {facts : List Row}
    (known : ∀ fact ∈ facts, ∃ value ∈ all, Cell.same value (fact.cell column) = true) :
    (chosen.map fun value => facts.filter fun fact => Cell.same value (fact.cell column)).flatten.Perm
        facts ∧
      chosen.Pairwise fun value other =>
        (facts.filter fun fact => Cell.same value (fact.cell column)).Disjoint
          (facts.filter fun fact => Cell.same other (fact.cell column)) := by
  have single : ∀ value fact, Cell.sameKey [value] (Row.key [column] fact) =
      Cell.same value (fact.cell column) := fun value fact => Bool.and_true _
  constructor
  · have keys : (chosen.map ([·])).Pairwise fun key other => Cell.sameKey key other = false := by
      refine List.pairwise_map.mpr (represents.apart.imp fun {value other} different => ?_)
      rw [Cell.sameKey, different]
      rfl
    have parts := flatten_filter_perm [column] facts _ keys
    simp only [List.map_map, Function.comp_def, List.any_map, single] at parts
    refine parts.trans (List.Perm.of_eq (List.filter_eq_self.mpr fun fact member => ?_))
    obtain ⟨value, listed, same⟩ := known fact member
    obtain ⟨one, oneMember, alike⟩ := represents.covers value listed
    exact List.any_eq_true.mpr ⟨one, oneMember, Cell.same_trans alike same⟩
  · refine represents.apart.imp fun {value other} different fact left right => ?_
    have first := (List.mem_filter.mp left).2
    rw [Cell.same_trans first (Cell.same_symm other _ ▸ (List.mem_filter.mp right).2)] at different
    cases different

/-- A fact with the value of a key has the key. -/
theorem filter_withKey {c : Compiler} {key : Attribute} {value : Value}
    (present : Cell.isAbsent value = false) (facts : List Row) :
    ((c.withKey key facts).filter fun fact => Cell.same value (fact.cell (c.column key))) =
      facts.filter fun fact => Cell.same value (fact.cell (c.column key)) := by
  rw [withKey, List.filter_filter]
  refine List.filter_congr fun fact _ => ?_
  cases same : Cell.same value (fact.cell (c.column key)) with
  | false => rfl
  | true => rw [Bool.true_and, Cell.isAbsent, ← beq_iff_eq.mp same, ← Cell.isAbsent, present]; rfl

theorem pathElement_of_ne_asterisk {value : Value} (plain : value ≠ .text "*") :
    pathElement value = value := by
  unfold pathElement
  split
  · exact absurd rfl plain
  · rfl

/-- The facts of a slice that is cut at the key which a fact has below a path. -/
theorem Descends.factsIn_member (down : b.Descends dimension hierarchy path d h level key)
    (stored : table.IsStored) {cuts : List Cut} {all : List Row} {name : Option String}
    {conditions : List Predicate} (restricted : b.factsIn table cuts = .ok all)
    (resolved : ∀ path, Cut.resolve (.point d.name name path) b.cube = .ok (d, h))
    (along : b.compiler.pathConditions h.levels (path.map pathElement) = .ok conditions)
    {fact : Row} (member : fact ∈ b.compiler.withKey key (all.filter fun fact =>
      conditions.all (Predicate.holds table.columns fact)))
    (plain : ∀ fact ∈ table.rows, fact.cell (b.compiler.column key) ≠ .text "*") :
    b.factsIn table (cuts ++ [.point d.name name
        ((path ++ [fact.cell (b.compiler.column key)]).map pathElement)]) =
      .ok ((b.compiler.withKey key (all.filter fun fact =>
          conditions.all (Predicate.holds table.columns fact))).filter fun other =>
        Cell.same (fact.cell (b.compiler.column key)) (other.cell (b.compiler.column key))) := by
  obtain ⟨inFacts, present⟩ := List.mem_filter.mp member
  have inTable : fact ∈ table.rows := by
    obtain ⟨others, -, rfl⟩ := Result.map_ok.1 restricted
    exact List.mem_of_mem_filter (List.mem_of_mem_filter inFacts)
  rw [List.map_append, List.map_singleton, pathElement_of_ne_asterisk (plain fact inTable),
    filter_withKey (by simpa using present)]
  exact down.normalized.factsIn_deeper restricted resolved along (stored fact inTable _)

/-- Navigation down a hierarchy loses no facts and counts none twice. The members below a path are
listed, and at the path and at every member the slice can be cut. The facts at the path that have a key
below it are shared out by the members: every one of them is among the facts of one of the listed keys,
different keys have different facts, and every key has some. -/
theorem members_share_out_facts (onTable : b.OverTable db table) (stored : table.IsStored)
    {slice : Slice} {all : List Row} (restricted : b.factsIn table slice.cuts = .ok all)
    (down : b.Descends dimension hierarchy path d h level key)
    (settled : h.name = none → d.defaultHierarchy = .ok h)
    (asked : b.ListsAll options overrides key o)
    (distinct : ((listedAttributes h (path.map pathElement)).map (·.refText)).Nodup)
    (plain : ∀ fact ∈ table.rows, fact.cell (b.compiler.column key) ≠ .text "*")
    (patience : Patience) (state : σ) (log : List LogLine) :
    ∃ rows values after point facts,
      perform (b.values dimension (.list path) options overrides hierarchy patience)
        ⟨slice, state, log⟩ = (.ok rows, after) ∧
      rows.map (Record.get? · key.refText) = values.map some ∧
      slice.cutByPoint dimension (Datum.lift (.list path)) hierarchy = .ok point ∧
      b.factsIn table point.cuts = .ok facts ∧
      ∀ chosen, Represents chosen values → ∃ part : Value → List Row,
        (∀ value ∈ chosen, part value ≠ [] ∧ ∃ deeper,
          slice.cutByPoint dimension (Datum.lift (.list (path ++ [value]))) hierarchy = .ok deeper ∧
            b.factsIn table deeper.cuts = .ok (part value)) ∧
        (chosen.map part).flatten.Perm (b.compiler.withKey key facts) ∧
        chosen.Pairwise fun value other => (part value).Disjoint (part other) := by
  obtain ⟨conditions, along⟩ := exists_pathConditions (c := b.compiler) down.keyed
    (path.map pathElement)
  obtain ⟨groups, stateAfter, logAfter, shares, filled, listed⟩ :=
    down.perform_values asked onTable restricted along distinct patience state log
  obtain ⟨name, resolved, cut⟩ := down.exists_cutByPoint settled
  have fits : (path.map pathElement).length ≤ h.levels.length := down.normalized.length_lt.le
  have atPath := factsIn_append_point restricted (resolved _) fits along
  have listedKey := down.mem_listedAttributes
  refine ⟨_, groups.map (b.compiler.valueIn key), _, _, _, listed, ?_, cut slice path, atPath,
    fun chosen represents => ⟨fun value => (b.compiler.withKey key (all.filter fun fact =>
      conditions.all (Predicate.holds table.columns fact))).filter fun fact =>
        Cell.same value (fact.cell (b.compiler.column key)), ?_, ?_⟩⟩
  · rw [List.map_map, List.map_map]
    exact List.map_congr_left fun group _ => get?_memberRow distinct listedKey group
  · intro value member
    obtain ⟨group, known, rfl⟩ := List.mem_map.mp (represents.among member)
    obtain ⟨fact, among, same⟩ := exists_fact_of_group (c := b.compiler) shares filled key known
    rw [same]
    exact ⟨List.ne_nil_of_mem (List.mem_filter.mpr ⟨among, Cell.same_refl _⟩), _,
      cut slice (path ++ [_]), down.factsIn_member stored restricted resolved along among plain⟩
  · exact represents.share_out fun fact member => by
      obtain ⟨group, known, same⟩ := exists_group_of_fact (c := b.compiler) shares
        (List.mem_map_of_mem listedKey) member
      exact ⟨_, List.mem_map_of_mem known, same⟩

end Browser

namespace Market

/-- The name of a city. -/
def city : Attribute := (Attribute.ofName .attribute (some "city")).attach "place"

theorem keyed_cities : ∀ level ∈ cities.levels, ∃ key, level.keyAttribute = .ok key := by
  intro level member
  rcases List.mem_pair.mp member with rfl | rfl
  · exact ⟨_, rfl⟩
  · exact ⟨_, rfl⟩

end Market

namespace Browser

open Olap.Action Market

/-- The only known city in the country has all sales there with a known city. -/
theorem members_share_out_facts_linz :
    ∃ deeper facts, inAustria.cutByPoint (.text "place")
        (Datum.lift (.list [.text "AT", .text "Linz"])) (.text "cities") = .ok deeper ∧
      salesBrowser.factsIn salesTable deeper.cuts = .ok facts ∧ facts ≠ [] ∧
      facts.Perm (salesBrowser.compiler.withKey city salesTable.rows) := by
  have down : salesBrowser.Descends (.text "place") (.text "cities") [.text "AT"] place cities
      (level "city") city := ⟨rfl, rfl, keyed_cities, rfl, rfl⟩
  have all : salesBrowser.factsIn salesTable inAustria.cuts = .ok salesTable.rows := rfl
  obtain ⟨rows, values, after, point, facts, listed, told, cut, restricted, parts⟩ :=
    members_share_out_facts salesBrowser_overTable isStored_salesTable all down
      (fun none => nomatch none) (⟨rfl, rfl, _, rfl⟩ : salesBrowser.ListsAll .null [] _ .unset)
      (by decide) (fun fact member => (ne_asterisk_salesTable fact member).2) ⟨.null, none⟩ () []
  have computed : (perform (salesBrowser.values (.text "place") (.list [.text "AT"]) .null []
      (.text "cities") ⟨.null, none⟩) ⟨inAustria, (), []⟩).1 =
        .ok [[("place.city", .text "Linz")]] := by
    cbv
  rw [listed] at computed
  cases computed
  obtain ⟨value, rfl⟩ : ∃ value, values = [value] := by
    rw [← List.length_eq_one_iff, ← List.length_map (f := some), ← told]
    rfl
  cases told
  cases cut
  cases restricted
  obtain ⟨part, each, whole, -⟩ := parts [.text "Linz"]
    ⟨List.Subset.refl _, fun value member => ⟨value, member, Cell.same_refl _⟩,
      List.pairwise_singleton _ _⟩
  obtain ⟨filled, deeper, cutDeeper, found⟩ := each _ (List.mem_singleton_self _)
  rw [List.map_singleton, List.flatten_singleton] at whole
  exact ⟨deeper, _, cutDeeper, found, filled, whole⟩

/-- Along a hierarchy that has no name and is not the default, a listed member leads nowhere: there is
a sale in the city, but the slice cut at the city has no facts. -/
theorem exists_member_without_facts_of_nameless :
    placesBrowser.OverTable [firstSale] firstSale ∧ firstSale.IsStored ∧
      nameless ∈ places.hierarchies ∧
      placesBrowser.Descends (.object (.dimension places)) (.object (.hierarchy nameless)) []
        places nameless (level "city") city ∧
      placesBrowser.ListsAll .null [] city .unset ∧
      (∀ fact ∈ firstSale.rows, fact.cell (placesBrowser.compiler.column city) ≠ .text "*") ∧
      (perform (placesBrowser.values (.object (.dimension places)) (.list []) .null []
          (.object (.hierarchy nameless)) ⟨.null, none⟩)
        ⟨Slice.full placesBrowser.cube, (), []⟩).1 = .ok [[(city.refText, .text "Linz")]] ∧
      ∃ point deeper,
        (Slice.full placesBrowser.cube).cutByPoint (.object (.dimension places))
            (Datum.lift (.list [])) (.object (.hierarchy nameless)) = .ok point ∧
          placesBrowser.factsIn firstSale point.cuts = .ok firstSale.rows ∧
        (Slice.full placesBrowser.cube).cutByPoint (.object (.dimension places))
            (Datum.lift (.list [.text "Linz"])) (.object (.hierarchy nameless)) = .ok deeper ∧
          placesBrowser.factsIn firstSale deeper.cuts = .ok [] := by
  have keyed : ∀ level ∈ nameless.levels, ∃ key, level.keyAttribute = .ok key := by
    intro level member
    rw [List.mem_singleton.mp member]
    exact ⟨_, rfl⟩
  have listed : (perform (placesBrowser.values (.object (.dimension places)) (.list []) .null []
      (.object (.hierarchy nameless)) ⟨.null, none⟩) ⟨Slice.full placesBrowser.cube, (), []⟩).1 =
        .ok [[(city.refText, .text "Linz")]] := by
    cbv
  exact ⟨placesBrowser_overTable, isStored_firstSale,
    List.mem_cons_of_mem _ (List.mem_singleton_self _), ⟨rfl, rfl, keyed, rfl, rfl⟩,
    ⟨rfl, rfl, _, rfl⟩, ne_asterisk_firstSale, listed, _, _, rfl, rfl, rfl, rfl⟩

end Browser

end Olap
