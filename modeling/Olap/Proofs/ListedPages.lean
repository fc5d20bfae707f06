/-
Pages of a listing. The members below a path are listed in the order of their keys at the next level only,
though rows are grouped by all attributes of the levels that are listed. So the order says how the keys
come, but rows with the same key are left open, and a store may arrange them in one way for one page and in
another way for the next. The keys on the pages are always those of the whole listing, and so are the rows
when no two of them have the same key, or when the store arranges what is left open alike for all pages.
-/

import Olap.Proofs.Listings
import Olap.Proofs.Pages

namespace Olap

/-- What is given with a call for the members below a path. -/
structure ListCall where
  dimension : Description
  path : Value
  options : Description
  overrides : Fields Part
  hierarchy : Description
  patience : Patience

/-- A call for a page of what another call lists. -/
structure ListCall.AsksPage (call paged : ListCall) (o : QueryOptions) (size page : Nat) : Prop where
  dimension : paged.dimension = call.dimension
  path : paged.path = call.path
  hierarchy : paged.hierarchy = call.hierarchy
  accepted : ∃ given, (QueryOptions.accept paged.options paged.overrides).map Options.base =
    .ok (o.forPage size page given)

/-- A page of any listing can be asked for. -/
theorem ListCall.exists_asksPage (call : ListCall) (o : QueryOptions) (size page : Nat) :
    ∃ paged, AsksPage call paged o size page :=
  ⟨{ call with options := .object (.queryOptions (o.forPage size page o.given)), overrides := [] },
    rfl, rfl, rfl, _, rfl⟩

/-- What a row is ordered by when it is ordered by a field. -/
def Row.rank (field : String) (row : Row) : Cell.Rank := Cell.rank (row.cell field)

namespace Browser

open Olap.Action Compiler

variable {σ : Type} {b : Browser σ} {db : Database} {table : Table}

/-- The members that a call lists. -/
def list (b : Browser σ) (call : ListCall) : Action σ (List Row) :=
  b.values call.dimension call.path call.options call.overrides call.hierarchy call.patience

/-- A listing of the members at a level below a path, in the usual order, in slices with certain cuts. -/
structure Listing (b : Browser σ) (cuts : List Cut) (call : ListCall) (o : QueryOptions)
    (path : List Value) (d : Dimension) (h : Hierarchy) (level : Level) (key : Attribute) : Prop where
  down : b.Descends call.dimension call.hierarchy path d h level key
  normalized : normalizePath call.path = .ok path
  accepted : (QueryOptions.accept call.options call.overrides).map Options.base = .ok o
  wants : o.WantsAll
  restricted : ∃ conditions, b.compiler.predicates cuts = .ok conditions
  distinct : ((listedAttributes h path).map (·.refText)).Nodup

variable {cuts : List Cut} {call paged : ListCall} {o : QueryOptions} {path : List Value}
  {d : Dimension} {h : Hierarchy} {level : Level} {key : Attribute} {size page : Nat}

/-- The layer of such a listing. -/
def listedLayer (b : Browser σ) (h : Hierarchy) (path : List Value) (key : Attribute)
    (conditions : List Predicate) (o : QueryOptions) : Layer :=
  b.compiler.memberLayer (listedAttributes h path) conditions (b.compiler.column key)
    [⟨b.compiler.column key, o.direction⟩] o

/-- The members are listed by a layer, and their pages by the same layer with a page. -/
structure ListsBy (b : Browser σ) (cuts : List Cut) (call : ListCall) (o : QueryOptions)
    (layer : Layer) : Prop where
  accepted : (QueryOptions.accept call.options call.overrides).map Options.base = .ok o
  whole : b.compiler.values call.dimension call.path cuts o call.hierarchy =
    .ok (.scan b.compiler.table layer)
  paged : ∀ size page given, b.compiler.values call.dimension call.path cuts
    (o.forPage size page given) call.hierarchy = .ok (.scan b.compiler.table { layer with
      limit := some (size : Int), offset := some ((page : Int) * (size : Int)) })
  limit : layer.limit = none
  offset : layer.offset = none
  distinct : (layer.projections.map (·.name)).Nodup
  known : ∀ p ∈ layer.predicates, Sql.IsKnown p

theorem Listing.exists_listsBy (listing : b.Listing cuts call o path d h level key) :
    ∃ conditions, b.ListsBy cuts call o (b.listedLayer h path key conditions o) := by
  obtain ⟨conditions, compiled⟩ := listing.restricted
  obtain ⟨along, pathCompiled⟩ := exists_pathConditions (c := b.compiler) listing.down.keyed path
  have values (p : QueryOptions) (same : p.orderBy = o.orderBy) :
      b.compiler.values call.dimension call.path cuts p call.hierarchy =
        .ok (.scan b.compiler.table (b.listedLayer h path key (conditions ++ along) p)) := by
    have ordered : b.compiler.orderings p [] [b.compiler.column key] =
        .ok [⟨b.compiler.column key, p.direction⟩] := by
      unfold orderings
      rw [same, listing.wants.usual]
      rfl
    rw [values_eq listing.down.held listing.down.found listing.normalized listing.down.below
      listing.down.keyOfLevel pathCompiled ordered cuts, compiled]
    rfl
  refine ⟨conditions ++ along, listing.accepted, values o rfl,
    fun size page given => values (o.forPage size page given) rfl,
    QueryOptions.limitRows_eq_none listing.wants.unpaged,
    QueryOptions.offset_eq_none listing.wants.unpaged, ?_, isKnown_of_listing compiled pathCompiled _⟩
  show ((List.map b.compiler.projection _).map (·.name)).Nodup
  rw [List.map_map]
  exact listing.distinct

/-! ### Arrangements in a session -/

/-- Whatever page of a layer is asked for, its groups come in an arrangement that is possible. -/
def Arranges (b : Browser σ) (layer : Layer) (possible : List (List Row) → Prop) : Prop :=
  ∀ limit offset patience (session : Session σ), ∃ ordered state log, possible ordered ∧
    perform (b.execute (.scan b.compiler.table { layer with limit, offset }) patience) session =
      (.ok (Layer.rowsOf { layer with limit, offset } ordered), ⟨session.slice, state, log⟩)

theorem SortsOver.arranges (sorts : b.SortsOver db table) {layer : Layer}
    (distinct : (layer.projections.map (·.name)).Nodup)
    (known : ∀ p ∈ layer.predicates, Sql.IsKnown p) :
    b.Arranges layer (layer.IsArranged (table.groups layer)) := by
  intro limit offset patience session
  obtain ⟨_, state, log, ⟨ordered, arranged, rfl⟩, executed⟩ :=
    sorts.exists_perform_execute { layer with limit, offset } distinct known patience session
  exact ⟨ordered, state, log, arranged.of_page, executed⟩

/-- A store that arranges what is left open alike for all pages has one arrangement only. -/
theorem exists_arranges {store : Store σ} (present : b.store = some store)
    (alike : store.SortsAlike db) (knownTable : db.table? b.compiler.table = some table)
    {layer : Layer} (distinct : (layer.projections.map (·.name)).Nodup)
    (known : ∀ p ∈ layer.predicates, Sql.IsKnown p) :
    ∃ ordered, b.Arranges layer (· = ordered) := by
  obtain ⟨arrange, answered⟩ := alike
  refine ⟨arrange b.compiler.table { layer with limit := none, offset := none },
    fun limit offset patience session => ?_⟩
  have written : ∃ text,
      statement (.scan b.compiler.table { layer with limit, offset }) = .ok text :=
    exists_statement_scan b.compiler.table known
  obtain ⟨state, log, executed⟩ := perform_execute_of_outcome present (fun _ => written)
    (answered (b.requestFor (.scan b.compiler.table { layer with limit, offset }) patience)
      session.store b.compiler.table { layer with limit, offset } table rfl distinct knownTable).2
  exact ⟨_, state, log, rfl, executed⟩

/-! ### Pages of a listing -/

/-- What is seen of the pages of a listing covers what is seen of some rows. -/
def MemberPagesCover {β : Type} (b : Browser σ) (cuts : List Cut) (call : ListCall) (o : QueryOptions)
    (size : Nat) (view : List Row → List β) (rows : List Row) : Prop :=
  ∃ pages, CoversExactly pages (view rows) ∧ ∀ page paged (session : Session σ),
    ListCall.AsksPage call paged o size page → session.slice.cuts = cuts → ∃ part after,
      perform (b.list paged) session = (.ok part, after) ∧ after.slice.cuts = cuts ∧
        view part = pages page

theorem perform_list {layer : Layer} {session after : Session σ} {rows : List Row}
    (accepted : (QueryOptions.accept call.options call.overrides).map Options.base = .ok o)
    (compiled : b.compiler.values call.dimension call.path session.slice.cuts o call.hierarchy =
      .ok (.scan b.compiler.table layer))
    (executed : perform (b.execute (.scan b.compiler.table layer) call.patience) session =
      (.ok rows, after)) :
    perform (b.list call) session = (.ok rows, after) := by
  obtain ⟨given, made, rfl⟩ := Result.map_ok.1 accepted
  exact perform_bind_ok.2 ⟨given, session, perform_require_ok.2 ⟨made, rfl⟩,
    perform_bind_ok.2 ⟨session, session, rfl,
      perform_bind_ok.2 ⟨_, _, perform_require_ok.2 ⟨compiled, rfl⟩, executed⟩⟩⟩

/-- A listing has the rows of an arrangement. -/
theorem ListsBy.exists_perform_list {layer : Layer} (lists : b.ListsBy cuts call o layer)
    {possible : List (List Row) → Prop} (arranges : b.Arranges layer possible) (session : Session σ)
    (same : session.slice.cuts = cuts) : ∃ ordered after, possible ordered ∧
      perform (b.list call) session = (.ok (layer.rowsOf ordered), after) ∧
        after.slice.cuts = cuts := by
  obtain ⟨ordered, state, log, fits, executed⟩ :=
    arranges layer.limit layer.offset call.patience session
  exact ⟨ordered, _, fits, perform_list lists.accepted (same ▸ lists.whole) executed, same⟩

/-- Pages cover what is seen of the rows when this is the same in all possible arrangements. -/
theorem ListsBy.pagesCover {layer : Layer} (lists : b.ListsBy cuts call o layer)
    {possible : List (List Row) → Prop} (arranges : b.Arranges layer possible)
    (positive : 0 < size) {β : Type} {view : List Row → List β}
    (cut : ∀ rows page, view (pageOf size rows page) = pageOf size (view rows) page)
    {ordered : List (List Row)} (agree : ∀ other, possible other →
      view (layer.rowsOf other) = view (layer.rowsOf ordered)) :
    b.MemberPagesCover cuts call o size view (layer.rowsOf ordered) := by
  refine ⟨_, coversExactly_pageOf positive _, fun page paged session asks same => ?_⟩
  obtain ⟨given, accepted⟩ := asks.accepted
  obtain ⟨other, state, log, fits, executed⟩ := arranges (some (size : Int))
    (some ((page : Int) * (size : Int))) paged.patience session
  have compiled := lists.paged size page given
  rw [← asks.dimension, ← asks.path, ← asks.hierarchy, ← same] at compiled
  refine ⟨_, _, perform_list accepted compiled executed, same, ?_⟩
  rw [Layer.rowsOf_eq_pageOf layer lists.limit lists.offset, cut, agree other fits]

/-- In the rows of a listing the key is what the groups are ordered by, when the name of its column denotes
it. -/
theorem map_rank_rowsOf {layer : Layer} (distinct : (layer.projections.map (·.name)).Nodup)
    (selected : b.compiler.projection key ∈ layer.projections)
    (free : Projection.LeaveFree layer.projections (b.compiler.column key))
    (limit : layer.limit = none) (offset : layer.offset = none) (ordered : List (List Row)) :
    (layer.rowsOf ordered).map (Row.rank key.refText) =
      ordered.map fun group => Cell.rank (layer.orderValue false group (b.compiler.column key)) := by
  unfold Layer.rowsOf
  rw [limit, offset, Layer.page_all, List.map_map]
  refine List.map_congr_left fun group _ => congrArg Cell.rank ?_
  exact (Layer.cell_project distinct selected group).trans
    (Layer.orderValue_of_leaveFree free group).symm

/-- Pages of a listing cover it exactly once when the store arranges rows that the order leaves open alike
for all of them. With any store they cover the keys of the listing, and the listing itself when its rows
have different keys; here the name of the key's column has to denote the key. -/
theorem pages_cover_members (sorts : b.SortsOver db table)
    (listing : b.Listing cuts call o path d h level key) (positive : 0 < size) (session : Session σ)
    (same : session.slice.cuts = cuts) :
    ∃ rows after, perform (b.list call) session = (.ok rows, after) ∧ after.slice.cuts = cuts ∧
      ((∃ store, b.store = some store ∧ store.SortsAlike db) →
        b.MemberPagesCover cuts call o size (fun rows => rows) rows) ∧
      (Projection.LeaveFree ((listedAttributes h path).map b.compiler.projection)
          (b.compiler.column key) →
        b.MemberPagesCover cuts call o size (List.map (Row.rank key.refText)) rows ∧
          ((rows.map (Row.rank key.refText)).Nodup →
            b.MemberPagesCover cuts call o size (fun rows => rows) rows)) := by
  obtain ⟨conditions, lists⟩ := listing.exists_listsBy
  have loose := sorts.arranges lists.distinct lists.known
  obtain ⟨ordered, after, arranged, done, stays⟩ := lists.exists_perform_list loose session same
  have listed : key ∈ listedAttributes h path := List.mem_flatMap.mpr
    ⟨level, mem_listedLevels listing.down.below, Level.keyAttribute_mem listing.down.keyOfLevel⟩
  refine ⟨_, after, done, stays, ?_, fun free => ?_⟩
  · rintro ⟨store, present, alike⟩
    obtain ⟨one, arranges⟩ := exists_arranges present alike sorts.known lists.distinct lists.known
    obtain ⟨_, _, rfl, doneToo, -⟩ := lists.exists_perform_list arranges session same
    rw [Except.ok.inj (Prod.mk.inj (done.symm.trans doneToo)).1]
    exact lists.pagesCover arranges positive (fun _ _ => rfl) fun other only => by rw [only]
  · have ranks := map_rank_rowsOf lists.distinct (List.mem_map_of_mem listed) free lists.limit
      lists.offset
    refine ⟨lists.pagesCover loose positive (fun _ _ => map_pageOf _ _ _ _) fun other arrangedToo => ?_,
      fun different => lists.pagesCover loose positive (fun _ _ => rfl) fun other arrangedToo => ?_⟩
    · rw [ranks, ranks, arrangedToo.map_rank_eq arranged rfl]
    · rw [ranks] at different
      rw [arrangedToo.eq_of_tellsApart arranged (arranged.tellsApart_of_nodup rfl different)]

end Browser

/-! ### Cities of one name -/

namespace Market

/-- All countries. -/
def countries : ListCall := ⟨.text "place", .list [], .null, [], .text "cities", ⟨.null, none⟩⟩

/-- All cities, whatever their country. -/
def anyCity : ListCall := { countries with path := .list [.text "*"] }

/-- One member at a time. -/
def onePage (call : ListCall) (page : Nat) : ListCall :=
  { call with overrides := [("page", .int page), ("page_size", .int 1)] }

theorem asksPage_onePage (page : Nat) : ListCall.AsksPage anyCity (onePage anyCity page) .unset 1 page :=
  ⟨rfl, rfl, rfl, ["page", "page_size"], rfl⟩

/-- A sale in each of two cities of one name. -/
def namesakes : Table :=
  { name := "sales"
    columns := [("place.country", .text), ("place.city", .text), ("amount", .integer)]
    rows := [
      [("place.country", .text "AT"), ("place.city", .text "Linz"), ("amount", .int 3)],
      [("place.country", .text "DE"), ("place.city", .text "Linz"), ("amount", .int 4)]] }

/-- The row of one of these cities. -/
def namesake (country : String) : Row :=
  [("place.country", .text country), ("place.city", .text "Linz")]

/-- A browser whose store leaves groups as they come when it sorts them. -/
def namesakesBrowser : Browser Unit := ⟨sales, some (Database.evaluator [namesakes]), .unset⟩

theorem namesakesBrowser_overTable : namesakesBrowser.OverTable [namesakes] namesakes :=
  ⟨⟨_, rfl, Database.evaluates_evaluator _⟩, rfl⟩

end Market

namespace Browser

open Olap.Action Compiler Market

variable {σ : Type}

theorem listing_countries (store : Option (Store σ)) :
    Browser.Listing ⟨sales, store, .unset⟩ [] countries .unset [] place cities (level "country")
      country :=
  ⟨⟨rfl, rfl, keyed_cities, rfl, rfl⟩, rfl, rfl, ⟨rfl, rfl⟩, ⟨_, rfl⟩, by decide⟩

theorem listing_anyCity (store : Option (Store σ)) :
    Browser.Listing ⟨sales, store, .unset⟩ [] anyCity .unset [.wildcard] place cities (level "city")
      city :=
  ⟨⟨rfl, rfl, keyed_cities, rfl, rfl⟩, rfl, rfl, ⟨rfl, rfl⟩, ⟨_, rfl⟩, by decide⟩

/-- The countries come one on each page, whatever the store does with rows that an order leaves open, and
cities of one name do when the store arranges them alike for all pages. -/
theorem pages_cover_members_countries :
    (∃ rows after, perform ((turningBrowser sales notedTable).list countries)
        ⟨Slice.full sales, (), []⟩ = (.ok rows, after) ∧
      (turningBrowser sales notedTable).MemberPagesCover [] countries .unset 1 (fun rows => rows) rows) ∧
    ∃ rows after, perform (namesakesBrowser.list anyCity) ⟨Slice.full sales, (), []⟩ =
        (.ok rows, after) ∧
      namesakesBrowser.MemberPagesCover [] anyCity .unset 1 (fun rows => rows) rows := by
  constructor
  · obtain ⟨rows, after, done, -, -, loose⟩ := pages_cover_members (sortsOver_turningBrowser rfl)
      (listing_countries (some (Database.turning [notedTable]))) Nat.one_pos
      ⟨Slice.full sales, (), []⟩ rfl
    have listed : (perform ((turningBrowser sales notedTable).list countries)
        ⟨Slice.full sales, (), []⟩).1 =
          .ok [[("place.country", .text "AT")], [("place.country", .text "DE")]] := by
      cbv
    obtain rfl : rows = _ := Except.ok.inj ((congrArg (·.1) done).symm.trans listed)
    exact ⟨_, after, done, (loose (leaveFree_of_column_eq (by decide) (by decide) rfl)).2 (by decide)⟩
  · obtain ⟨rows, after, done, -, alike, -⟩ := pages_cover_members
      namesakesBrowser_overTable.sortsOver (listing_anyCity _) Nat.one_pos
      ⟨Slice.full sales, (), []⟩ rfl
    exact ⟨rows, after, done, alike ⟨_, rfl, (Database.evaluates_evaluator _).sortsAlike⟩⟩

/-- Of two cities of one name one can come on both pages, and the other one on none. -/
theorem exists_member_lost :
    (turningBrowser sales namesakes).SortsOver [namesakes] namesakes ∧
      (turningBrowser sales namesakes).Listing [] anyCity .unset [.wildcard] place cities
        (level "city") city ∧
      (∃ after, perform ((turningBrowser sales namesakes).list anyCity) ⟨Slice.full sales, (), []⟩ =
        (.ok [namesake "AT", namesake "DE"], after)) ∧
      (∀ page < 2, ListCall.AsksPage anyCity (onePage anyCity page) .unset 1 page ∧
        ∃ after, perform ((turningBrowser sales namesakes).list (onePage anyCity page))
          ⟨Slice.full sales, (), []⟩ = (.ok [namesake "AT"], after)) ∧
      ¬(turningBrowser sales namesakes).MemberPagesCover [] anyCity .unset 1 (fun rows => rows)
        [namesake "AT", namesake "DE"] := by
  have listed : (perform ((turningBrowser sales namesakes).list anyCity)
      ⟨Slice.full sales, (), []⟩).1 = .ok [namesake "AT", namesake "DE"] := by
    cbv
  have pages (page : Nat) (early : page < 2) :
      (perform ((turningBrowser sales namesakes).list (onePage anyCity page))
        ⟨Slice.full sales, (), []⟩).1 = .ok [namesake "AT"] := by
    obtain rfl | rfl : page = 0 ∨ page = 1 := by omega
    · cbv
    · cbv
  refine ⟨sortsOver_turningBrowser rfl, listing_anyCity _, ⟨_, Prod.ext listed rfl⟩,
    fun page early => ⟨asksPage_onePage page, _, Prod.ext (pages page early) rfl⟩, ?_⟩
  rintro ⟨seen, covers, each⟩
  have same (page : Nat) (early : page < 2) : seen page = [namesake "AT"] := by
    obtain ⟨part, after, done, -, rfl⟩ :=
      each page _ ⟨Slice.full sales, (), []⟩ (asksPage_onePage page) rfl
    exact Except.ok.inj ((congrArg (·.1) done).symm.trans (pages page early))
  refine not_coversExactly_of_repeated (fun alike => ?_) (same 0 (by decide)) (same 1 (by decide)) covers
  simp [namesake] at alike

end Browser

end Olap
