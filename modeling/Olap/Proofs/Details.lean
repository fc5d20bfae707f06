/-
What is known about a member. The query for it asks for one fact, in no order, among those that the cuts
and the path select, and there may be many when the path ends early or leaves a value open. Any of them may
be the one that comes, but all attributes of the record are read off the same one. When there is no such
fact, the answer is that there is no such member. That takes a path that was given: without one the
answer can not be written down, and the call fails over its own message.
-/

import Olap.Proofs.Pages
import Olap.Proofs.Questions
import Olap.Proofs.RowPaths

namespace Olap

namespace Compiler

variable {c : Compiler} {table : Table} {cuts : List Cut} {h : Hierarchy} {items : List Value}

/-- A fact of a slice is about the member at a path: it meets all cuts, and the values of the path that are
not left open are the keys that it has of the levels at their places. -/
structure IsAbout (c : Compiler) (table : Table) (cuts : List Cut) (levels : List Level)
    (path : List Value) (fact : Row) : Prop where
  stored : fact ∈ table.rows
  inSlice : ∀ cut ∈ cuts, cut.IsMetBy c table.columns fact
  along : ∀ (place : Nat) value, path[place]? = some value → value ≠ .wildcard →
    ∃ level key, levels[place]? = some level ∧ level.keyAttribute = .ok key ∧
      Cell.Has (Record.get? table.columns (c.column key)) value (fact.cell (c.column key))

/-- A record has the attributes of all levels of a hierarchy, each with the value of one fact. -/
structure TellsOf (c : Compiler) (h : Hierarchy) (fact record : Row) : Prop where
  names : Record.keys record = h.attributes.map (·.refText)
  values : ∀ level ∈ h.levels, ∀ a ∈ level.attributes,
    Record.get? record a.refText = some (fact.cell (c.column a))

/-- The conditions of the cuts and of the path together select the facts about the member. -/
theorem mem_selectRows_iff_isAbout {conditions along : List Predicate}
    (compiled : c.predicates cuts = .ok conditions)
    (pathCompiled : c.pathConditions h.levels items = .ok along)
    (fits : items.length ≤ h.levels.length) {fact : Row} :
    fact ∈ selectRows table.columns (conditions ++ along) table.rows ↔
      c.IsAbout table cuts h.levels items fact := by
  rw [selectRows, List.mem_filter, List.all_append, Bool.and_eq_true,
    all_holds_predicates_iff compiled, all_holds_pathConditions pathCompiled fits]
  constructor
  · rintro ⟨stored, meets, along⟩
    exact ⟨stored, meets, along⟩
  · rintro ⟨stored, meets, along⟩
    exact ⟨stored, meets, along⟩

/-- For a path that fits into its hierarchy there is a query as far as the cuts compile. -/
theorem exists_detail_eq (sound : c.cube.IsSound) {dimension hierarchy : Description} {path : Value}
    {d : Dimension} (held : c.cube.dimensionOf dimension = .ok d)
    (found : d.hierarchy hierarchy = .ok h) (given : normalizePath path = .ok items)
    (fits : items.length ≤ h.levels.length) :
    ∃ along, c.pathConditions h.levels items = .ok along ∧ ∀ cuts,
      c.detail dimension path cuts hierarchy = (c.predicates cuts).map fun conditions =>
        .scan c.table (c.detailLayer h (conditions ++ along)) := by
  have provides := sound.provides_of_dimensionOf held found
  obtain ⟨along, compiled⟩ := exists_pathConditions (c := c) provides.keyed items
  exact ⟨along, compiled, detail_eq held found given fits compiled⟩

theorem map_name_detailLayer (conditions : List Predicate) :
    (c.detailLayer h conditions).projections.map (·.name) = h.attributes.map (·.refText) := by
  rw [detailLayer, List.map_map]
  rfl

theorem groups_detailLayer (conditions : List Predicate) (rows : List Row) :
    (c.detailLayer h conditions).groups rows = rows.map ([·]) := by
  refine Layer.groups_of_unaggregated (fun p member => ?_) rfl rows
  obtain ⟨a, -, rfl⟩ := List.mem_map.mp member
  rfl

/-- The hierarchies that queries can be made for have attributes. -/
theorem attributes_ne_nil {d : Dimension} (provides : d.Provides h) : h.attributes ≠ [] := by
  obtain ⟨level, inside⟩ := List.exists_mem_of_ne_nil _ provides.filled
  obtain ⟨key, keyed⟩ := provides.keyed level inside
  exact List.ne_nil_of_mem (List.mem_flatMap.mpr ⟨level, inside, Level.keyAttribute_mem keyed⟩)

theorem tellsOf_memberRow (distinct : (h.attributes.map (·.refText)).Nodup) (fact : Row) :
    c.TellsOf h fact (c.memberRow h.attributes [fact]) where
  names := by
    rw [Record.keys, memberRow, List.map_map]
    rfl
  values level inside a member :=
    Browser.get?_memberRow distinct (List.mem_flatMap.mpr ⟨level, inside, member⟩) [fact]

/-- However the facts come, the one row that is made tells of one of those about the member; there is none
if there are no such facts. -/
theorem rowsOf_detailLayer {d : Dimension} (provides : d.Provides h)
    (distinct : (h.attributes.map (·.refText)).Nodup) {conditions along : List Predicate}
    (compiled : c.predicates cuts = .ok conditions)
    (pathCompiled : c.pathConditions h.levels items = .ok along)
    (fits : items.length ≤ h.levels.length) {ordered : List (List Row)}
    (arranged : (c.detailLayer h (conditions ++ along)).IsArranged
      (table.groups (c.detailLayer h (conditions ++ along))) ordered) :
    (∃ fact record, c.IsAbout table cuts h.levels items fact ∧ c.TellsOf h fact record ∧
        (c.detailLayer h (conditions ++ along)).rowsOf ordered = [record]) ∨
      (¬∃ fact, c.IsAbout table cuts h.levels items fact) ∧
        (c.detailLayer h (conditions ++ along)).rowsOf ordered = [] := by
  have all : ordered.Perm
      ((selectRows table.columns (conditions ++ along) table.rows).map ([·])) :=
    arranged.all.trans (.of_eq (groups_detailLayer _ _))
  have first : (c.detailLayer h (conditions ++ along)).rowsOf ordered =
      (ordered.take 1).map (c.memberRow h.attributes) := by
    unfold Layer.rowsOf
    rw [project_eq_memberRow rfl (attributes_ne_nil provides)]
    exact congrArg _ (Layer.page_first 1 ordered)
  rw [first]
  cases ordered with
  | nil =>
    refine .inr ⟨?_, rfl⟩
    rintro ⟨fact, about⟩
    have selected := (mem_selectRows_iff_isAbout compiled pathCompiled fits).mpr about
    exact List.not_mem_nil (all.mem_iff.mpr (List.mem_map_of_mem selected))
  | cons group rest =>
    obtain ⟨fact, selected, rfl⟩ := List.mem_map.mp (all.mem_iff.mp List.mem_cons_self)
    exact .inl ⟨fact, _, (mem_selectRows_iff_isAbout compiled pathCompiled fits).mp selected,
      tellsOf_memberRow distinct fact, rfl⟩

end Compiler

namespace Browser

open Olap.Action Compiler

variable {σ : Type} {b : Browser σ} {db : Database} {table : Table} {dimension hierarchy : Description}
  {path : Value} {d : Dimension} {h : Hierarchy} {items : List Value}

/-- What is said when there is no member at a path. Without a path nothing can be said. -/
def absence (dimension : Description) (path : Value) : Fault :=
  if path.isNull then .outside .wrongType
  else match path.pathItems with
    | .ok items => .problem (.noMember items dimension.dimensionName.shown)
    | .error fault => fault

/-- A path that was given is told as it was given. -/
theorem absence_of_given (dimension : Description) (given : normalizePath path = .ok items)
    (some : path.isNull = false) :
    ∃ shown, path.pathItems = .ok shown ∧ shown.map pathElement = items ∧
      absence dimension path = .problem (.noMember shown dimension.dimensionName.shown) := by
  unfold absence
  rw [some, if_neg Bool.false_ne_true]
  cases path with
  | null => cases some
  | list found =>
    cases given
    exact ⟨found, rfl, rfl, rfl⟩
  | record fields =>
    cases given
    exact ⟨fields.map fun field => .text field.1, rfl, List.map_map, rfl⟩
  | _ => cases given

/-- A question about a member has the first row that is found as its answer, if there is any. -/
theorem perform_detail {q : Query} {patience : Patience} {session after : Session σ} {rows : List Row}
    (made : b.compiler.detail dimension path session.slice.cuts hierarchy = .ok q)
    (executed : perform (b.execute q patience) session = (.ok rows, after)) :
    perform (b.detail dimension path hierarchy patience) session =
      (rows.head?.elim (.error (absence dimension path)) .ok, after) := by
  unfold detail
  simp only [perform_bind, perform_get, made, perform_require, executed]
  cases rows with
  | cons row rest => rfl
  | nil =>
    unfold absence
    dsimp only
    cases path.isNull <;> cases path.pathItems <;> rfl

theorem perform_detail_of_refused {fault : Fault} (patience : Patience) {session : Session σ}
    (refused : b.compiler.detail dimension path session.slice.cuts hierarchy = .error fault) :
    perform (b.detail dimension path hierarchy patience) session = (.error fault, session) := by
  unfold detail
  simp only [perform_bind, perform_get, refused, perform_require]

/-- Where the cuts compile, a question about a member is answered by a fact about it, if there is one. -/
theorem SortsOver.exists_perform_detail (sorts : b.SortsOver db table) (sound : b.cube.IsSound)
    (held : b.cube.dimensionOf dimension = .ok d) (found : d.hierarchy hierarchy = .ok h)
    (distinct : (h.attributes.map (·.refText)).Nodup) (given : normalizePath path = .ok items)
    (fits : items.length ≤ h.levels.length) {session : Session σ} {conditions : List Predicate}
    (compiled : b.compiler.predicates session.slice.cuts = .ok conditions) (patience : Patience) :
    ∃ after, after.slice = session.slice ∧
      ((∃ fact record, b.compiler.IsAbout table session.slice.cuts h.levels items fact ∧
          b.compiler.TellsOf h fact record ∧
          perform (b.detail dimension path hierarchy patience) session = (.ok record, after)) ∨
        (¬∃ fact, b.compiler.IsAbout table session.slice.cuts h.levels items fact) ∧
          perform (b.detail dimension path hierarchy patience) session =
            (.error (absence dimension path), after)) := by
  have provides := sound.provides_of_dimensionOf held found
  obtain ⟨along, pathCompiled, query⟩ := exists_detail_eq (c := b.compiler) sound held found given fits
  have made : b.compiler.detail dimension path session.slice.cuts hierarchy =
      .ok (.scan b.compiler.table (b.compiler.detailLayer h (conditions ++ along))) := by
    rw [query, compiled]
    rfl
  have known : ∀ p ∈ conditions ++ along, Sql.IsKnown p := List.forall_mem_append.mpr
    ⟨isKnown_of_predicates compiled, isKnown_of_pathConditions pathCompiled⟩
  obtain ⟨_, state, log, ⟨ordered, arranged, rfl⟩, executed⟩ := sorts.exists_perform_execute
    (b.compiler.detailLayer h (conditions ++ along)) (by rwa [map_name_detailLayer]) known patience session
  have performed := perform_detail made executed
  refine ⟨⟨session.slice, state, log⟩, rfl, ?_⟩
  obtain ⟨fact, record, about, tells, one⟩ | ⟨absent, none⟩ :=
    rowsOf_detailLayer provides distinct compiled pathCompiled fits arranged
  · rw [one] at performed
    exact .inl ⟨fact, record, about, tells, performed⟩
  · rw [none] at performed
    exact .inr ⟨absent, performed⟩

/-- What is known about a member agrees with the slice. The record of a member is there exactly when some
fact of the slice has the keys of the path that are not left open, and then all attributes of the levels
of the hierarchy are those of one such fact. Otherwise there is no member, which is said of the path as it
was given; when no path was given, the failure is one of another kind. Cuts that do not compile are
refused. The slice stays as it is. -/
theorem SortsOver.detail_agrees (sorts : b.SortsOver db table) (sound : b.cube.IsSound)
    (held : b.cube.dimensionOf dimension = .ok d) (found : d.hierarchy hierarchy = .ok h)
    (distinct : (h.attributes.map (·.refText)).Nodup) (given : normalizePath path = .ok items)
    (fits : items.length ≤ h.levels.length) (patience : Patience) (session : Session σ) :
    let cuts := session.slice.cuts
    let isAbout := b.compiler.IsAbout table cuts h.levels items
    let outcome := (perform (b.detail dimension path hierarchy patience) session).1
    (perform (b.detail dimension path hierarchy patience) session).2.slice = session.slice ∧
    (∀ fault, b.compiler.predicates cuts = .error fault → outcome = .error fault) ∧
    ∀ conditions, b.compiler.predicates cuts = .ok conditions →
      ((∃ record, outcome = .ok record) ↔ ∃ fact, isAbout fact) ∧
      (∀ record, outcome = .ok record → ∃ fact, isAbout fact ∧ b.compiler.TellsOf h fact record) ∧
      ((¬∃ fact, isAbout fact) →
        (path.isNull = false → ∃ shown, path.pathItems = .ok shown ∧ shown.map pathElement = items ∧
          outcome = .error (.problem (.noMember shown dimension.dimensionName.shown))) ∧
        (path.isNull = true → outcome = .error (.outside .wrongType))) := by
  intro cuts isAbout outcome
  cases compiled : b.compiler.predicates cuts with
  | error fault =>
    obtain ⟨along, -, query⟩ := exists_detail_eq (c := b.compiler) sound held found given fits
    have refused : b.compiler.detail dimension path cuts hierarchy = .error fault := by
      rw [query, compiled]
      rfl
    have performed := perform_detail_of_refused patience refused
    refine ⟨by rw [performed], ?_, fun conditions same => (by cases same)⟩
    rintro _ ⟨⟩
    exact congrArg Prod.fst performed
  | ok conditions =>
    obtain ⟨after, stays, ⟨fact, record, about, tells, performed⟩ | ⟨absent, performed⟩⟩ :=
      sorts.exists_perform_detail sound held found distinct given fits compiled patience
    · have ended : outcome = .ok record := congrArg Prod.fst performed
      refine ⟨by rw [performed]; exact stays, fun fault same => (by cases same), fun _ _ =>
        ⟨⟨fun _ => ⟨fact, about⟩, fun _ => ⟨record, ended⟩⟩, fun other same => ?_,
          fun absent => absurd ⟨fact, about⟩ absent⟩⟩
      obtain rfl := Except.ok.inj (ended.symm.trans same)
      exact ⟨fact, about, tells⟩
    · have ended : outcome = .error (absence dimension path) := congrArg Prod.fst performed
      have none (record : Row) : outcome ≠ .ok record := by
        rw [ended]
        exact fun same => by cases same
      refine ⟨by rw [performed]; exact stays, fun fault same => (by cases same), fun _ _ =>
        ⟨⟨fun ⟨record, same⟩ => absurd same (none record), fun some => absurd some absent⟩,
          fun record same => absurd same (none record), fun _ => ⟨fun some => ?_, fun null => ?_⟩⟩⟩
      · obtain ⟨shown, listed, same, said⟩ := absence_of_given dimension given some
        exact ⟨shown, listed, same, ended.trans (congrArg _ said)⟩
      · rw [ended, absence, if_pos null]

section Market

open Market

/-- The sales in a country. -/
def salesIn (country : String) : Slice := Slice.ofCuts sales [.point "place" none [.text country]]

theorem predicates_salesIn (country : String) :
    (turningBrowser sales salesTable).compiler.predicates (salesIn country).cuts =
      .ok [.equals "place.country" (.text country)] := rfl

/-- The sales in a country that are about a city, wherever it is. -/
theorem isAbout_city_iff (country city : String) (fact : Row) :
    (turningBrowser sales salesTable).compiler.IsAbout salesTable (salesIn country).cuts cities.levels
        [.wildcard, .text city] fact ↔
      fact ∈ selectRows salesTable.columns
        [.equals "place.country" (.text country), .equals "place.city" (.text city)] salesTable.rows := by
  have pathCompiled : (turningBrowser sales salesTable).compiler.pathConditions cities.levels
      [.wildcard, .text city] = .ok [.equals "place.city" (.text city)] := rfl
  exact (mem_selectRows_iff_isAbout (predicates_salesIn country) pathCompiled (Nat.le_refl 2)).symm

/-- Of the sales in Austria some are in Linz, and none are in Graz. -/
theorem detail_agrees_linz :
    (∃ record fact,
      (perform ((turningBrowser sales salesTable).detail (.text "place")
        (.list [.text "*", .text "Linz"]) .null ⟨.null, none⟩) ⟨salesIn "AT", (), []⟩).1 = .ok record ∧
      fact ∈ salesTable.rows ∧
      (turningBrowser sales salesTable).compiler.TellsOf cities fact record) ∧
    (perform ((turningBrowser sales salesTable).detail (.text "place")
        (.list [.text "*", .text "Graz"]) .null ⟨.null, none⟩) ⟨salesIn "AT", (), []⟩).1 =
      .error (.problem (.noMember [.text "*", .text "Graz"] "place")) := by
  have sorts : (turningBrowser sales salesTable).SortsOver [salesTable] salesTable :=
    sortsOver_turningBrowser rfl
  have held : sales.dimensionOf (.text "place") = .ok place := rfl
  have found : place.hierarchy .null = .ok cities := rfl
  constructor
  · have given : normalizePath (.list [.text "*", .text "Linz"]) = .ok [.wildcard, .text "Linz"] := rfl
    obtain ⟨-, -, agrees⟩ := sorts.detail_agrees isSound_sales held found (by decide) given
      (Nat.le_refl 2) ⟨.null, none⟩ ⟨salesIn "AT", (), []⟩
    obtain ⟨there, tells, -⟩ := agrees _ (predicates_salesIn "AT")
    obtain ⟨record, came⟩ := there.mpr ⟨salesTable.rows[0],
      (isAbout_city_iff "AT" "Linz" _).mpr List.mem_cons_self⟩
    obtain ⟨fact, about, told⟩ := tells record came
    exact ⟨record, fact, came, about.stored, told⟩
  · have given : normalizePath (.list [.text "*", .text "Graz"]) = .ok [.wildcard, .text "Graz"] := rfl
    have absent : ¬∃ fact, (turningBrowser sales salesTable).compiler.IsAbout salesTable
        (salesIn "AT").cuts cities.levels [.wildcard, .text "Graz"] fact := by
      rintro ⟨fact, about⟩
      exact List.not_mem_nil ((isAbout_city_iff "AT" "Graz" fact).mp about)
    obtain ⟨-, -, agrees⟩ := sorts.detail_agrees isSound_sales held found (by decide) given
      (Nat.le_refl 2) ⟨.null, none⟩ ⟨salesIn "AT", (), []⟩
    obtain ⟨-, -, missing⟩ := agrees _ (predicates_salesIn "AT")
    obtain ⟨shown, ⟨⟩, -, came⟩ := (missing absent).1 rfl
    exact came

/-- That there are no sales in Germany can not be told when no path was given. -/
theorem exists_absence_untold :
    (turningBrowser sales salesTable).SortsOver [salesTable] salesTable ∧
      normalizePath .null = .ok [] ∧
      (¬∃ fact, (turningBrowser sales salesTable).compiler.IsAbout salesTable (salesIn "DE").cuts
        cities.levels [] fact) ∧
      (perform ((turningBrowser sales salesTable).detail (.text "place") .null .null ⟨.null, none⟩)
        ⟨salesIn "DE", (), []⟩).1 = .error (.outside .wrongType) := by
  have sorts : (turningBrowser sales salesTable).SortsOver [salesTable] salesTable :=
    sortsOver_turningBrowser rfl
  have held : sales.dimensionOf (.text "place") = .ok place := rfl
  have found : place.hierarchy .null = .ok cities := rfl
  have given : normalizePath .null = .ok [] := rfl
  have pathCompiled : (turningBrowser sales salesTable).compiler.pathConditions cities.levels [] =
      .ok [] := rfl
  have compiled : (turningBrowser sales salesTable).compiler.predicates
      (Session.mk (salesIn "DE") () []).slice.cuts = .ok [.equals "place.country" (.text "DE")] := rfl
  have absent : ¬∃ fact, (turningBrowser sales salesTable).compiler.IsAbout salesTable
      (salesIn "DE").cuts cities.levels [] fact := by
    rintro ⟨fact, about⟩
    exact List.not_mem_nil ((mem_selectRows_iff_isAbout compiled pathCompiled
      (Nat.zero_le 2)).mpr about)
  refine ⟨sorts, given, absent, ?_⟩
  obtain ⟨after, -, ⟨fact, record, about, -⟩ | ⟨-, performed⟩⟩ :=
    sorts.exists_perform_detail isSound_sales held found (by decide) given (Nat.zero_le 2) compiled
      ⟨.null, none⟩
  · exact absurd ⟨fact, about⟩ absent
  · rw [performed]
    rfl

end Market

end Browser

end Olap
