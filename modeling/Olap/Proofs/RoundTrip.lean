/-
Writing a model and reading it back. A model is written with its dimensions in full and then its cubes,
and is made again from the record in the same order. What it is written as then is the same, but for the
order of the fields of its cubes. This needs that no second spelling takes the place of a first one that
is absent: a model may keep a value under a second spelling that it has no use for, and the record of
the model then says more than the model knows.
-/

import Mathlib
import Olap.Proofs.CubeRecords

namespace Olap

/-! ### Written models -/

mutual

/-- Values that are the same but for the order of fields. -/
inductive Alike : Value → Value → Prop
  | same (value : Value) : Alike value value
  | list {items others : List Value} : AlikeItems items others → Alike (.list items) (.list others)
  | record {fields middle others : Row} : AlikeFields fields middle → middle.Perm others →
      Alike (.record fields) (.record others)

/-- Items that are the same one by one. -/
inductive AlikeItems : List Value → List Value → Prop
  | nil : AlikeItems [] []
  | cons {item other : Value} {items others : List Value} : Alike item other →
      AlikeItems items others → AlikeItems (item :: items) (other :: others)

/-- Fields under the same keys with values that are the same. -/
inductive AlikeFields : Row → Row → Prop
  | nil : AlikeFields [] []
  | cons {key : String} {value other : Value} {fields others : Row} : Alike value other →
      AlikeFields fields others → AlikeFields ((key, value) :: fields) ((key, other) :: others)

end

theorem AlikeFields.refl (fields : Row) : AlikeFields fields fields := by
  induction fields with
  | nil => exact .nil
  | cons field rest inductionHypothesis => exact .cons (.same _) inductionHypothesis

theorem AlikeFields.append_left (front : Row) {fields others : Row}
    (alike : AlikeFields fields others) : AlikeFields (front ++ fields) (front ++ others) := by
  induction front with
  | nil => exact alike
  | cons field rest inductionHypothesis => exact .cons (.same _) inductionHypothesis

theorem AlikeItems.of_map {β : Type} {items : List β} {write again : β → Row}
    (each : ∀ item ∈ items, (again item).Perm (write item)) :
    AlikeItems (items.map fun item => .record (again item))
      (items.map fun item => .record (write item)) := by
  induction items with
  | nil => exact .nil
  | cons item rest inductionHypothesis =>
    exact .cons (.record (.refl _) (each item List.mem_cons_self))
      (inductionHypothesis fun other member => each other (List.mem_cons_of_mem _ member))

theorem AlikeFields.exists_mem {fields others : Row} (alike : AlikeFields fields others)
    {key : String} {value : Value} (member : (key, value) ∈ fields) :
    ∃ other, (key, other) ∈ others ∧ Alike value other := by
  cases alike with
  | nil => cases member
  | cons first rest =>
    rcases List.mem_cons.mp member with same | later
    · cases same
      exact ⟨_, List.mem_cons_self, first⟩
    · obtain ⟨other, inside, like⟩ := rest.exists_mem later
      exact ⟨other, List.mem_cons_of_mem _ inside, like⟩

/-- What stands under a key in one of two records stands there in the other one too. -/
theorem Alike.exists_get? {fields others : Row} (alike : Alike (.record fields) (.record others))
    (distinct : (Record.keys others).Nodup) {key : String} {value : Value}
    (found : Record.get? fields key = some value) :
    ∃ other, Record.get? others key = some other ∧ Alike value other := by
  cases alike with
  | same => exact ⟨value, found, .same value⟩
  | record like perm =>
    obtain ⟨other, inside, same⟩ := like.exists_mem (Record.mem_of_get?_eq_some found)
    exact ⟨other, Record.get?_of_mem distinct (perm.mem_iff.mp inside), same⟩

theorem AlikeItems.exists_mem {items others : List Value} (alike : AlikeItems items others)
    {item : Value} (member : item ∈ items) : ∃ other ∈ others, Alike item other := by
  cases alike with
  | nil => cases member
  | cons first rest =>
    rcases List.mem_cons.mp member with rfl | later
    · exact ⟨_, List.mem_cons_self, first⟩
    · obtain ⟨other, inside, like⟩ := rest.exists_mem later
      exact ⟨other, List.mem_cons_of_mem _ inside, like⟩

theorem Alike.exists_item {items others : List Value} (alike : Alike (.list items) (.list others))
    {item : Value} (member : item ∈ items) : ∃ other ∈ others, Alike item other := by
  cases alike with
  | same => exact ⟨item, member, .same item⟩
  | list like => exact like.exists_mem member

namespace Model

open Edit

variable {m : Model}

theorem isWritten (avoids : AvoidsFirsts knownKeys m.header.extra) :
    IsWritten knownKeys [] m.header.kept where
  own := List.nil_subset _
  apart := by decide
  avoids := avoids.kept

/-- The parts of a model as they are written. -/
def writtenParts (m : Model) : Row :=
  [("dimensions", .list (m.dimensions.map fun d => .record d.fields)),
    ("cubes", .list (m.cubes.map fun c => .record (c.toRecord .full)))]

theorem toRecord_eq (avoids : AvoidsFirsts knownKeys m.header.extra) :
    m.toRecord .full = m.header.fields m.name ++ [] ++ m.header.kept ++ m.writtenParts := by
  have written := isWritten avoids
  have all := Header.update_extraFields avoids (written.firsts_front m.header m.name)
  rw [List.append_nil] at all
  have absent {key : String} (isFirst : key ∈ firsts knownKeys) :
      key ∉ Record.keys (m.header.fields m.name ++ m.header.kept) := by
    have none := written.get?_front m.header m.name isFirst
    rw [List.append_nil] at none
    exact Record.get?_eq_none_iff.mp none
  have dimensions := absent (by decide : "dimensions" ∈ firsts knownKeys)
  have cubes : "cubes" ∉ Record.keys (m.header.fields m.name ++ m.header.kept ++
      [("dimensions", Datum.list (m.dimensions.map fun d => .record d.fields))]) := by
    rw [Record.keys_append, List.mem_append, not_or]
    exact ⟨absent (by decide), by simp [Record.keys]⟩
  unfold toRecord
  rw [all]
  show Record.set (Record.set _ "dimensions" (Datum.list (m.dimensions.map fun d => .record d.fields)))
    "cubes" (Datum.list (m.cubes.map fun c => .record (c.toRecord .full))) = _
  rw [Record.set_of_notMem dimensions, Record.set_of_notMem cubes, List.append_nil, List.append_assoc]
  rfl

/-- The model that is read from a written one. -/
def reread (m : Model) : Model :=
  let dimensions := m.dimensions.map (·.reread)
  { m with
    header := { m.header with extra := m.header.kept }
    dimensions
    cubes := m.cubes.map (·.reread dimensions m.name) }

theorem isSome_findDimension?_reread {name : String} (registered : name ∈ m.dimensionNames) :
    (findDimension? name (m.dimensions.map (·.reread))).isSome := by
  obtain ⟨d, inside, same⟩ := List.mem_map.mp registered
  exact List.find?_isSome.mpr ⟨d.reread, List.mem_map_of_mem inside, beq_iff_eq.mpr same⟩

section Building

variable (name : Option String) (header : Header)

/-- Dimensions are made from written ones, one after the other. -/
theorem addDimensions_written {dimensions : List Dimension}
    (settled : ∀ d ∈ dimensions, d.IsSettled) (told : ∀ d ∈ dimensions, d.SaysDefault)
    (before : List Dimension) (distinct : ((before ++ dimensions).map (·.name)).Nodup) :
    perform (addDimensions (dimensions.map fun d => .record (Datum.liftFields d.fields)))
      ⟨name, header, before, []⟩ =
        (.ok (), ⟨name, header, before ++ dimensions.map (·.reread), []⟩) := by
  induction dimensions generalizing before with
  | nil =>
    rw [List.map_nil, List.map_nil, List.append_nil]
    rfl
  | cons d rest inductionHypothesis =>
    have fresh : hasDimension ⟨name, header, before, []⟩ d.name = false :=
      List.any_eq_false.mpr fun other inside same =>
        ne_of_nodup_map_append distinct other inside (beq_iff_eq.mp same)
    have made : dimensionToAdd (.record (Datum.liftFields d.fields)) = .ok d.reread :=
      createFrom_record_ok.2
        ((settled d List.mem_cons_self).ofFields_fields (told d List.mem_cons_self))
    have others := inductionHypothesis
      (fun other member => settled other (List.mem_cons_of_mem _ member))
      (fun other member => told other (List.mem_cons_of_mem _ member))
      (before ++ [d.reread]) (by simpa [Dimension.reread] using distinct)
    refine perform_bind_ok.2 ⟨d.reread, _, addDimension_ok.2 ⟨made, fresh, rfl⟩, others.trans ?_⟩
    rw [List.append_assoc]
    rfl

/-- Cubes are made from written ones, one after the other. -/
theorem createCubes_written {dimensions : List Dimension} {cubes : List Cube}
    (settled : ∀ c ∈ cubes, c.IsSettled) (told : ∀ c ∈ cubes, c.SaysTable)
    (held : ∀ c ∈ cubes, c.dimensionNames.Nodup)
    (found : ∀ c ∈ cubes, ∀ name ∈ c.dimensionNames, (findDimension? name dimensions).isSome)
    (before : List Cube) (distinct : ((before ++ cubes).map (·.name)).Nodup) :
    perform (createCubes (cubes.map fun c => .record (Datum.liftFields (c.toRecord .full))))
      ⟨name, header, dimensions, before⟩ =
        (.ok (), ⟨name, header, dimensions, before ++ cubes.map (·.reread dimensions name)⟩) := by
  induction cubes generalizing before with
  | nil =>
    rw [List.map_nil, List.map_nil, List.append_nil]
    rfl
  | cons c rest inductionHypothesis =>
    have fresh : hasCube ⟨name, header, dimensions, before⟩ c.name = false :=
      List.any_eq_false.mpr fun other inside same =>
        ne_of_nodup_map_append distinct other inside (beq_iff_eq.mp same)
    have made := (settled c List.mem_cons_self).createDescribed_toRecord (told c List.mem_cons_self)
      (held c List.mem_cons_self) (found c List.mem_cons_self) fresh
    have others := inductionHypothesis
      (fun other member => settled other (List.mem_cons_of_mem _ member))
      (fun other member => told other (List.mem_cons_of_mem _ member))
      (fun other member => held other (List.mem_cons_of_mem _ member))
      (fun other member => found other (List.mem_cons_of_mem _ member))
      (before ++ [c.reread dimensions name])
      (by simpa [Cube.reread, Cube.rereadBare] using distinct)
    refine perform_bind_ok.2 ⟨(), _, made, others.trans ?_⟩
    rw [List.append_assoc]
    rfl

end Building

/-! ### Models read back -/

theorem get?_toRecord (avoids : AvoidsFirsts knownKeys m.header.extra) {key : String}
    (apart : key ∉ firsts knownKeys) :
    Record.get? (m.toRecord .full) key =
      Record.get? (m.header.fields m.name ++ [] ++ m.header.kept) key := by
  have absent : key ∉ Record.keys m.writtenParts := by
    simpa [writtenParts, Record.keys, firsts, knownKeys] using apart
  rw [toRecord_eq avoids, Record.get?_append, Record.get?_eq_none_iff.mpr absent, Option.or_none]

theorem get?_toRecord_parts (avoids : AvoidsFirsts knownKeys m.header.extra) {key : String}
    (part : key ∈ firsts knownKeys) :
    Record.get? (m.toRecord .full) key = Record.get? m.writtenParts key := by
  rw [toRecord_eq avoids, Record.get?_append, (isWritten avoids).get?_front _ _ part]
  rfl

theorem leftOver_toRecord (avoids : AvoidsFirsts knownKeys m.header.extra) :
    leftOver (headerKeys ++ knownKeys) (m.toRecord .full) = m.header.kept := by
  have written := isWritten avoids
  have parts {key : String} (member : key ∈ Record.keys m.writtenParts) :
      key ∈ firsts (headerKeys ++ knownKeys) := by
    revert member
    simp only [writtenParts, Record.keys, List.map_cons, List.map_nil, List.mem_cons, List.not_mem_nil]
    rintro (rfl | rfl | none)
    · decide
    · decide
    · cases none
  have used : ∀ key ∈ Record.keys (m.header.fields m.name ++ [] ++ m.writtenParts),
      key ∈ firsts (headerKeys ++ knownKeys) := by
    intro key member
    rw [Record.keys_append, List.mem_append] at member
    exact member.elim (written.firsts_front _ _ key) parts
  have second : ∀ spellings ∈ headerKeys ++ knownKeys, spellings.tail = [] ∨
      spellings = ["dimensions", "dimension_descs"] ∨ spellings = ["cubes", "cube_descs"] := by
    decide
  have inParts {key : String} (part : key ∈ Record.keys m.writtenParts) : key ∈ Record.keys
      (m.header.fields m.name ++ [] ++ m.header.kept ++ m.writtenParts) := by
    rw [Record.keys_append]
    exact List.mem_append_right _ part
  rw [toRecord_eq avoids, leftOver_between _ _ _ used fun _ => true]
  · exact List.filter_eq_self.mpr fun _ _ => rfl
  · refine fun key member => iff_of_true rfl fun spellings field => ?_
    refine usedKey?_ne (fun isFirst => written.avoids key isFirst member) field ?_
    rintro first others rfl
    rcases second _ field with none | same | same
    · rw [show others = [] from none]
      exact Or.inr List.not_mem_nil
    · cases same
      exact Or.inl (inParts (by simp [writtenParts, Record.keys]))
    · cases same
      exact Or.inl (inParts (by simp [writtenParts, Record.keys]))

/-- What a model is written as is accepted, and the model that is made of it has the same parts. -/
theorem IsSettled.roundTrip_eq (settled : m.IsSettled)
    (defaults : ∀ d ∈ m.dimensions, d.SaysDefault) (tables : ∀ c ∈ m.cubes, c.SaysTable)
    (registered : ∀ c ∈ m.cubes, ∀ name ∈ c.dimensionNames, name ∈ m.dimensionNames) :
    m.roundTrip = .ok m.reread := by
  have written := isWritten settled.extra
  have dimensions : givenIn ["dimensions", "dimension_descs"] (m.toRecord .full) =
      some (.list (m.dimensions.map fun d => .record d.fields)) := by
    rw [givenIn_two, get?_toRecord_parts settled.extra (by decide)]
    rfl
  have cubes : givenIn ["cubes", "cube_descs"] (m.toRecord .full) =
      some (.list (m.cubes.map fun c => .record (c.toRecord .full))) := by
    rw [givenIn_two, get?_toRecord_parts settled.extra (by decide)]
    rfl
  have found : ∀ c ∈ m.cubes, ∀ name ∈ c.dimensionNames,
      (findDimension? name (m.dimensions.map (·.reread))).isSome :=
    fun c member name held => isSome_findDimension?_reread (registered c member name held)
  have added := addDimensions_written m.name { m.header with extra := m.header.kept }
    settled.dimensions defaults [] settled.registry.dimensions
  have created := createCubes_written m.name { m.header with extra := m.header.kept }
    settled.cubes tables settled.registry.held found [] settled.registry.cubes
  refine ofRecord_ok.2 ⟨_, ⟨m.name, { m.header with extra := m.header.kept }, _, _⟩, rfl,
    checkDraft_ok.2 ⟨?_, ?_, ?_, ?_⟩, ofDraft_ok.2 (perform_bind_ok.2 ⟨(), _, added, created⟩)⟩
  · refine checkNameField_of_written settled.name ?_
    rw [get?_toRecord settled.extra (by decide), written.get?_header _ _ (by decide),
      Header.get?_fields_name]
  · rw [← leftOver_toRecord settled.extra]
    refine checkHeader_of_written ?_ ?_ ?_
    · rw [get?_toRecord settled.extra (by decide), written.get?_header _ _ (by decide),
        Header.get?_fields_label]
    · rw [get?_toRecord settled.extra (by decide), written.get?_header _ _ (by decide),
        Header.get?_fields_description]
    · rw [get?_toRecord settled.extra (by decide), written.get?_header _ _ (by decide),
        Header.get?_fields_info]
  · refine checkField_of_given dimensions (Check.result_ofResult.2 ?_)
    rw [Datum.lift_records]
    exact namedObjects_records _ _ _
  · refine checkField_of_given cubes (Check.result_ofResult.2 ?_)
    rw [Datum.lift_records]
    exact namedObjects_records _ _ _

/-- A model that was read back is written as before, but for the order of the fields of cubes. -/
theorem IsSettled.alike_reread (settled : m.IsSettled) (tables : ∀ c ∈ m.cubes, c.SaysTable)
    (registered : ∀ c ∈ m.cubes, ∀ name ∈ c.dimensionNames, name ∈ m.dimensionNames) :
    Alike (.record (m.reread.toRecord .full)) (.record (m.toRecord .full)) := by
  have found : ∀ c ∈ m.cubes, ∀ name ∈ c.dimensionNames,
      (findDimension? name (m.dimensions.map (·.reread))).isSome :=
    fun c member name held => isSome_findDimension?_reread (registered c member name held)
  have kept : Header.kept m.reread.header = m.header.kept := (isTidy_kept m.header).kept_eq _
  have dimensions : m.reread.dimensions.map (fun d => Datum.record d.fields) =
      m.dimensions.map fun d => .record d.fields :=
    map_record_congr fun d member => (settled.dimensions d member).fields_reread
  have cubes : AlikeItems (m.reread.cubes.map fun c => .record (c.toRecord .full))
      (m.cubes.map fun c => .record (c.toRecord .full)) := by
    show AlikeItems ((m.cubes.map _).map _) _
    rw [List.map_map]
    exact AlikeItems.of_map fun c member =>
      (settled.cubes c member).toRecord_reread (tables c member) (found c member) m.name
  have again : AvoidsFirsts knownKeys m.reread.header.extra := settled.extra.kept
  rw [toRecord_eq again, toRecord_eq settled.extra, kept]
  refine .record (.append_left _ ?_) (List.Perm.refl _)
  unfold writtenParts
  rw [dimensions]
  exact .cons (.same _) (.cons (.list cubes) .nil)

/-- A model that is made of data is written as a record that the same model can be made of: it is
accepted, and what is made of it is written as the same record again, in which only the fields of cubes
may stand in another order. Two kinds of values under second spellings have to be left aside, and
dimensions of cubes that the model has not registered. -/
theorem exists_roundTrip_alike {value : Value} (made : ofRecord value.lift = .ok m)
    (defaults : ∀ d ∈ m.dimensions, d.SaysDefault) (tables : ∀ c ∈ m.cubes, c.SaysTable)
    (registered : ∀ c ∈ m.cubes, ∀ name ∈ c.dimensionNames, name ∈ m.dimensionNames) :
    ∃ again, m.roundTrip = .ok again ∧
      Alike (.record (again.toRecord .full)) (.record (m.toRecord .full)) := by
  have settled := isSettled_ofRecord ⟨value, rfl⟩ made
  exact ⟨m.reread, settled.roundTrip_eq defaults tables registered,
    settled.alike_reread tables registered⟩

/-- Sales at places, whose table is given under the second spelling, between extra fields. -/
def described : Value :=
  .record [("name", .text "market"),
    ("dimensions", .record [("place", .record [("levels", .list [.text "country", .text "city"]),
      ("hierarchies", .list [.record [("name", .text "cities"), ("levels", .list [.text "city"])]]),
      ("default_hierarchy", .text "cities"), ("level_names", .text "two")])]),
    ("cubes", .list [.record [("name", .text "sales"), ("dimensions", .list [.text "place"]),
      ("measures", .list [.text "amount"]), ("fact_table", .null), ("fact", .text "facts"),
      ("owner", .text "us")]])]

theorem exists_roundTrip_alike_described : ∃ m, ofRecord described.lift = .ok m ∧
    ∃ again, m.roundTrip = .ok again ∧
      Alike (.record (again.toRecord .full)) (.record (m.toRecord .full)) := by
  obtain ⟨m, made⟩ : ∃ m, ofRecord described.lift = .ok m := ⟨_, rfl⟩
  refine ⟨m, made, exists_roundTrip_alike made ?_ ?_ ?_⟩ <;> cases made
  · intro d member
    cases List.mem_singleton.mp member
    exact nofun
  · intro c member
    cases List.mem_singleton.mp member
    intro _ value kept
    rcases List.mem_pair.mp kept with fact | owner
    · exact Or.inr ⟨"facts", congrArg Prod.snd fact⟩
    · have key : "fact" = "owner" := congrArg Prod.fst owner
      exact absurd key (by decide)
  · decide +kernel

/-- A default hierarchy under the second spelling, the first one being null. -/
def undecided : Value :=
  .record [("dimensions", .list [.record [("name", .text "place"), ("levels", .list [.text "city"]),
    ("default_hierarchy_name", .null), ("default_hierarchy", .text "cities")]])]

/-- A table under the second spelling that is no text, the first one being null. -/
def untabled : Value :=
  .record [("cubes", .list [.record [("name", .text "sales"), ("fact_table", .null),
    ("fact", .bool true)]])]

/-- What is kept under a second spelling is taken for the first one when a written model is read: the
model then says something else, or is not accepted. And cubes are written with the names of their
dimensions only, so one that the model has not registered is not found when the model is read. -/
theorem exists_roundTrip_changed :
    (∃ m, ofRecord undecided.lift = .ok m ∧ ∃ again, m.roundTrip = .ok again ∧
      ¬Alike (.record (again.toRecord .full)) (.record (m.toRecord .full))) ∧
    (∃ m, ofRecord untabled.lift = .ok m ∧ ∃ fault, m.roundTrip = .error fault) ∧
    ∃ m, ofRecord stray = .ok m ∧
      m.roundTrip = .error (.problem (.dimensionUnregistered (some "place") "sales" none)) := by
  refine ⟨⟨_, rfl, _, rfl, fun alike => ?_⟩, ⟨_, rfl, _, rfl⟩, ⟨_, rfl, rfl⟩⟩
  obtain ⟨_, written, dimensions⟩ := alike.exists_get? (by decide +kernel)
    (show Record.get? _ "dimensions" = some (.list _) from rfl)
  cases written
  obtain ⟨_, only, place⟩ := dimensions.exists_item List.mem_cons_self
  cases List.mem_singleton.mp only
  obtain ⟨_, absent, -⟩ := place.exists_get? (by decide +kernel)
    (show Record.get? _ "default_hierarchy_name" = some (.text "cities") from rfl)
  cases absent

end Model

end Olap
