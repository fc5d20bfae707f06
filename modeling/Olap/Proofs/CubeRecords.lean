/-
Reading written cubes back. A cube is written without the dimensions themselves, and its table under the
second spelling, so that the table stands among the extra fields. A model that has the dimensions makes
the cube again from its record. The place of the table may change when the cube is written again, and
nothing else does: the record has the same fields.
-/

import Mathlib
import Olap.Proofs.Rereading

namespace Olap

namespace Check

variable {α β : Type} {check : α → Check β} {write : β → α}

/-- Fields that were written are checked one by one. -/
theorem eachField_map_ok (each : ∀ item, (check (write item)).result = .ok item)
    (fields : List (String × β)) :
    (eachField check (fields.map fun field => (field.1, write field.2))).result = .ok fields := by
  induction fields with
  | nil => rfl
  | cons field rest inductionHypothesis =>
    simp only [List.map_cons, eachField, Check.result_seq, Check.result_map, Check.result_under]
    exact ⟨_, _, ⟨field.2, each field.2, rfl⟩, inductionHypothesis, rfl⟩

end Check

namespace Cube

/-! ### Written cubes -/

/-- The fields of a cube behind its header, with a table under its first spelling. -/
def fieldsWith (table : Option String) (c : Cube) : Row :=
  [("measures", .list (c.measures.map fun a => .record a.fields)),
    ("details", .list (c.details.map fun a => .record a.fields)),
    ("mappings", .record (c.mappings.map fun m => (m.1, .text m.2)))] ++
    textField "fact_table" table ++
    (c.joins.elim [] fun joins => [("joins", .list (joins.map .record))]) ++
    [("key_field", .text c.keyField)]

/-- The fields of a written cube behind its header. -/
def ownFields (c : Cube) : Row := c.fieldsWith none

/-- The extra fields of a cube before its table is one of them. -/
def plainExtra (c : Cube) : Row :=
  Record.ofPairs (Record.erase c.header.extraFields "dimension_links")

/-- The extra fields of a cube with the table under its second spelling. -/
def withTable (table : Option String) (extra : Row) : Row :=
  table.elim extra fun table => Record.set extra "fact" (.text table)

/-- The extra fields of a written cube. -/
def writtenExtra (c : Cube) : Row :=
  Record.erase (withTable c.factTable c.plainExtra) "dimension_names"

variable {c : Cube}

theorem keys_fieldsWith (table : Option String) (c : Cube) :
    Record.keys (c.fieldsWith table) ⊆ firsts knownKeys := by
  unfold fieldsWith
  cases c.joins <;> cases table <;> simp [Record.keys, textField, firsts, knownKeys]

theorem get?_fieldsWith_table (table : Option String) (c : Cube) :
    Record.get? (c.fieldsWith table) "fact_table" = table.map .text := by
  unfold fieldsWith
  cases c.joins <;> simp [Record.get?_append, Record.get?_cons, get?_textField_self,
    show Record.get? ([] : Row) "fact_table" = none from rfl]

theorem erase_fieldsWith (table : Option String) (c : Cube) :
    Record.erase (c.fieldsWith table) "fact_table" = c.ownFields := by
  unfold ownFields fieldsWith
  cases c.joins <;> cases table <;> simp [Record.erase, textField]

theorem avoidsFirsts_withTable {table : Option String} {extra : Row}
    (avoids : AvoidsFirsts knownKeys extra) : AvoidsFirsts knownKeys (withTable table extra) := by
  cases table with
  | none => exact avoids
  | some table => exact avoids.set (by decide) _

theorem isTidy_withTable {table : Option String} {extra : Row} (tidy : IsTidy extra) :
    IsTidy (withTable table extra) := by
  cases table with
  | none => exact tidy
  | some table => exact tidy.set "fact" rfl

theorem isTidy_writtenExtra (c : Cube) : IsTidy c.writtenExtra := by
  refine (isTidy_withTable ⟨Record.nodup_keys_ofPairs _, fun field member => ?_⟩).erase _
  have kept := List.mem_of_mem_filter (Record.mem_of_mem_ofPairs member)
  simpa using (List.mem_filter.mp kept).2

theorem isWritten_fieldsWith (table : Option String) (avoids : AvoidsFirsts knownKeys c.header.extra) :
    IsWritten knownKeys (c.fieldsWith table) c.plainExtra where
  own := keys_fieldsWith table c
  apart := by decide
  avoids first isFirst member := by
    obtain ⟨field, inside, rfl⟩ := List.mem_map.mp member
    have kept := List.mem_of_mem_filter (Record.mem_of_mem_ofPairs inside)
    exact avoids _ isFirst (Record.mem_keys_of_mem (List.mem_of_mem_filter kept))

theorem isWritten_withTable (avoids : AvoidsFirsts knownKeys c.header.extra) :
    IsWritten knownKeys c.ownFields (withTable c.factTable c.plainExtra) :=
  { isWritten_fieldsWith none avoids with
    avoids := avoidsFirsts_withTable (isWritten_fieldsWith none avoids).avoids }

theorem isWritten (avoids : AvoidsFirsts knownKeys c.header.extra) :
    IsWritten knownKeys c.ownFields c.writtenExtra :=
  { isWritten_withTable avoids with avoids := (isWritten_withTable avoids).avoids.erase _ }

/-- A record with the table under its second spelling. -/
def moveTable (all : Row) : Row :=
  match Record.get? all "fact_table" with
  | some table => Record.set (Record.erase all "fact_table") "fact" table
  | none => all

theorem toRecord_full (c : Cube) :
    c.toRecord .full =
      Record.erase
        (Record.set
          (moveTable (Record.update (c.header.fields c.name ++ c.fieldsWith c.factTable)
            (Record.erase c.header.extraFields "dimension_links")))
          "dimensions" (.list (c.dimensionNames.map .text))) "dimension_names" := by
  unfold fieldsWith
  simp only [← List.append_assoc]
  rfl

theorem moveTable_eq (avoids : AvoidsFirsts knownKeys c.header.extra) :
    moveTable (Record.update (c.header.fields c.name ++ c.fieldsWith c.factTable)
        (Record.erase c.header.extraFields "dimension_links")) =
      c.header.fields c.name ++ c.ownFields ++ withTable c.factTable c.plainExtra := by
  have written := isWritten_fieldsWith c.factTable avoids
  have all : Record.update (c.header.fields c.name ++ c.fieldsWith c.factTable)
      (Record.erase c.header.extraFields "dimension_links") =
      c.header.fields c.name ++ c.fieldsWith c.factTable ++ c.plainExtra := by
    refine Record.update_of_notMem fun key member inFront => ?_
    refine avoids key (written.firsts_front _ _ key inFront) ?_
    obtain ⟨field, inside, rfl⟩ := List.mem_map.mp member
    exact Record.mem_keys_of_mem (List.mem_of_mem_filter (List.mem_of_mem_filter inside))
  unfold moveTable
  rw [all, written.get?_front _ _ (by decide), get?_fieldsWith_table]
  cases c.factTable with
  | none => rfl
  | some text =>
    dsimp only [Option.map_some]
    rw [Record.erase_append, Record.erase_append, erase_fieldsWith, Record.erase_of_notMem,
      Record.erase_of_notMem]
    · exact (isWritten_fieldsWith none avoids).set_eq _ _ (by decide) _
    · exact written.avoids "fact_table" (by decide)
    · exact fun member => absurd (c.header.mem_keys_fields c.name member) (by decide)

theorem dimensions_notMem_ownFields (c : Cube) : "dimensions" ∉ Record.keys c.ownFields := by
  unfold ownFields fieldsWith
  cases c.joins <;> simp [Record.keys, textField]

theorem toRecord_eq (avoids : AvoidsFirsts knownKeys c.header.extra) :
    c.toRecord .full = c.header.fields c.name ++ c.ownFields ++ c.writtenExtra ++
      [("dimensions", .list (c.dimensionNames.map .text))] := by
  have written := isWritten_withTable avoids
  rw [toRecord_full, moveTable_eq avoids, Record.set_of_notMem, Record.erase_append,
    Record.erase_append, Record.erase_of_notMem]
  · rfl
  · exact fun member => absurd (written.firsts_front _ _ _ member) (by decide)
  · refine Record.get?_eq_none_iff.mp ?_
    rw [written.get?_front _ _ (by decide)]
    exact Record.get?_eq_none_iff.mpr (dimensions_notMem_ownFields c)

/-! ### Reading a written cube -/

/-- The table that a written cube has. -/
def writtenTable (c : Cube) : Option String := (Record.get? c.writtenExtra "fact").bind Datum.text?

/-- The cube that is read from a written one, before it has dimensions. -/
def rereadBare (c : Cube) : Cube :=
  { c with
    header := { c.header with extra := Record.erase c.writtenExtra "fact" }
    measures := c.measures.map (·.reread)
    details := c.details.map (·.reread)
    factTable := c.writtenTable
    dimensions := []
    owner := .standalone }

/-- If a cube does not say which table it is for, then no extra field says it under the second spelling,
unless it is a text. -/
def SaysTable (c : Cube) : Prop :=
  c.factTable = none →
    ∀ value, ("fact", value) ∈ c.header.extra → value = .null ∨ ∃ text, value = .text text

theorem SaysTable.get?_writtenExtra (told : c.SaysTable) :
    Record.get? c.writtenExtra "fact" = c.writtenTable.map .text := by
  have isText : ∀ value, Record.get? c.writtenExtra "fact" = some value →
      ∃ text, value = .text text := by
    intro value found
    rw [writtenExtra, Record.get?_erase_of_ne _ (by decide)] at found
    cases table : c.factTable with
    | none =>
      rw [table] at found
      have inside := Record.mem_of_mem_ofPairs (Record.mem_of_get?_eq_some found)
      have kept := List.mem_filter.mp (List.mem_of_mem_filter inside)
      rcases told table value kept.1 with rfl | isText
      · cases kept.2
      · exact isText
    | some text =>
      rw [table] at found
      obtain rfl := Option.some.inj ((Record.get?_set_self _ _ _).symm.trans found)
      exact ⟨text, rfl⟩
  unfold writtenTable
  cases found : Record.get? c.writtenExtra "fact" with
  | none => rfl
  | some value =>
    obtain ⟨text, rfl⟩ := isText value found
    rfl

/-- The fields that a written cube is read from, its name being given apart. -/
def givenFields (c : Cube) : Row :=
  c.header.fields none ++ c.ownFields ++ c.writtenExtra ++ [("name", .text c.name)]

theorem links_notMem_writtenExtra (c : Cube) :
    "dimension_links" ∉ Record.keys c.writtenExtra := by
  have plain : "dimension_links" ∉ Record.keys c.plainExtra := by
    intro member
    obtain ⟨field, inside, same⟩ := List.mem_map.mp member
    have kept := (List.mem_filter.mp (Record.mem_of_mem_ofPairs inside)).2
    rw [same] at kept
    exact absurd kept (by decide)
  intro member
  have inside := List.map_subset _ (List.filter_subset_self _) member
  cases table : c.factTable with
  | none =>
    rw [table] at inside
    exact plain inside
  | some text =>
    rw [table] at inside
    rcases Record.mem_keys_set.mp inside with before | fact
    · exact plain before
    · exact absurd fact (by decide)

theorem mem_keys_givenFields {key : String} :
    key ∈ Record.keys c.givenFields ↔ key ∈ Record.keys (c.header.fields none) ∨
      key ∈ Record.keys c.ownFields ∨ key ∈ Record.keys c.writtenExtra ∨ key = "name" := by
  simp only [givenFields, Record.keys_append, List.mem_append, or_assoc]
  exact or_congr_right (or_congr_right (or_congr_right List.mem_singleton))

/-- Other extra fields than the table are not used. -/
theorem usedKey?_givenFields_ne (avoids : AvoidsFirsts knownKeys c.writtenExtra) {key : String}
    (member : key ∈ Record.keys c.writtenExtra) (different : key ≠ "fact") :
    ∀ spellings ∈ headerKeys ++ knownKeys, usedKey? spellings c.givenFields ≠ some key := by
  have second : ∀ spellings ∈ headerKeys ++ knownKeys, spellings.tail = [] ∨
      spellings = ["details", "attributes"] ∨ spellings = ["fact_table", "fact"] ∨
      spellings = ["key_field", "key"] ∨ spellings = ["dimensions", "dimension_links"] := by
    decide
  have inFront {first : String} (own : first ∈ Record.keys c.ownFields) :
      first ∈ Record.keys c.givenFields := mem_keys_givenFields.mpr (Or.inr (Or.inl own))
  intro spellings field
  refine usedKey?_ne (fun isFirst => avoids key isFirst member) field ?_
  rintro first others rfl
  rcases second _ field with none | same | same | same | same
  · rw [show others = [] from none]
    exact Or.inr List.not_mem_nil
  · cases same
    exact Or.inl (inFront (by simp [ownFields, fieldsWith, Record.keys]))
  · cases same
    exact Or.inr fun fact => different (List.mem_singleton.mp fact)
  · cases same
    exact Or.inl (inFront (by simp [ownFields, fieldsWith, Record.keys]))
  · cases same
    exact Or.inr fun links => links_notMem_writtenExtra c (List.mem_singleton.mp links ▸ member)

theorem factTable_notMem_givenFields (avoids : AvoidsFirsts knownKeys c.writtenExtra) :
    "fact_table" ∉ Record.keys c.givenFields := by
  rw [mem_keys_givenFields]
  rintro (inHeader | own | extra | isName)
  · exact absurd (c.header.mem_keys_fields none inHeader) (by decide)
  · exact Record.get?_eq_none_iff.mp (get?_fieldsWith_table none c) own
  · exact avoids _ (by decide) extra
  · exact absurd isName (by decide)

/-- Of the extra fields that were written the table is used, as it has no other place. -/
theorem leftOver_givenFields (avoids : AvoidsFirsts knownKeys c.header.extra) :
    leftOver (headerKeys ++ knownKeys) c.givenFields = Record.erase c.writtenExtra "fact" := by
  have written := isWritten avoids
  have used : ∀ key ∈ Record.keys (c.header.fields none ++ c.ownFields ++ [("name", .text c.name)]),
      key ∈ firsts (headerKeys ++ knownKeys) := by
    intro key member
    rw [Record.keys_append, List.mem_append] at member
    rcases member with inFront | isName
    · exact written.firsts_front _ _ key inFront
    · rw [show key = "name" from List.mem_singleton.mp isName]
      decide
  refine leftOver_between _ _ _ used (· != "fact") fun key member => ?_
  show _ ↔ ∀ spellings ∈ headerKeys ++ knownKeys, usedKey? spellings c.givenFields ≠ some key
  rw [bne_iff_ne]
  refine ⟨usedKey?_givenFields_ne written.avoids member, ?_⟩
  rintro unused rfl
  refine unused ["fact_table", "fact"] (by decide) ?_
  have absent : Record.contains c.givenFields "fact_table" = false := by
    rw [Bool.eq_false_iff, Ne, Record.contains_eq_true_iff]
    exact factTable_notMem_givenFields written.avoids
  rw [usedKey?, List.find?_cons, absent]
  exact usedKey?_of_first (mem_keys_givenFields.mpr (Or.inr (Or.inr (Or.inl member)))) []

theorem get?_ownFields_joins (c : Cube) :
    Record.get? c.ownFields "joins" = c.joins.map fun joins => .list (joins.map .record) := by
  unfold ownFields fieldsWith
  cases c.joins <;> simp [textField, Record.get?_cons,
    show Record.get? ([] : Row) "joins" = none from rfl]

theorem get?_ownFields_keyField (c : Cube) :
    Record.get? c.ownFields "key_field" = some (.text c.keyField) := by
  unfold ownFields fieldsWith
  cases c.joins <;> simp [textField, Record.get?_cons]

theorem checkMappings_written (mappings : List (String × String)) :
    (checkMappings (Datum.lift (.record (mappings.map fun m => (m.1, .text m.2))))).result =
      .ok mappings := by
  rw [Datum.lift, Datum.liftFields_eq_map, List.map_map]
  exact Check.eachField_map_ok (fun _ => text_ok.2 rfl) mappings

theorem checkJoins_written (joins : List Row) :
    (Coerce.optional checkJoins (Datum.lift (.list (joins.map .record)))).result =
      .ok (some joins) := by
  have each : (checkJoins (.list (joins.map fun row => .record (Datum.liftFields row)))).result =
      .ok joins := by
    show (Check.eachFrom _ 0 ((joins.map _).map Item.datum)).result = _
    rw [List.map_map]
    refine Check.eachFrom_map_ok (fun row _ => ?_) 0
    exact Check.result_map.2 ⟨_, rfl, Datum.plainFields_liftFields _ row⟩
  rw [show Datum.lift (.list (joins.map .record)) = _ from Datum.lift_records id joins]
  exact optional_ok.2 (Or.inr ⟨nofun, joins, each, rfl⟩)

theorem checkNames_reread (name : String) (measures details : List Attribute) :
    checkNames name (measures.map (·.reread)) (details.map (·.reread)) =
      checkNames name measures details := by
  have names (attributes : List Attribute) :
      (attributes.map (·.reread)).map (·.name) = attributes.map (·.name) := List.map_map ..
  unfold checkNames
  rw [names, names]

theorem checkAttributes_records {kind : AttributeKind} {attributes : List Attribute}
    (settled : ∀ a ∈ attributes, a.IsSettled ∧ a.kind = kind) :
    (checkAttributes kind (Datum.lift (.list (attributes.map fun a => .record a.fields)))).result =
      .ok (attributes.map (·.reread)) := by
  unfold checkAttributes
  rw [Attribute.listOf_fields settled]
  rfl

theorem IsSettled.ofFields_givenFields (settled : c.IsSettled) (told : c.SaysTable) :
    ofFields (Datum.liftFields c.givenFields) = .ok c.rereadBare := by
  have written := isWritten settled.extra
  have other {key : String} (different : key ≠ "name") : Record.get? c.givenFields key =
      Record.get? (c.header.fields none ++ c.ownFields ++ c.writtenExtra) key := by
    rw [givenFields, Record.get?_append, Record.get?_cons, if_neg (Ne.symm different)]
    exact Option.or_none
  have given {first : String} (isFirst : first ∈ firsts knownKeys) :
      Record.get? c.givenFields first = Record.get? c.ownFields first := by
    have different : first ≠ "name" := by
      rintro rfl
      exact absurd isFirst (by decide)
    rw [other different, written.get?_front _ _ isFirst]
  refine ofFields_ok.2 ⟨⟨c.name, { c.header with extra := Record.erase c.writtenExtra "fact" },
    c.measures.map (·.reread), c.details.map (·.reread), c.mappings, c.writtenTable, c.joins,
    c.keyField, []⟩, checkDraft_ok.2 ⟨?_, ?_, ?_, ?_, ?_, ?_, ?_, ?_, ?_⟩,
    ofDraft_ok.2 ⟨c.name, rfl, ?_, rfl⟩⟩
  · refine checkNameField_of_written settled.name ?_
    have absent :
        Record.get? (c.header.fields none ++ c.ownFields ++ c.writtenExtra) "name" = none := by
      rw [written.get?_header _ _ (by decide), Header.get?_fields_name]
      rfl
    rw [givenFields, Record.get?_append, absent]
    rfl
  · rw [← leftOver_givenFields settled.extra]
    refine checkHeader_of_written ?_ ?_ ?_
    · rw [other (by decide), written.get?_header _ _ (by decide), Header.get?_fields_label]
    · rw [other (by decide), written.get?_header _ _ (by decide), Header.get?_fields_description]
    · rw [other (by decide), written.get?_header _ _ (by decide), Header.get?_fields_info]
  · refine checkField_of_given (((givenIn_one _ _).trans (given (by decide))).trans rfl) ?_
    exact checkAttributes_records fun a member =>
      ⟨(settled.measures a member).toIsSettled, (settled.measures a member).kind⟩
  · have details : givenIn ["details", "attributes"] c.givenFields =
        some (.list (c.details.map fun a => .record a.fields)) := by
      rw [givenIn_two, given (by decide)]
      rfl
    exact checkField_of_given details (checkAttributes_records fun a member =>
      ⟨(settled.details a member).toIsSettled, (settled.details a member).kind⟩)
  · refine checkField_of_given (((givenIn_one _ _).trans (given (by decide))).trans rfl) ?_
    exact checkMappings_written c.mappings
  · refine checkText_of_written ?_
    rw [givenIn_two, given (by decide), other (by decide), written.get?_extra _ _ (by decide),
      told.get?_writtenExtra, ownFields, get?_fieldsWith_table]
    rfl
  · have joins : givenIn ["joins"] c.givenFields =
        c.joins.map fun joins => .list (joins.map .record) := by
      rw [givenIn_one, given (by decide), get?_ownFields_joins]
    cases joined : c.joins with
    | none =>
      rw [joined] at joins
      exact checkField_of_absent joins
    | some rows =>
      rw [joined] at joins
      exact checkField_of_given joins (checkJoins_written rows)
  · have keyField : givenIn ["key_field", "key"] c.givenFields = some (.text c.keyField) := by
      rw [givenIn_two, given (by decide), get?_ownFields_keyField]
      rfl
    exact checkField_of_given keyField (text_ok.2 rfl)
  · refine checkField_of_absent ?_
    rw [givenIn_two, given (by decide), other (by decide), written.get?_extra _ _ (by decide),
      Record.get?_eq_none_iff.mpr (dimensions_notMem_ownFields c),
      Record.get?_eq_none_iff.mpr (links_notMem_writtenExtra c)]
    rfl
  · rw [checkNames_reread]
    exact settled.names

/-! ### Written cubes in a model -/

theorem erase_fields_name (header : Header) (name : Option String) :
    Record.erase (header.fields name) "name" = header.fields none := by
  unfold Header.fields
  cases name <;> cases header.label <;> cases header.description <;>
    simp [textField, Record.erase]

/-- A model takes name and dimensions out of the record of a cube, and gives the name back. -/
theorem givenFields_eq (avoids : AvoidsFirsts knownKeys c.header.extra) :
    Record.set (Record.erase (Record.erase (c.toRecord .full) "name") "dimensions") "name"
      (.text c.name) = c.givenFields := by
  have written := isWritten avoids
  have extra {first : String} (isFirst : first ∈ firsts (headerKeys ++ knownKeys)) :
      Record.erase c.writtenExtra first = c.writtenExtra :=
    Record.erase_of_notMem (written.avoids first isFirst)
  have own : Record.erase c.ownFields "name" = c.ownFields :=
    Record.erase_of_notMem fun member => absurd (written.own member) (by decide)
  have inHeader : Record.erase (c.header.fields none) "dimensions" = c.header.fields none :=
    Record.erase_of_notMem fun member => absurd (c.header.mem_keys_fields none member) (by decide)
  rw [toRecord_eq avoids]
  simp only [Record.erase_append, erase_fields_name, own, inHeader, extra (by decide : "name" ∈ _),
    extra (by decide : "dimensions" ∈ _),
    Record.erase_of_notMem (dimensions_notMem_ownFields c)]
  rw [show Record.erase (Record.erase [("dimensions", _)] "name") "dimensions" = ([] : Row) from rfl,
    List.append_nil, Record.set_of_notMem]
  · rfl
  · refine Record.get?_eq_none_iff.mp ?_
    rw [written.get?_header _ _ (by decide), Header.get?_fields_name]
    rfl

theorem get?_toRecord_name (avoids : AvoidsFirsts knownKeys c.header.extra) :
    Record.get? (c.toRecord .full) "name" = some (.text c.name) := by
  rw [toRecord_eq avoids, Record.get?_append, (isWritten avoids).get?_header _ _ (by decide),
    Header.get?_fields_name]
  rfl

theorem get?_toRecord_dimensions (avoids : AvoidsFirsts knownKeys c.header.extra) :
    Record.get? (c.toRecord .full) "dimensions" = some (.list (c.dimensionNames.map .text)) := by
  rw [toRecord_eq avoids, Record.get?_append, (isWritten avoids).get?_front _ _ (by decide),
    Record.get?_eq_none_iff.mpr (dimensions_notMem_ownFields c)]
  rfl

/-- The cube that a model makes from a written one. -/
def reread (registry : List Dimension) (model : Option String) (c : Cube) : Cube :=
  { c.rereadBare with
    dimensions := c.dimensionNames.filterMap (findDimension? · registry)
    owner := .ofModel model }

open Edit in
/-- Dimensions that are registered and not held yet are linked by their names. -/
theorem linkAll_names {registry : List Dimension} {model : Option String} {names : List String}
    (found : ∀ name ∈ names, (findDimension? name registry).isSome) (owned : c.owner = .ofModel model)
    (distinct : (c.dimensionNames ++ names).Nodup) :
    (Model.linkAll registry (names.map fun name => .datum (.text name))).made c =
      .ok { c with dimensions := c.dimensions ++ names.filterMap (findDimension? · registry) } := by
  induction names generalizing c with
  | nil =>
    rw [List.filterMap_nil, List.append_nil]
    rfl
  | cons name rest inductionHypothesis =>
    obtain ⟨d, looked⟩ := Option.isSome_iff_exists.mp (found name List.mem_cons_self)
    have fresh : (findDimension? d.name c.dimensions).isSome = false := by
      rw [Bool.eq_false_iff, Ne, findDimension?, List.find?_isSome]
      rintro ⟨held, inside, same⟩
      rw [beq_iff_eq, name_of_findDimension? looked] at same
      exact List.disjoint_of_nodup_append distinct (List.mem_map.mpr ⟨held, inside, same⟩)
        List.mem_cons_self
    have added : perform (addDimension registry (.named name)) c =
        (.ok d, { c with dimensions := c.dimensions ++ [d] }) :=
      addDimension_ok.2 ⟨(resolveLink_ok owned).2 ⟨name, rfl, looked⟩, fresh, rfl⟩
    have names : dimensionNames { c with dimensions := c.dimensions ++ [d] } =
        c.dimensionNames ++ [name] := by
      rw [dimensionNames, List.map_append, List.map_singleton, name_of_findDimension? looked]
      rfl
    have linked := @inductionHypothesis { c with dimensions := c.dimensions ++ [d] }
      (fun other member => found other (List.mem_cons_of_mem _ member)) owned
      (by rwa [names, List.append_assoc])
    refine made_bind_ok.2 ⟨.named name, c, rfl, made_bind_ok.2 ⟨d, _, added, linked.trans ?_⟩⟩
    rw [List.filterMap_cons, looked, List.append_assoc]
    rfl

open Edit in
/-- A model makes a cube again from the record of one, when it has the dimensions and not the cube. -/
theorem IsSettled.createDescribed_toRecord (settled : c.IsSettled) (told : c.SaysTable)
    (distinct : c.dimensionNames.Nodup) {m : Model}
    (found : ∀ name ∈ c.dimensionNames, (findDimension? name m.dimensions).isSome)
    (fresh : m.hasCube c.name = false) :
    perform (Model.createDescribed (.record (Datum.liftFields (c.toRecord .full)))) m =
      (.ok (), { m with cubes := m.cubes ++ [c.reread m.dimensions m.name] }) := by
  have name : Record.get? (Datum.liftFields (c.toRecord .full) : Fields Part) "name" =
      some (.text c.name) := by
    rw [Datum.get?_liftFields, get?_toRecord_name settled.extra]
    rfl
  have created : perform (Model.createCube (.text c.name)
      (.record (Record.erase (Datum.liftFields (c.toRecord .full)) "name"))) m =
        (.ok (c.reread m.dimensions m.name),
          { m with cubes := m.cubes ++ [c.reread m.dimensions m.name] }) := by
    refine Model.createCube_ok.2 ⟨some c.name, _, true, { c.rereadBare with owner := .ofModel m.name },
      c.dimensionNames.map fun name => .datum (.text name), rfl, fresh,
      Description.asFields_record _, ?_, ?_, ?_,
      rfl⟩
    · refine Result.map_ok.2 ⟨c.rereadBare, createFrom_record_ok.2 ?_, rfl⟩
      show ofFields (Record.set _ "name" (Datum.lift (.text c.name))) = _
      rw [Datum.erase_liftFields, Datum.erase_liftFields, Datum.set_liftFields,
        givenFields_eq settled.extra]
      exact settled.ofFields_givenFields told
    · rw [Record.get?_erase_of_ne _ (by decide), Datum.get?_liftFields,
        get?_toRecord_dimensions settled.extra]
      exact (congrArg Description.entries (Datum.lift_texts c.dimensionNames)).trans
        (Description.entries_names c.dimensionNames)
    · exact linkAll_names found rfl distinct
  have named : (Datum.text c.name : Description).isTruthy = true := by
    simpa [Datum.isTruthy] using settled.name.ne_empty
  rw [Model.createDescribed_of_name name named]
  exact perform_bind_ok.2 ⟨_, _, created, rfl⟩

/-! ### Cubes written again -/

theorem names_filterMap_find {registry : List Dimension} {names : List String}
    (found : ∀ name ∈ names, (findDimension? name registry).isSome) :
    (names.filterMap (findDimension? · registry)).map (·.name) = names := by
  induction names with
  | nil => rfl
  | cons name rest inductionHypothesis =>
    obtain ⟨d, looked⟩ := Option.isSome_iff_exists.mp (found name List.mem_cons_self)
    rw [List.filterMap_cons, looked, List.map_cons, name_of_findDimension? looked,
      inductionHypothesis fun other member => found other (List.mem_cons_of_mem _ member)]

/-- Measures and details that were read back are written as before. -/
theorem fields_reread {kind : AttributeKind} {attributes : List Attribute}
    (fresh : ∀ a ∈ attributes, a.IsFresh kind) :
    (attributes.map (·.reread)).map (fun a => Datum.record a.fields) =
      attributes.map fun a => .record a.fields :=
  map_record_congr fun a member => (fresh a member).fields_reread rfl (fresh a member).dimension.symm

/-- The table goes behind the extra fields. -/
theorem writtenExtra_reread (registry : List Dimension) (model : Option String) :
    (c.reread registry model).writtenExtra =
      Record.erase c.writtenExtra "fact" ++ textField "fact" c.writtenTable := by
  have tidy := (isTidy_writtenExtra c).erase "fact"
  have links : "dimension_links" ∉ Record.keys (Record.erase c.writtenExtra "fact") :=
    fun member => links_notMem_writtenExtra c (List.map_subset _ (List.filter_subset_self _) member)
  have names : "dimension_names" ∉ Record.keys (Record.erase c.writtenExtra "fact") := by
    rw [← Record.get?_eq_none_iff, Record.get?_erase_of_ne _ (by decide)]
    exact Record.get?_erase_self _ _
  have extra : (c.reread registry model).header.extraFields = Record.erase c.writtenExtra "fact" :=
    tidy.extraFields_eq _
  rw [writtenExtra, plainExtra, extra, Record.erase_of_notMem links,
    Record.ofPairs_of_nodup tidy.distinct,
    show (c.reread registry model).factTable = c.writtenTable from rfl]
  cases c.writtenTable with
  | none => exact (Record.erase_of_notMem names).trans (List.append_nil _).symm
  | some text =>
    rw [withTable, Option.elim_some, Record.set_of_notMem, Record.erase_append,
      Record.erase_of_notMem names]
    · rfl
    · exact Record.get?_eq_none_iff.mp (Record.get?_erase_self _ _)

theorem IsSettled.toRecord_reread (settled : c.IsSettled) (told : c.SaysTable)
    {registry : List Dimension}
    (found : ∀ name ∈ c.dimensionNames, (findDimension? name registry).isSome)
    (model : Option String) :
    ((c.reread registry model).toRecord .full).Perm (c.toRecord .full) := by
  have again : AvoidsFirsts knownKeys (c.reread registry model).header.extra :=
    (isWritten settled.extra).avoids.erase "fact"
  have own : (c.reread registry model).ownFields = c.ownFields := by
    unfold ownFields fieldsWith
    rw [show (c.reread registry model).measures = c.measures.map (·.reread) from rfl,
      show (c.reread registry model).details = c.details.map (·.reread) from rfl,
      fields_reread settled.measures, fields_reread settled.details]
    rfl
  have names : (c.reread registry model).dimensionNames = c.dimensionNames :=
    names_filterMap_find found
  have extra : (c.reread registry model).writtenExtra.Perm c.writtenExtra := by
    rw [writtenExtra_reread]
    have table := told.get?_writtenExtra
    cases read : c.writtenTable with
    | none =>
      rw [read] at table
      rw [Record.erase_of_notMem (Record.get?_eq_none_iff.mp table)]
      exact List.Perm.of_eq (List.append_nil _)
    | some text =>
      rw [read] at table
      exact (Record.perm_erase_append (isTidy_writtenExtra c).distinct table).symm
  rw [toRecord_eq again, toRecord_eq settled.extra, own, names]
  exact (extra.append_left _).append_right _

end Cube

end Olap
