/-
What objects that were made of data are like. Names are not blank, no extra field has the first spelling
of a field, defaults are filled in, names are not repeated, and all parts belong to the whole. This is
what a completed object can be relied on for, whatever the description was that it is made of.
-/

import Mathlib
import Olap.Proofs.Levels
import Olap.Proofs.Registry
import Olap.Proofs.Written

namespace Olap

/-! ### Descriptions that are data -/

/-- A description in which no finished object stands. -/
def Datum.IsPlain (d : Description) : Prop := ∃ value : Value, d = value.lift

/-- Fields in which no finished object stands. -/
def ArePlain (fields : Fields Part) : Prop := ∀ field ∈ fields, field.2.IsPlain

namespace Datum

theorem isPlain_text (s : String) : IsPlain (.text s) := ⟨.text s, rfl⟩

theorem isPlain_null : IsPlain .null := ⟨.null, rfl⟩

theorem not_isPlain_object {part : Part} : ¬IsPlain (.object part) := by
  rintro ⟨value, same⟩
  cases value with
  | object o => exact nomatch o
  | _ => cases same

theorem isPlain_list {items : List Description} (plain : IsPlain (.list items)) :
    ∀ item ∈ items, item.IsPlain := by
  obtain ⟨value, same⟩ := plain
  cases value with
  | object o => exact nomatch o
  | list values =>
    cases same
    rw [liftItems_eq_map]
    intro item member
    obtain ⟨value, -, rfl⟩ := List.mem_map.mp member
    exact ⟨value, rfl⟩
  | _ => cases same

theorem isPlain_record {fields : Fields Part} : IsPlain (.record fields) ↔ ArePlain fields := by
  constructor
  · rintro ⟨value, same⟩
    cases value with
    | object o => exact nomatch o
    | record values =>
      cases same
      rw [liftFields_eq_map]
      intro field member
      obtain ⟨value, -, rfl⟩ := List.mem_map.mp member
      exact ⟨value.2, rfl⟩
    | _ => cases same
  · intro plain
    induction fields with
    | nil => exact ⟨.record [], rfl⟩
    | cons field rest inductionHypothesis =>
      obtain ⟨value, same⟩ := plain field List.mem_cons_self
      obtain ⟨values, others⟩ :=
        inductionHypothesis fun other member => plain other (List.mem_cons_of_mem _ member)
      cases values with
      | object o => exact nomatch o
      | record values =>
        injection others with others
        exact ⟨.record ((field.1, value) :: values), by
          rw [lift, liftFields, ← same, ← others]⟩
      | _ => cases others

/-- What data consists of is data. -/
theorem isPlain_of_mem_items {d : Description} (plain : d.IsPlain) {items : List (Item Part)}
    (looked : d.items = .ok items) {item : Item Part} (member : item ∈ items) :
    ∃ part, item = .datum part ∧ part.IsPlain := by
  cases d with
  | text s | direction s =>
    cases looked
    obtain ⟨c, -, rfl⟩ := List.mem_map.mp member
    exact ⟨_, rfl, isPlain_text _⟩
  | list parts =>
    cases looked
    obtain ⟨part, inside, rfl⟩ := List.mem_map.mp member
    exact ⟨part, rfl, isPlain_list plain part inside⟩
  | record fields =>
    cases looked
    obtain ⟨field, -, rfl⟩ := List.mem_map.mp member
    exact ⟨_, rfl, isPlain_text _⟩
  | object part => exact absurd plain not_isPlain_object
  | _ => cases looked

end Datum

theorem ArePlain.of_givenIn {fields : Fields Part} (plain : ArePlain fields)
    {spellings : List String} {d : Description} (given : givenIn spellings fields = some d) :
    d.IsPlain := by
  obtain ⟨key, -, found⟩ := Option.bind_eq_some_iff.1 given
  obtain ⟨field, looked, rfl⟩ := Option.map_eq_some_iff.1 found
  exact plain field (List.mem_of_find?_eq_some looked)

theorem ArePlain.set {fields : Fields Part} (plain : ArePlain fields) (key : String)
    {d : Description} (datum : d.IsPlain) : ArePlain (Record.set fields key d) := by
  intro field member
  rcases Record.mem_of_mem_set member with before | rfl
  · exact plain field before
  · exact datum

theorem ArePlain.erase {fields : Fields Part} (plain : ArePlain fields) (key : String) :
    ArePlain (Record.erase fields key) :=
  fun field member => plain field (List.mem_of_mem_filter member)

theorem ArePlain.override {fields more : Fields Part} (plain : ArePlain fields)
    (others : ArePlain more) : ArePlain (override fields more) :=
  Record.update_induction ArePlain plain fun _ before field member =>
    before.set field.1 (others field member)

theorem arePlain_nameOnly (name : String) : ArePlain (nameOnly name) := by
  intro field member
  rw [List.mem_singleton.mp member]
  exact Datum.isPlain_text name

/-- An entry under a name is a record, or there is nothing to say but the name. -/
theorem namedEntries_cons_ok {kind name : String} {entry : Description} {rest : Fields Part}
    {found : List Description} (named : namedEntries kind ((name, entry) :: rest) = .ok found) :
    ∃ first others, found = first :: others ∧ namedEntries kind rest = .ok others ∧
      (first = .record (nameOnly name) ∨
        ∃ fields, entry = .record fields ∧ first = .record (override (nameOnly name) fields)) := by
  cases entry with
  | null =>
    have named : (namedEntries kind rest).map (_ :: ·) = .ok found := named
    obtain ⟨others, below, rfl⟩ := Result.map_ok.1 named
    exact ⟨_, others, rfl, below, Or.inl rfl⟩
  | record fields =>
    have named : (namedEntries kind rest).map (_ :: ·) = .ok found := named
    obtain ⟨others, below, rfl⟩ := Result.map_ok.1 named
    exact ⟨_, others, rfl, below, Or.inr ⟨fields, rfl, rfl⟩⟩
  | _ => cases named

/-- The entries of a collection are data. -/
theorem isPlain_of_namedObjects {kind : String} {d : Description} (plain : d.IsPlain)
    {entries : List Description} (listed : namedObjects kind d = .ok entries) :
    ∀ entry ∈ entries, entry.IsPlain := by
  have each {fields : Fields Part} (fieldsPlain : ArePlain fields) {found : List Description}
      (named : namedEntries kind fields = .ok found) : ∀ entry ∈ found, entry.IsPlain := by
    induction fields generalizing found with
    | nil =>
      cases named
      exact List.forall_mem_nil _
    | cons field rest inductionHypothesis =>
      obtain ⟨first, others, rfl, below, made⟩ := namedEntries_cons_ok named
      refine List.forall_mem_cons.mpr ⟨?_, inductionHypothesis
        (fun other member => fieldsPlain other (List.mem_cons_of_mem _ member)) below⟩
      have inner := fieldsPlain field List.mem_cons_self
      rcases made with rfl | ⟨more, same, rfl⟩
      · exact Datum.isPlain_record.mpr (arePlain_nameOnly _)
      · rw [same] at inner
        exact Datum.isPlain_record.mpr
          ((arePlain_nameOnly _).override (Datum.isPlain_record.mp inner))
  unfold namedObjects at listed
  split at listed
  · cases listed
    exact List.forall_mem_nil _
  · split at listed
    · exact each (Datum.isPlain_record.mp plain) listed
    · cases listed
      exact Datum.isPlain_list plain
    · cases listed

/-- What a field is made of is data, entry by entry. -/
theorem forall_mem_of_entries {β : Type} {fields : Fields Part} (plain : ArePlain fields)
    {spellings : List String} {kind : String} {check : Description → Check (List β)}
    {read : Description → Result β}
    (reads : ∀ d found, (check d).result = .ok found →
      ∃ entries, namedObjects kind d = .ok entries ∧ allOf read entries = .ok found)
    {property : β → Prop} (each : ∀ entry b, entry.IsPlain → read entry = .ok b → property b)
    {found : List β} (checked : (checkField fields spellings [] check).result = .ok found) :
    ∀ b ∈ found, property b := by
  rcases checkField_ok_iff.1 checked with ⟨-, rfl⟩ | ⟨d, given, accepted⟩
  · exact List.forall_mem_nil _
  · obtain ⟨entries, collected, made⟩ := reads d found accepted
    intro b member
    obtain ⟨entry, inside, read⟩ := exists_of_mem_allOf made member
    exact each entry b (isPlain_of_namedObjects (plain.of_givenIn given) collected entry inside) read

theorem IsName.ne_empty {text : String} (valid : IsName (some text)) : text ≠ "" := by
  rintro rfl
  exact absurd (valid "" rfl) (by decide)

/-! ### Attributes -/

namespace Attribute

structure IsSettled (a : Attribute) : Prop where
  name : IsName a.name
  extra : AvoidsFirsts [] a.header.extra

/-- An attribute of a kind that belongs to nothing yet. -/
structure IsFresh (kind : AttributeKind) (a : Attribute) : Prop extends IsSettled a where
  kind : a.kind = kind
  dimension : a.dimension = none

theorem isFresh_ofFields {kind : AttributeKind} {fields : Fields Part} {a : Attribute}
    (made : ofFields kind fields = .ok a) : a.IsFresh kind := by
  obtain ⟨same, none, named, headed⟩ := ofFields_ok.1 made
  exact ⟨⟨isName_of_checkNameField named, AvoidsFirsts.of_checkHeader headed⟩, same, none⟩

theorem isFresh_ofName {kind : AttributeKind} {name : Option String} (valid : IsName name) :
    (ofName kind name).IsFresh kind :=
  ⟨⟨valid, fun _ _ => List.not_mem_nil⟩, rfl, rfl⟩

theorem isFresh_listOf {kind : AttributeKind} {d : Description} (plain : d.IsPlain)
    {found : List Attribute} (listed : listOf kind d = .ok found) : ∀ a ∈ found, a.IsFresh kind := by
  unfold listOf at listed
  split at listed
  · cases listed
    exact List.forall_mem_nil _
  · split at listed
    · cases listed
    · rename_i items looked
      intro a member
      obtain ⟨item, inside, made⟩ := exists_of_mem_allOf listed member
      obtain ⟨part, rfl, datum⟩ := Datum.isPlain_of_mem_items plain looked inside
      cases part with
      | text | direction | record => cases kind <;> exact isFresh_ofFields made
      | object => exact absurd datum Datum.not_isPlain_object
      | _ => cases kind <;> cases made

end Attribute

/-! ### Levels -/

namespace Level

structure IsSettled (level : Level) : Prop where
  name : IsName level.name
  extra : AvoidsFirsts knownKeys level.header.extra
  filled : level.attributes ≠ []
  attributes : ∀ a ∈ level.attributes, a.IsSettled ∧ a.kind = .attribute
  key : level.key ≠ ""
  label : level.labelAttribute ≠ ""
  once : hasRepeats level.attributeNames = false
  keyed : requireAttribute "Key" level.attributeNames level.name (some level.key) = .ok ()
  labelled :
    requireAttribute "Label" level.attributeNames level.name (some level.labelAttribute) = .ok ()
  ordered :
    requireAttribute "Order" level.attributeNames level.name level.orderAttribute = .ok ()

theorem IsSettled.attach {level : Level} (settled : level.IsSettled) (dimension : String) :
    (level.attach dimension).IsSettled := by
  have names : (level.attach dimension).attributeNames = level.attributeNames := by
    show (level.attributes.map _).map _ = _
    rw [List.map_map]
    rfl
  refine ⟨settled.name, settled.extra, ?_, ?_, settled.key, settled.label, ?_, ?_, ?_, ?_⟩
  · exact fun empty => settled.filled (List.map_eq_nil_iff.mp empty)
  · intro a member
    obtain ⟨before, inside, rfl⟩ := List.mem_map.mp member
    obtain ⟨known, kind⟩ := settled.attributes before inside
    exact ⟨⟨known.name, known.extra⟩, kind⟩
  · exact names ▸ settled.once
  · exact names ▸ settled.keyed
  · exact names ▸ settled.labelled
  · exact names ▸ settled.ordered

/-- A choice that is still to be filled in. -/
def isOpen (choice : Option String) : Bool := choice.all String.isEmpty

theorem exists_of_closed {choice : Option String} (closed : isOpen choice = false) :
    ∃ text, choice = some text ∧ text ≠ "" := by
  cases choice with
  | none => cases closed
  | some text => exact ⟨text, rfl, fun empty => by rw [empty] at closed; cases closed⟩

/-- A choice is settled as what it is filled in with, if there is such a thing. -/
theorem settle_eq (choice default : Option String) :
    settle choice default =
      (if isOpen choice then default else choice).elim (.error (.outside .endless)) .ok := by
  cases choice with
  | none => rfl
  | some text =>
    rw [settle, isOpen, Option.all_some]
    cases text.isEmpty <;> rfl

theorem settle_of_some {choice default : Option String} {name : String}
    (filled : (if isOpen choice then default else choice) = some name) :
    settle choice default = .ok name := by
  rw [settle_eq, filled]
  rfl

theorem settle_of_none {choice default : Option String}
    (nameless : (if isOpen choice then default else choice) = none) :
    settle choice default = .error (.outside .endless) := by
  rw [settle_eq, nameless]
  rfl

/-- A choice that is settled is no empty one. -/
theorem ne_empty_of_settle {choice default : Option String} {name : String}
    (settled : settle choice default = .ok name)
    (filled : ∀ text, default = some text → text ≠ "") : name ≠ "" := by
  rw [settle_eq] at settled
  split at settled
  · cases default with
    | none => cases settled
    | some text =>
      cases settled
      exact filled _ rfl
  · rename_i closed
    obtain ⟨text, rfl, own⟩ := exists_of_closed (Bool.eq_false_iff.mpr closed)
    cases settled
    exact own

theorem checkAttributes_isFresh {name : Option String} (valid : IsName name) {d : Description}
    (plain : d.IsPlain) {found : List Attribute}
    (checked : (checkAttributes name d).result = .ok found) :
    ∀ a ∈ found, a.IsFresh .attribute := by
  unfold checkAttributes at checked
  split at checked
  · split at checked
    · rw [Check.result_accept] at checked
      rw [← checked]
      exact List.forall_mem_singleton.mpr (Attribute.isFresh_ofName valid)
    · cases checked
  · split at checked
    · cases checked
    · exact Attribute.isFresh_listOf plain (Check.result_ofResult.1 checked)

theorem isSettled_ofFields {fields : Fields Part} (plain : ArePlain fields) {level : Level}
    (made : ofFields fields = .ok level) : level.IsSettled := by
  obtain ⟨draft, checked, completed⟩ := ofFields_ok.1 made
  obtain ⟨named, headed, listed, -, -, -⟩ := checkDraft_ok.1 checked
  obtain ⟨name, header, -, order, owned, keyed, labelled, once, first, second, third⟩ :=
    ofDraft_ok.1 completed
  have valid : IsName draft.name := isName_of_checkNameField named
  have drafted : ∀ a ∈ draft.attributes, a.IsFresh .attribute := by
    rcases checkField_ok_iff.1 listed with ⟨-, empty⟩ | ⟨d, given, accepted⟩
    · rw [empty]
      exact List.forall_mem_nil _
    · refine checkAttributes_isFresh ?_ (plain.of_givenIn given) accepted
      rw [named]
      exact valid
  have fresh : level.attributes ≠ [] ∧ ∀ a ∈ level.attributes, a.IsFresh .attribute := by
    unfold Draft.ownAttributes at owned
    split at owned
    · rename_i filled
      rw [← Except.ok.inj owned]
      exact ⟨fun empty => by simp [empty] at filled, drafted⟩
    · split at owned
      · rename_i text same
        rw [← Except.ok.inj owned]
        exact ⟨List.cons_ne_nil _ _,
          List.forall_mem_singleton.mpr (Attribute.isFresh_ofName (same ▸ valid))⟩
      · cases owned
  have attributeName : ∀ text, some text ∈ level.attributeNames → text ≠ "" := by
    intro text member
    obtain ⟨a, inside, same⟩ := List.mem_map.mp member
    exact IsName.ne_empty (same ▸ (fresh.2 a inside).name)
  have keyFilled : level.key ≠ "" := by
    refine ne_empty_of_settle keyed fun text chosen => attributeName text ?_
    exact List.mem_of_mem_head? (Option.join_eq_some_iff.mp chosen)
  have labelFilled : level.labelAttribute ≠ "" := by
    refine ne_empty_of_settle labelled fun text chosen => ?_
    split at chosen
    · exact attributeName text (List.mem_of_getElem? (Option.join_eq_some_iff.mp chosen))
    · cases chosen
      exact keyFilled
  refine ⟨name ▸ valid, header ▸ AvoidsFirsts.of_checkHeader headed, fresh.1,
    fun a member => ⟨(fresh.2 a member).toIsSettled, (fresh.2 a member).kind⟩, keyFilled, labelFilled,
    once, ?_, ?_, ?_⟩
  · exact name ▸ first
  · exact name ▸ second
  · exact name ▸ order ▸ third

theorem isSettled_ofEntry {d : Description} (plain : d.IsPlain) {level : Level}
    (made : ofEntry (.datum d) = .ok level) : level.IsSettled := by
  cases d with
  | text name => exact isSettled_ofFields (arePlain_nameOnly name) made
  | direction d => exact isSettled_ofFields (arePlain_nameOnly d.name) made
  | record fields => exact isSettled_ofFields (Datum.isPlain_record.mp plain) made
  | object => exact absurd plain Datum.not_isPlain_object
  | _ => cases made

end Level

/-! ### Hierarchies and dimensions -/

namespace Hierarchy

structure IsSettled (h : Hierarchy) : Prop where
  name : IsName h.name
  extra : AvoidsFirsts knownKeys h.header.extra
  filled : h.levels ≠ []
  once : hasRepeats h.levelNames = false

theorem isSettled_ofFields {fields : Fields Part} {h : Hierarchy}
    (made : ofFields fields = .ok h) : h.IsSettled := by
  obtain ⟨-, named, headed, -, filled, once⟩ := ofFields_ok.1 made
  exact ⟨isName_of_checkNameField named, AvoidsFirsts.of_checkHeader headed,
    by simpa using filled, once⟩

theorem isSettled_ofEntry {d : Description} (plain : d.IsPlain) {h : Hierarchy}
    (made : ofEntry d = .ok h) : h.IsSettled := by
  cases d with
  | record => exact isSettled_ofFields made
  | object => exact absurd plain Datum.not_isPlain_object
  | _ => cases made

/-- The levels that a dimension has for a hierarchy have the names that it was described with. -/
theorem names_of_resolve {dimension : String} {own : List Level} {h : Hierarchy}
    {levels found : List Level} (resolved : h.resolve dimension own levels = .ok found) :
    found.map (·.name) = levels.map (·.name) := by
  induction levels generalizing found with
  | nil =>
    cases resolved
    rfl
  | cons level rest inductionHypothesis =>
    unfold resolve at resolved
    split at resolved
    · cases resolved
    · rename_i known looked
      obtain ⟨others, below, rfl⟩ := Result.map_ok.1 resolved
      rw [List.map_cons, List.map_cons, inductionHypothesis below]
      congr 1
      simpa using List.find?_some looked

theorem IsSettled.attach {dimension : String} {own : List Level} {h attached : Hierarchy}
    (settled : h.IsSettled) (made : Hierarchy.attach dimension own h = .ok attached) :
    attached.IsSettled := by
  obtain ⟨levels, resolved, rfl⟩ := Result.map_ok.1 made
  have names := names_of_resolve resolved
  refine ⟨settled.name, settled.extra, fun empty => settled.filled ?_, ?_⟩
  · rw [show levels = [] from empty, List.map_nil] at names
    exact List.map_eq_nil_iff.mp names.symm
  · show hasRepeats (levels.map (·.name)) = false
    rw [names]
    exact settled.once

end Hierarchy

namespace Dimension

structure IsSettled (d : Dimension) : Prop where
  name : IsName (some d.name)
  extra : AvoidsFirsts knownKeys d.header.extra
  levels : ∀ level ∈ d.levels, level.IsSettled ∧ ∀ a ∈ level.attributes, a.dimension = some d.name
  levelsOnce : hasRepeats d.levelNames = false
  hierarchies : ∀ h ∈ d.hierarchies,
    h.IsSettled ∧ ∀ level ∈ h.levels, d.levels.find? (·.name == level.name) = some level
  hierarchiesOnce : hasRepeats (d.hierarchies.map (·.name)) = false

theorem isSettled_ofFields {fields : Fields Part} (plain : ArePlain fields) {d : Dimension}
    (made : ofFields fields = .ok d) : d.IsSettled := by
  obtain ⟨draft, checked, completed⟩ := ofFields_ok.1 made
  obtain ⟨named, headed, listed, ordered, -, -⟩ := checkDraft_ok.1 checked
  obtain ⟨name, levelsOnce, hierarchiesOnce, header, levels, attached, -, -⟩ :=
    ofDraft_ok.1 completed
  have levelsSettled : ∀ level ∈ draft.levels, level.IsSettled :=
    forall_mem_of_entries plain (fun _ _ => checkLevels_ok.1)
      (fun _ _ data made => Level.isSettled_ofEntry data made) listed
  have hierarchiesSettled : ∀ h ∈ draft.hierarchies, h.IsSettled :=
    forall_mem_of_entries plain (fun _ _ => checkHierarchies_ok.1)
      (fun _ _ data made => Hierarchy.isSettled_ofEntry data made) ordered
  refine ⟨?_, header ▸ AvoidsFirsts.of_checkHeader headed, ?_, ?_, ?_, ?_⟩
  · exact name ▸ isName_of_checkNameField named
  · rw [levels]
    intro level member
    obtain ⟨before, inside, rfl⟩ := List.mem_map.mp member
    refine ⟨(levelsSettled before inside).attach d.name, fun a among => ?_⟩
    obtain ⟨own, -, rfl⟩ := List.mem_map.mp among
    rfl
  · rw [levelNames, levels, List.map_map]
    exact levelsOnce
  · intro h member
    obtain ⟨before, inside, made⟩ := exists_of_mem_allOf attached member
    exact ⟨(hierarchiesSettled before inside).attach made, (Hierarchy.attach_ok made).2⟩
  · rw [map_eq_of_allOf _ _ (fun _ _ made => (Hierarchy.attach_ok made).1) attached]
    exact hierarchiesOnce

/-- A dimension is made of the fields of a record, or of its name only. -/
theorem exists_fields_of_ofDescription {given : Description} {d : Dimension}
    (made : ofDescription given [] = .ok d) :
    ∃ fields, ofFields fields = .ok d ∧ (given.IsPlain → ArePlain fields) := by
  have byName {name : String} (named : given.text? = some name) : ofFields (nameOnly name) = .ok d :=
    (createFrom_of_text named "Dimension" ofFields).symm.trans made
  cases given with
  | text | direction => exact ⟨_, byName rfl, fun _ => arePlain_nameOnly _⟩
  | record fields => exact ⟨fields, createFrom_record_ok.1 made, Datum.isPlain_record.mp⟩
  | _ => cases made

theorem isName_of_ofDescription {given : Description} {d : Dimension}
    (made : ofDescription given [] = .ok d) : IsName (some d.name) := by
  obtain ⟨fields, built, -⟩ := exists_fields_of_ofDescription made
  obtain ⟨draft, checked, completed⟩ := ofFields_ok.1 built
  exact (ofDraft_ok.1 completed).1 ▸ isName_of_checkNameField (checkDraft_ok.1 checked).1

theorem isSettled_ofDescription {given : Description} (plain : given.IsPlain) {d : Dimension}
    (made : ofDescription given [] = .ok d) : d.IsSettled := by
  obtain ⟨fields, built, data⟩ := exists_fields_of_ofDescription made
  exact isSettled_ofFields (data plain) built

theorem isSettled_toAdd {given : Description} (plain : given.IsPlain) {d : Dimension}
    (made : Model.dimensionToAdd given = .ok d) : d.IsSettled := by
  cases given with
  | text | direction | record => exact isSettled_ofDescription plain made
  | object => exact absurd plain Datum.not_isPlain_object
  | _ => cases made

end Dimension

/-! ### Cubes and models -/

namespace Cube

structure IsSettled (c : Cube) : Prop where
  name : IsName (some c.name)
  extra : AvoidsFirsts knownKeys c.header.extra
  measures : ∀ a ∈ c.measures, a.IsFresh .measure
  details : ∀ a ∈ c.details, a.IsFresh .attribute
  names : checkNames c.name c.measures c.details = .ok ()

theorem IsSettled.of_becomes {allowed : Dimension → Prop} {c after : Cube} (settled : c.IsSettled)
    (becomes : Becomes allowed c after) : after.IsSettled := by
  rw [becomes.same]
  exact ⟨settled.name, settled.extra, settled.measures, settled.details, settled.names⟩

theorem isFresh_of_checkAttributes {kind : AttributeKind} {fields : Fields Part}
    (plain : ArePlain fields) {spellings : List String} {found : List Attribute}
    (checked : (checkField fields spellings [] (checkAttributes kind)).result = .ok found) :
    ∀ a ∈ found, a.IsFresh kind := by
  rcases checkField_ok_iff.1 checked with ⟨-, rfl⟩ | ⟨d, given, accepted⟩
  · exact List.forall_mem_nil _
  · unfold checkAttributes at accepted
    split at accepted
    · rename_i listed
      rw [← Check.result_accept.1 accepted]
      exact Attribute.isFresh_listOf (plain.of_givenIn given) listed
    · cases accepted
    · cases accepted

theorem isSettled_ofFields {fields : Fields Part} (plain : ArePlain fields) {c : Cube}
    (made : ofFields fields = .ok c) : c.IsSettled := by
  obtain ⟨draft, checked, completed⟩ := ofFields_ok.1 made
  obtain ⟨named, headed, measured, detailed, -, -, -, -, -⟩ := checkDraft_ok.1 checked
  obtain ⟨name, present, names, linked⟩ := ofDraft_ok.1 completed
  refine IsSettled.of_becomes ?_ (becomes_of_addAll linked)
  exact ⟨present ▸ isName_of_checkNameField named, AvoidsFirsts.of_checkHeader headed,
    isFresh_of_checkAttributes plain measured, isFresh_of_checkAttributes plain detailed, names⟩

end Cube

namespace Model

open Edit

structure IsSettled (m : Model) : Prop where
  name : IsName m.name
  extra : AvoidsFirsts knownKeys m.header.extra
  registry : m.IsRegistry
  dimensions : ∀ d ∈ m.dimensions, d.IsSettled
  cubes : ∀ c ∈ m.cubes, c.IsSettled

/-- A model of a name and header that has settled parts. -/
structure Settles (name : Option String) (header : Header) (m : Model) : Prop where
  name : m.name = name
  header : m.header = header
  dimensions : ∀ d ∈ m.dimensions, d.IsSettled
  cubes : ∀ c ∈ m.cubes, c.IsSettled

variable {name : Option String} {header : Header}

theorem keeps_settles_addDimension {d : Description} (plain : d.IsPlain) :
    Keeps (Settles name header) (addDimension d) := by
  refine keeps_of_isAtomic (isAtomic_addDimension d) fun m dimension after settles done => ?_
  obtain ⟨made, -, rfl⟩ := addDimension_ok.1 done
  exact { settles with
    dimensions := List.forall_mem_append.mpr ⟨settles.dimensions,
      List.forall_mem_singleton.mpr (Dimension.isSettled_toAdd plain made)⟩ }

theorem keeps_settles_createCube {given info : Description} (plain : given.IsPlain)
    (data : ∀ fields named, info.asFields = .ok (fields, named) → ArePlain fields) :
    Keeps (Settles name header) (createCube given info) := by
  refine keeps_of_isAtomic (isAtomic_createCube given info) fun m c after settles done => ?_
  obtain ⟨key, fields, named, bare, entries, -, -, described, made, -, linked, rfl⟩ :=
    createCube_ok.1 done
  have settled : c.IsSettled := by
    unfold bareCube at made
    split at made
    · cases made
    · obtain ⟨before, created, rfl⟩ := Result.map_ok.1 made
      have known : before.IsSettled := by
        refine Cube.isSettled_ofFields ?_ (createFrom_record_ok.1 created)
        exact ((data fields named described).erase "dimensions").set "name" plain
      refine Cube.IsSettled.of_becomes ?_ (Cube.becomes_of_linkAll rfl linked)
      exact ⟨known.name, known.extra, known.measures, known.details, known.names⟩
  exact { settles with
    cubes := List.forall_mem_append.mpr ⟨settles.cubes, List.forall_mem_singleton.mpr settled⟩ }

/-- What creating cubes of data keeps is kept with all that an entry of data may be. -/
theorem keeps_createDescribed_of_isPlain {property : Model → Prop}
    (each : ∀ given info : Description, given.IsPlain →
      (∀ fields named, info.asFields = .ok (fields, named) → ArePlain fields) →
        Keeps property (createCube given info)) {d : Description} (plain : d.IsPlain) :
    Keeps property (createDescribed d) := by
  refine keeps_createDescribed (each d .null plain fun fields named described => ?_) ?_
  · cases described
    exact List.forall_mem_nil _
  · rintro given rfl
    have data := Datum.isPlain_record.mp plain
    refine each _ _ ?_ fun fields named described => ?_
    · cases found : Record.get? given "name" with
      | none => exact Datum.isPlain_null
      | some value => exact data.of_givenIn ((givenIn_one "name" given).trans found)
    · unfold Description.asFields at described
      split at described
      · cases described
        exact List.forall_mem_nil _
      · cases described
        exact data.erase "name"

/-- What adding dimensions and cubes of data keeps is true of a model that is made of data. -/
theorem exists_draft_of_ofRecord (property : Option String → Header → Model → Prop)
    (empty : ∀ name header, property name header ⟨name, header, [], []⟩)
    (dimensions : ∀ name header (d : Description), d.IsPlain →
      Keeps (property name header) (addDimension d))
    (cubes : ∀ name header (given info : Description), given.IsPlain →
      (∀ fields named, info.asFields = .ok (fields, named) → ArePlain fields) →
        Keeps (property name header) (createCube given info))
    {d : Description} (plain : d.IsPlain) {m : Model} (made : ofRecord d = .ok m) :
    ∃ fields draft, (checkDraft fields).result = .ok draft ∧
      property draft.name draft.header m := by
  obtain ⟨fields, draft, rfl, checked, completed⟩ := ofRecord_ok.1 made
  have data := Datum.isPlain_record.mp plain
  obtain ⟨-, -, dimensioned, cubed⟩ := checkDraft_ok.1 checked
  have entriesPlain {kind : String} {spellings : List String} {entries : List Description}
      (collected : (checkField fields spellings []
        (fun d => .ofResult (namedObjects kind d))).result = .ok entries) :
      ∀ entry ∈ entries, entry.IsPlain := by
    rcases checkField_ok_iff.1 collected with ⟨-, rfl⟩ | ⟨given, present, accepted⟩
    · exact List.forall_mem_nil _
    · exact isPlain_of_namedObjects (data.of_givenIn present) (Check.result_ofResult.1 accepted)
  refine ⟨fields, draft, checked, of_ofDraft completed (empty _ _) ?_ ?_⟩
  · exact fun entry member => dimensions _ _ entry (entriesPlain dimensioned entry member)
  · exact fun entry member =>
      keeps_createDescribed_of_isPlain (cubes _ _) (entriesPlain cubed entry member)

/-- A model that is made of data has settled parts. -/
theorem isSettled_ofRecord {d : Description} (plain : d.IsPlain) {m : Model}
    (made : ofRecord d = .ok m) : m.IsSettled := by
  obtain ⟨fields, draft, checked, settles⟩ := exists_draft_of_ofRecord Settles
    (fun _ _ => ⟨rfl, rfl, List.forall_mem_nil _, List.forall_mem_nil _⟩)
    (fun _ _ _ => keeps_settles_addDimension) (fun _ _ _ _ => keeps_settles_createCube) plain made
  obtain ⟨named, headed, -, -⟩ := checkDraft_ok.1 checked
  refine ⟨?_, ?_, isRegistry_ofRecord made, settles.dimensions, settles.cubes⟩
  · rw [settles.name]
    exact isName_of_checkNameField named
  · rw [settles.header]
    exact AvoidsFirsts.of_checkHeader headed

end Model

end Olap
