/-
Reading written objects back. The record of a completed object is accepted, and what is made of it is
said part by part: the parts are the same, and the extra fields are the ones that were written, to which
belong the references and names that are computed. Written again, the object is the same record, since
computed fields take the place of the extra ones.
-/

import Mathlib
import Olap.Proofs.Settled

namespace Olap

/-- Objects that are written as before stand in a list as before. -/
theorem map_record_congr {β : Type} {again : β → β} {write : β → Row} {objects : List β}
    (each : ∀ o ∈ objects, write (again o) = write o) :
    (objects.map again).map (fun o => Datum.record (write o)) =
      objects.map fun o => (.record (write o) : Value) := by
  rw [List.map_map]
  exact List.map_congr_left fun o member => congrArg Datum.record (each o member)

/-! ### Attributes -/

namespace Attribute

/-- The extra fields of a written attribute: the reference is one of them. -/
def writtenExtra (a : Attribute) : Row :=
  match a.ref with
  | some ref => Record.set a.header.kept "ref" (.text ref)
  | none => a.header.kept

/-- The attribute that is read from a written one. -/
def reread (a : Attribute) : Attribute :=
  { a with header := { a.header with extra := a.writtenExtra }, dimension := none }

variable {a : Attribute}

theorem isTidy_writtenExtra (a : Attribute) : IsTidy a.writtenExtra := by
  unfold writtenExtra
  cases a.ref with
  | none => exact isTidy_kept a.header
  | some ref => exact (isTidy_kept a.header).set "ref" rfl

theorem isWritten (avoids : AvoidsFirsts [] a.header.extra) : IsWritten [] [] a.writtenExtra where
  own := List.nil_subset _
  apart := by decide
  avoids := by
    unfold writtenExtra
    cases a.ref with
    | none => exact avoids.kept
    | some ref => exact avoids.kept.set (by decide) _

theorem fields_eq (avoids : AvoidsFirsts [] a.header.extra) :
    a.fields = a.header.fields a.name ++ [] ++ a.writtenExtra := by
  have front : ∀ key ∈ Record.keys (a.header.fields a.name), key ∈ firsts (headerKeys ++ []) :=
    fun key => a.header.mem_keys_fields a.name
  unfold fields writtenExtra
  rw [Header.update_extraFields avoids front, List.append_nil]
  cases a.ref with
  | none => rfl
  | some ref =>
    refine Record.set_append (fun member => ?_) _ _
    exact absurd (a.header.mem_keys_fields a.name member) (by decide)

theorem IsSettled.ofFields_fields (settled : a.IsSettled) :
    ofFields a.kind (Datum.liftFields a.fields) = .ok a.reread := by
  have written := isWritten settled.extra
  rw [fields_eq settled.extra]
  exact ofFields_ok.2 ⟨rfl, rfl, written.checkNameField_ok _ _ settled.name,
    written.checkHeader_eq_of_single _ _ (by decide)⟩

/-- An attribute that was read back is written as before, once it belongs to what it belonged to. -/
theorem IsSettled.fields_reread (settled : a.IsSettled) {b : Attribute}
    (same : b = { a.reread with dimension := b.dimension }) (owner : b.dimension = a.dimension) :
    b.fields = a.fields := by
  have header : b.header = { a.header with extra := a.writtenExtra } := by rw [same]; rfl
  have name : b.name = a.name := by rw [same]; rfl
  have ref : b.ref = a.ref := by unfold Attribute.ref; rw [owner, name]
  have avoids : AvoidsFirsts [] b.header.extra := header ▸ (isWritten settled.extra).avoids
  have extra : b.writtenExtra = a.writtenExtra := by
    unfold writtenExtra
    rw [ref, header, (isTidy_writtenExtra a).kept_eq]
    unfold writtenExtra
    cases a.ref with
    | none => rfl
    | some ref => exact Record.set_set ..
  rw [fields_eq avoids, fields_eq settled.extra, extra, name, header]
  rfl

/-- Attributes that were written in a list are read from it. -/
theorem listOf_fields {kind : AttributeKind} {attributes : List Attribute}
    (settled : ∀ a ∈ attributes, a.IsSettled ∧ a.kind = kind) :
    listOf kind (Datum.lift (.list (attributes.map fun a => .record a.fields))) =
      .ok (attributes.map reread) := by
  rw [Datum.lift_records]
  have each : allOf (ofEntry kind) (attributes.map fun a =>
      .datum (.record (Datum.liftFields a.fields))) = .ok (attributes.map reread) := by
    refine allOf_map_ok fun a member => ?_
    obtain ⟨known, rfl⟩ := settled a member
    rw [← known.ofFields_fields]
    unfold ofEntry
    cases a.kind <;> rfl
  unfold listOf
  split
  · rename_i empty
    rw [Datum.isTruthy, Bool.not_not, List.isEmpty_iff, List.map_eq_nil_iff] at empty
    rw [empty]
    rfl
  · show allOf (ofEntry kind) (List.map _ (attributes.map _)) = _
    rw [List.map_map]
    exact each

end Attribute

/-! ### Levels -/

namespace Level

/-- The fields of a level behind its header. -/
def ownFields (level : Level) : Row :=
  [("attributes", .list (level.attributes.map fun a => .record a.fields)),
    ("key", .text level.key), ("label_attribute", .text level.labelAttribute)] ++
    textField "order_attribute" level.orderAttribute

/-- The level that is read from a written one. -/
def reread (level : Level) : Level :=
  { level with
    header := { level.header with extra := level.header.kept }
    attributes := level.attributes.map (·.reread)
    dimension := none }

variable {level : Level}

theorem keys_ownFields (level : Level) :
    Record.keys level.ownFields ⊆ firsts knownKeys := by
  unfold ownFields
  cases level.orderAttribute <;> simp [textField, Record.keys, firsts, knownKeys]

theorem isWritten (avoids : AvoidsFirsts knownKeys level.header.extra) :
    IsWritten knownKeys level.ownFields level.header.kept where
  own := keys_ownFields level
  apart := by decide
  avoids := avoids.kept

theorem fields_eq (avoids : AvoidsFirsts knownKeys level.header.extra) :
    level.fields = level.header.fields level.name ++ level.ownFields ++ level.header.kept := by
  unfold fields
  rw [List.append_assoc]
  exact Header.update_extraFields avoids ((isWritten avoids).firsts_front _ _)

theorem settle_of_ne_empty {name : String} (filled : name ≠ "") (default : Option String) :
    settle (some name) default = .ok name := by
  unfold settle
  dsimp only
  rw [if_neg (by simpa using filled)]

theorem IsSettled.ofFields_fields (settled : level.IsSettled) :
    ofFields (Datum.liftFields level.fields) = .ok level.reread := by
  have written := isWritten settled.extra
  have names : level.reread.attributeNames = level.attributeNames := by
    show (level.attributes.map _).map _ = _
    rw [List.map_map]
    rfl
  rw [fields_eq settled.extra]
  refine ofFields_ok.2 ⟨⟨level.name, { level.header with extra := level.header.kept },
    level.attributes.map (·.reread), some level.key, some level.labelAttribute,
    level.orderAttribute⟩, checkDraft_ok.2 ⟨?_, ?_, ?_, ?_, ?_, ?_⟩,
    ofDraft_ok.2 ⟨rfl, rfl, rfl, rfl, ?_, ?_, ?_, ?_, ?_, ?_, ?_⟩⟩
  · exact written.checkNameField_ok _ _ settled.name
  · exact written.checkHeader_eq_of_single _ _ (by decide)
  · refine checkField_of_given ((written.givenIn_front _ _ (by decide)).trans rfl) ?_
    unfold checkAttributes
    rw [if_neg (by simpa [Datum.lift_records, Datum.isTruthy] using settled.filled),
      Attribute.listOf_fields settled.attributes]
    rfl
  · exact checkText_of_written ((written.givenIn_front _ _ (by decide)).trans rfl)
  · exact checkText_of_written ((written.givenIn_front _ _ (by decide)).trans rfl)
  · refine checkText_of_written ((written.givenIn_front _ _ (by decide)).trans ?_)
    exact get?_textField_self "order_attribute" level.orderAttribute
  · unfold Draft.ownAttributes
    rw [if_pos (by simpa using settled.filled)]
    rfl
  · exact settle_of_ne_empty settled.key _
  · exact settle_of_ne_empty settled.label _
  · exact names ▸ settled.once
  · exact names ▸ settled.keyed
  · exact names ▸ settled.labelled
  · exact names ▸ settled.ordered

/-- A level that was read back is written as before, once it belongs to what it belonged to. -/
theorem IsSettled.fields_reread (settled : level.IsSettled) {dimension : String}
    (owned : ∀ a ∈ level.attributes, a.dimension = some dimension) :
    (level.reread.attach dimension).fields = level.fields := by
  have tidy : Header.kept (level.reread.attach dimension).header = level.header.kept :=
    (isTidy_kept level.header).kept_eq _
  have again : AvoidsFirsts knownKeys (level.reread.attach dimension).header.extra :=
    settled.extra.kept
  have attributes : (level.reread.attach dimension).attributes.map (fun a => Datum.record a.fields) =
      level.attributes.map fun a => .record a.fields := by
    have own : (level.reread.attach dimension).attributes =
        level.attributes.map fun a => a.reread.attach dimension := List.map_map ..
    rw [own]
    exact map_record_congr fun a member =>
      (settled.attributes a member).1.fields_reread rfl (owned a member).symm
  rw [fields_eq again, fields_eq settled.extra, tidy, ownFields, attributes]
  rfl

/-- Levels that were written in a list are read from it. -/
theorem allOf_ofEntry_fields {levels : List Level} (settled : ∀ level ∈ levels, level.IsSettled) :
    allOf ofEntry (levels.map fun level => .datum (.record (Datum.liftFields level.fields))) =
      .ok (levels.map reread) :=
  allOf_map_ok fun level member => (settled level member).ofFields_fields

end Level

/-! ### Hierarchies -/

namespace Header

/-- The extra fields of an object that is written with the names of its levels: they are one of them. -/
def keptWithLevels (header : Header) (names : List (Option String)) : Row :=
  Record.set header.kept "level_names" (nameList names)

theorem isTidy_keptWithLevels (header : Header) (names : List (Option String)) :
    IsTidy (header.keptWithLevels names) := (isTidy_kept header).set "level_names" rfl

/-- Names of levels that were written before are written in their place. -/
theorem keptWithLevels_again (header : Header) (names : List (Option String)) :
    keptWithLevels { header with extra := header.keptWithLevels names } names =
      header.keptWithLevels names := by
  rw [keptWithLevels, (isTidy_keptWithLevels header names).kept_eq]
  exact Record.set_set ..

end Header

namespace Hierarchy

/-- The fields of a hierarchy behind its header. -/
def ownFields (h : Hierarchy) : Row := [("levels", .list (h.levels.map fun l => .record l.fields))]

/-- The extra fields of a written hierarchy. -/
def writtenExtra (h : Hierarchy) : Row := h.header.keptWithLevels h.levelNames

/-- The hierarchy that is read from a written one. -/
def reread (h : Hierarchy) : Hierarchy :=
  { h with
    header := { h.header with extra := h.writtenExtra }
    levels := h.levels.map (·.reread)
    dimension := none }

/-- The hierarchy that is read from a written one, with the levels that its dimension has then. -/
def rereadIn (dimension : String) (h : Hierarchy) : Hierarchy :=
  { h.reread with
    levels := h.levels.map fun level => level.reread.attach dimension
    dimension := some dimension }

variable {h : Hierarchy}

theorem isWritten_kept (avoids : AvoidsFirsts knownKeys h.header.extra) :
    IsWritten knownKeys h.ownFields h.header.kept where
  own := by simp [ownFields, Record.keys, firsts, knownKeys]
  apart := by decide
  avoids := avoids.kept

theorem isWritten (avoids : AvoidsFirsts knownKeys h.header.extra) :
    IsWritten knownKeys h.ownFields h.writtenExtra :=
  (isWritten_kept avoids).set (by decide) _

theorem fields_eq (avoids : AvoidsFirsts knownKeys h.header.extra) :
    h.fields = h.header.fields h.name ++ h.ownFields ++ h.writtenExtra := by
  have written := isWritten_kept avoids
  refine Eq.trans ?_ (written.set_eq h.header h.name (by decide) _)
  exact congrArg (Record.set · "level_names" _)
    (Header.update_extraFields avoids (written.firsts_front h.header h.name))

theorem IsSettled.ofFields_fields (settled : h.IsSettled)
    (levels : ∀ level ∈ h.levels, level.IsSettled) :
    ofFields (Datum.liftFields h.fields) = .ok h.reread := by
  have written := isWritten settled.extra
  rw [fields_eq settled.extra]
  refine ofFields_ok.2 ⟨rfl, written.checkNameField_ok _ _ settled.name,
    written.checkHeader_eq_of_single _ _ (by decide), ?_, ?_, ?_⟩
  · refine checkField_of_given ((written.givenIn_front _ _ (by decide)).trans rfl) ?_
    rw [Datum.lift_records, checkLevels,
      if_neg (by simpa [Datum.isTruthy] using settled.filled)]
    show (Check.ofResult (allOf Level.ofEntry (List.map _ (h.levels.map _)))).result = _
    rw [List.map_map]
    exact Check.result_ofResult.2 (Level.allOf_ofEntry_fields levels)
  · simpa [reread] using settled.filled
  · rw [show h.reread.levelNames = h.levelNames from List.map_map ..]
    exact settled.once

theorem attach_reread {dimension : String} {own : List Level}
    (found : ∀ level ∈ h.levels, own.find? (·.name == level.name) = some level) :
    attach dimension (own.map fun level => level.reread.attach dimension) h.reread =
      .ok (h.rereadIn dimension) := by
  have resolved {levels : List Level}
      (inside : ∀ level ∈ levels, own.find? (·.name == level.name) = some level) :
      resolve dimension (own.map fun level => level.reread.attach dimension) h.reread
        (levels.map (·.reread)) = .ok (levels.map fun level => level.reread.attach dimension) := by
    induction levels with
    | nil => rfl
    | cons level rest inductionHypothesis =>
      have looked : (own.map fun level => level.reread.attach dimension).find?
          (·.name == level.reread.name) = some (level.reread.attach dimension) := by
        rw [List.find?_map]
        exact congrArg _ (inside level List.mem_cons_self)
      rw [List.map_cons, resolve, looked]
      dsimp only
      rw [inductionHypothesis fun other member => inside other (List.mem_cons_of_mem _ member)]
      rfl
  unfold attach
  rw [show h.reread.levels = h.levels.map (·.reread) from rfl, resolved found]
  rfl

theorem IsSettled.fields_rereadIn (settled : h.IsSettled) {dimension : String}
    (levels : ∀ level ∈ h.levels,
      level.IsSettled ∧ ∀ a ∈ level.attributes, a.dimension = some dimension) :
    (h.rereadIn dimension).fields = h.fields := by
  have again : AvoidsFirsts knownKeys (h.rereadIn dimension).header.extra :=
    (isWritten settled.extra).avoids
  have own : (h.rereadIn dimension).levels.map (fun level => Datum.record level.fields) =
      h.levels.map fun level => .record level.fields :=
    map_record_congr fun level member =>
      (levels level member).1.fields_reread (levels level member).2
  have extra : (h.rereadIn dimension).writtenExtra = h.writtenExtra := by
    have names : (h.rereadIn dimension).levelNames = h.levelNames := List.map_map ..
    rw [writtenExtra, names]
    exact h.header.keptWithLevels_again h.levelNames
  rw [fields_eq again, fields_eq settled.extra, extra, ownFields, own]
  rfl

end Hierarchy

/-! ### Dimensions -/

namespace Dimension

/-- The fields of a dimension behind its header. -/
def ownFields (d : Dimension) : Row :=
  [("levels", .list (d.levels.map fun level => .record level.fields)),
    ("hierarchies", .list (d.hierarchies.map fun h => .record h.fields))] ++
    textField "default_hierarchy_name" d.defaultHierarchyName ++ textField "key_field" d.keyField

/-- The extra fields of a written dimension. -/
def writtenExtra (d : Dimension) : Row := d.header.keptWithLevels d.levelNames

/-- The dimension that is read from a written one. -/
def reread (d : Dimension) : Dimension :=
  { d with
    header := { d.header with extra := d.writtenExtra }
    levels := d.levels.map fun level => level.reread.attach d.name
    hierarchies := d.hierarchies.map (·.rereadIn d.name) }

/-- If a dimension does not say which hierarchy is its default, then no extra field says it under the
second spelling. -/
def SaysDefault (d : Dimension) : Prop :=
  d.defaultHierarchyName = none →
    ∀ value, ("default_hierarchy", value) ∈ d.header.extra → value = .null

variable {d : Dimension}

theorem get?_ownFields_default (d : Dimension) :
    Record.get? d.ownFields "default_hierarchy_name" = d.defaultHierarchyName.map .text := by
  simp [ownFields, Record.get?_append, Record.get?_cons, get?_textField_self, get?_textField_of_ne]

theorem get?_ownFields_keyField (d : Dimension) :
    Record.get? d.ownFields "key_field" = d.keyField.map .text := by
  simp [ownFields, Record.get?_append, Record.get?_cons, get?_textField_self, get?_textField_of_ne]

theorem isWritten_kept (avoids : AvoidsFirsts knownKeys d.header.extra) :
    IsWritten knownKeys d.ownFields d.header.kept where
  own := by
    unfold ownFields
    cases d.defaultHierarchyName <;> cases d.keyField <;>
      simp [textField, Record.keys, firsts, knownKeys]
  apart := by decide
  avoids := avoids.kept

theorem isWritten (avoids : AvoidsFirsts knownKeys d.header.extra) :
    IsWritten knownKeys d.ownFields d.writtenExtra :=
  (isWritten_kept avoids).set (by decide) _

theorem fields_eq (avoids : AvoidsFirsts knownKeys d.header.extra) :
    d.fields = d.header.fields d.name ++ d.ownFields ++ d.writtenExtra := by
  have written := isWritten_kept avoids
  refine Eq.trans ?_ (written.set_eq d.header d.name (by decide) _)
  have all := Header.update_extraFields avoids (written.firsts_front d.header d.name)
  unfold fields
  rw [← all, ownFields]
  simp only [List.append_assoc]

theorem SaysDefault.notMem_writtenExtra (told : d.SaysDefault)
    (absent : d.defaultHierarchyName = none) :
    "default_hierarchy" ∉ Record.keys d.writtenExtra := by
  intro member
  rcases Record.mem_keys_set.mp member with extra | computed
  · exact Header.notMem_keys_kept (told absent) extra
  · exact absurd computed (by decide)

theorem IsSettled.ofFields_fields (settled : d.IsSettled) (told : d.SaysDefault) :
    ofFields (Datum.liftFields d.fields) = .ok d.reread := by
  have written := isWritten settled.extra
  rw [fields_eq settled.extra]
  refine ofFields_ok.2 ⟨⟨d.name, { d.header with extra := d.writtenExtra }, d.levels.map (·.reread),
    d.hierarchies.map (·.reread), d.defaultHierarchyName, d.keyField⟩,
    checkDraft_ok.2 ⟨?_, ?_, ?_, ?_, ?_, ?_⟩, ofDraft_ok.2 ⟨rfl, ?_, ?_, rfl, ?_, ?_, rfl, rfl⟩⟩
  · exact written.checkNameField_ok _ _ settled.name
  · have single : ∀ spellings ∈ headerKeys ++ knownKeys, spellings.tail = [] ∨
        spellings = ["default_hierarchy_name", "default_hierarchy"] := by decide
    refine written.checkHeader_eq _ _ fun first others field => ?_
    rcases single _ field with none | two
    · rw [show others = [] from none]
      exact Or.inr (List.forall_mem_nil _)
    · cases two
      cases chosen : d.defaultHierarchyName with
      | none => exact Or.inr (List.forall_mem_singleton.mpr (told.notMem_writtenExtra chosen))
      | some name => exact Or.inl (by simp [ownFields, chosen, textField, Record.keys])
  · refine checkField_of_given ((written.givenIn_front _ _ (by decide)).trans rfl) ?_
    rw [Datum.lift_records]
    exact checkLevels_ok.2 ⟨_, namedObjects_records _ _ _,
      allOf_map_ok fun level member => (settled.levels level member).1.ofFields_fields⟩
  · refine checkField_of_given ((written.givenIn_front _ _ (by decide)).trans rfl) ?_
    rw [Datum.lift_records]
    refine checkHierarchies_ok.2 ⟨_, namedObjects_records _ _ _, allOf_map_ok fun h member => ?_⟩
    obtain ⟨known, found⟩ := settled.hierarchies h member
    exact known.ofFields_fields fun level inside =>
      (settled.levels level (List.mem_of_find?_eq_some (found level inside))).1
  · refine checkText_of_written ?_
    rw [givenIn_two, written.get?_front _ _ (by decide), written.get?_extra _ _ (by decide),
      get?_ownFields_default]
    cases chosen : d.defaultHierarchyName with
    | none => exact Record.get?_eq_none_iff.mpr (told.notMem_writtenExtra chosen)
    | some name => rfl
  · refine checkText_of_written ((written.givenIn_front _ _ (by decide)).trans ?_)
    exact get?_ownFields_keyField d
  · rw [List.map_map]
    exact settled.levelsOnce
  · rw [List.map_map]
    exact settled.hierarchiesOnce
  · rw [List.map_map]
    rfl
  · have levels : d.reread.levels = d.levels.map fun level => level.reread.attach d.name := rfl
    rw [levels]
    exact allOf_map_ok fun h member => Hierarchy.attach_reread (settled.hierarchies h member).2

theorem IsSettled.fields_reread (settled : d.IsSettled) : d.reread.fields = d.fields := by
  have again : AvoidsFirsts knownKeys d.reread.header.extra := (isWritten settled.extra).avoids
  have levels : d.reread.levels.map (fun level => Datum.record level.fields) =
      d.levels.map fun level => .record level.fields :=
    map_record_congr fun level member =>
      (settled.levels level member).1.fields_reread (settled.levels level member).2
  have hierarchies : d.reread.hierarchies.map (fun h => Datum.record h.fields) =
      d.hierarchies.map fun h => .record h.fields := by
    refine map_record_congr fun h member => ?_
    obtain ⟨known, found⟩ := settled.hierarchies h member
    exact known.fields_rereadIn fun level inside =>
      settled.levels level (List.mem_of_find?_eq_some (found level inside))
  have extra : d.reread.writtenExtra = d.writtenExtra := by
    have names : d.reread.levelNames = d.levelNames := List.map_map ..
    rw [writtenExtra, names]
    exact d.header.keptWithLevels_again d.levelNames
  rw [fields_eq again, fields_eq settled.extra, extra, ownFields, levels, hierarchies]
  rfl

end Dimension

end Olap
