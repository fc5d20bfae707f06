/-
Sections of settings. A section is read setting by setting: each has its default, or is what its check makes
of what is given for it, and a text among the settings was given as a text. All settings are written as
texts, and a section is read again from what is written for it.
-/

import Mathlib
import Olap.Proofs.Cuts
import Olap.Proofs.Settings
import Olap.Proofs.Written

namespace Olap

theorem Datum.ofOption_eq_text {α : Type} {s : Option String} {text : String}
    (same : .text text = (ofOption s : Datum α)) : s = some text := by
  cases s with
  | none => cases same
  | some other => exact congrArg some (Datum.text.inj same).symm

/-! ### Options of a section -/

namespace Record

variable {β γ : Type}

/-- What is found of the values that something is made of, when all keys differ. -/
theorem get?_filterMap (make : β → Option γ) {fields : List (String × β)} (distinct : (keys fields).Nodup)
    (key : String) :
    get? (fields.filterMap fun (name, value) => (make value).map fun made => (name, made)) key =
      (get? fields key).bind make := by
  induction fields with
  | nil => rfl
  | cons field rest inductionHypothesis =>
    obtain ⟨name, value⟩ := field
    obtain ⟨fresh, distinctRest⟩ := List.nodup_cons.mp distinct
    have later := inductionHypothesis distinctRest
    rw [get?_cons, List.filterMap_cons]
    dsimp only
    by_cases same : name = key
    · have unfound : get? rest key = none := get?_eq_none_iff.mpr (same ▸ fresh)
      rw [unfound, Option.bind_none] at later
      rw [if_pos same, Option.bind_some]
      cases make value with
      | none => exact later
      | some made => exact (get?_cons _ _ _).trans (if_pos same)
    · rw [if_neg same]
      cases make value with
      | none => exact later
      | some made => exact (get?_cons _ _ _).trans ((if_neg same).trans later)

theorem keys_filterMap_sublist (make : β → Option γ) (fields : List (String × β)) :
    (keys (fields.filterMap fun (name, value) => (make value).map fun made => (name, made))).Sublist
      (keys fields) := by
  induction fields with
  | nil => exact .slnil
  | cons field rest inductionHypothesis =>
    obtain ⟨name, value⟩ := field
    rw [List.filterMap_cons]
    dsimp only
    cases make value with
    | none => exact inductionHypothesis.cons _
    | some made => exact inductionHypothesis.cons_cons _

theorem get?_map_values (make : β → γ) (fields : List (String × β)) (key : String) :
    get? (fields.map fun (name, value) => (name, make value)) key = (get? fields key).map make := by
  rw [get?, get?, List.find?_map, Option.map_map, Option.map_map]
  rfl

end Record

namespace Setting

/-- Options as fields of a description. -/
def textFields (options : List (String × String)) : Fields Part :=
  options.map fun (key, value) => (key, .text value)

theorem get?_textFields (options : List (String × String)) (key : String) :
    Record.get? (textFields options) key = (Record.get? options key).map .text :=
  Record.get?_map_values Datum.text options key

theorem keys_textFields (options : List (String × String)) :
    Record.keys (textFields options) = Record.keys options := by
  unfold textFields Record.keys
  rw [List.map_map]
  rfl

theorem get?_writtenSettings {row : Row} (distinct : (Record.keys row).Nodup) (key : String) :
    Record.get? (Config.writtenSettings row) key = (Record.get? row key).bind written? :=
  Record.get?_filterMap written? distinct key

/-- What is written for a setting is given for it. -/
theorem get?_written {row : Row} (distinct : (Record.keys row).Nodup) {key : String} {value : Value}
    (found : Record.get? row key = some value) :
    Record.get? (textFields (Config.writtenSettings row)) key = (written? value).map .text := by
  rw [get?_textFields, get?_writtenSettings distinct, found, Option.bind_some]

theorem keys_written_subset (row : Row) :
    Record.keys (textFields (Config.writtenSettings row)) ⊆ Record.keys row := by
  rw [keys_textFields]
  exact (Record.keys_filterMap_sublist written? row).subset

theorem written?_ofOption (s : Option String) : written? (.ofOption s) = s := by
  cases s <;> rfl

theorem written?_ofFloat? (x : Option Float) : written? (.ofFloat? x) = x.map Decimal.showFloat := by
  cases x <;> rfl

/-- What is written for a setting is the text that it is, or has no percent sign. -/
def IsTextOrPlain (value : Value) : Prop :=
  ∀ text, written? value = some text → value = .text text ∨ '%' ∉ text.toList

theorem isTextOrPlain_text (s : String) : IsTextOrPlain (.text s) := fun _ same =>
  Or.inl (congrArg Datum.text (Option.some.inj same))

theorem isTextOrPlain_ofOption (s : Option String) : IsTextOrPlain (.ofOption s) := by
  cases s with
  | none => exact fun _ none => nomatch none
  | some s => exact isTextOrPlain_text s

theorem isTextOrPlain_bool (b : Bool) : IsTextOrPlain (.bool b) := by
  rintro _ ⟨⟩
  exact Or.inr (by cases b <;> decide)

theorem isTextOrPlain_int {n : Nat} (positive : 0 < n) : IsTextOrPlain (.int n) := by
  rintro _ ⟨⟩
  exact Or.inr (Decimal.isNumeral_toString positive).not_mem_percent

theorem isTextOrPlain_ofFloat? {x : Option Float}
    (above : ∀ y, x = some y → (Number.int 0).less (.float y) = true) : IsTextOrPlain (.ofFloat? x) := by
  cases x with
  | none => exact fun _ none => nomatch none
  | some y =>
    rintro _ ⟨⟩
    refine Or.inr ?_
    show '%' ∉ (Decimal.showFloat y).toList
    rcases Decimal.showFloat_of_positive (above y rfl) with ⟨number, -⟩ | ⟨infinite, -⟩
    · exact number.not_mem_percent
    · rw [infinite]
      decide

/-! ### Settings one by one -/

variable {β : Type}

/-- A setting has its default and is not given, or is what its check makes of what is given. -/
def Comes (check : Description → Check β) (default : β) (given : Option Description) (b : β) : Prop :=
  given = none ∧ b = default ∨ ∃ d, given = some d ∧ (check d).result = .ok b

theorem checkField_ok {fields : Fields Part} {key : String} {default b : β} {check : Description → Check β} :
    (checkField fields [key] default check).result = .ok b ↔
      Comes check default (Record.get? fields key) b := by
  rw [checkField_ok_iff, givenIn_one]
  rfl

/-- A text that is a setting is one that was given as another. -/
def IsTaken (given : Option Description) (s : String) : Prop :=
  ∃ d text, given = some d ∧ d.text? = some text ∧ (ofText text : Description) = .text s

theorem IsTaken.isKept {given : Option Description} {s : String} (taken : IsTaken given s) : IsKept s := by
  obtain ⟨_, text, -, -, same⟩ := taken
  exact isKept_of_ofText same

theorem IsTaken.of_textFields {options : List (String × String)} {key s : String}
    (taken : IsTaken (Record.get? (textFields options) key) s) :
    ∃ text, Record.get? options key = some text ∧ (ofText text : Description) = .text s := by
  obtain ⟨d, text, given, isText, same⟩ := taken
  rw [get?_textFields] at given
  obtain ⟨other, found, rfl⟩ := Option.map_eq_some_iff.1 given
  exact ⟨other, found, Option.some.inj isText ▸ same⟩

theorem Comes.isTaken {given : Option Description} {s : String}
    (comes : Comes optionalText none given (some s)) : IsTaken given s := by
  obtain ⟨-, impossible⟩ | ⟨d, given, checked⟩ := comes
  · cases impossible
  · obtain ⟨text, isText, same⟩ := optionalText_ok_some.1 checked
    exact ⟨d, text, given, isText, same⟩

theorem Comes.positive {given : Option Description} {x : Float}
    (comes : Comes optionalSeconds none given (some x)) : (Number.int 0).less (.float x) = true := by
  obtain ⟨-, impossible⟩ | ⟨d, -, checked⟩ := comes
  · cases impossible
  · rw [optionalSeconds, optional_ok] at checked
    obtain ⟨-, impossible⟩ | ⟨-, other, made, same⟩ := checked
    · cases impossible
    · rw [seconds, Check.result_thenCheck] at made
      obtain ⟨y, -, checked⟩ := made
      split at checked
      · rename_i above
        rw [Check.result_accept] at checked
        rwa [← Option.some.inj same, ← checked]
      · cases checked

section Written

variable {row : Row} {key : String}

/-- A text is read again from where it is written, and so is none. -/
theorem comes_written_text (distinct : (Record.keys row).Nodup)
    (kept : ∀ key text, (key, .text text) ∈ row → IsKept text) {s : Option String}
    (found : Record.get? row key = some (.ofOption s)) :
    Comes optionalText none (Record.get? (textFields (Config.writtenSettings row)) key) s := by
  rw [get?_written distinct found, written?_ofOption]
  cases s with
  | none => exact Or.inl ⟨rfl, rfl⟩
  | some text =>
    exact Or.inr ⟨_, rfl, optionalText_written (kept key text (Record.mem_of_get?_eq_some found))⟩

theorem comes_written_bool (distinct : (Record.keys row).Nodup) (default : Bool) {b : Bool}
    (found : Record.get? row key = some (.bool b)) :
    Comes bool default (Record.get? (textFields (Config.writtenSettings row)) key) b := by
  rw [get?_written distinct found]
  exact Or.inr ⟨_, rfl, bool_written b⟩

theorem comes_written_seconds (distinct : (Record.keys row).Nodup) {x : Option Float}
    (above : ∀ y, x = some y → (Number.int 0).less (.float y) = true)
    (found : Record.get? row key = some (.ofFloat? x)) :
    Comes optionalSeconds none (Record.get? (textFields (Config.writtenSettings row)) key) x := by
  rw [get?_written distinct found, written?_ofFloat?]
  cases x with
  | none => exact Or.inl ⟨rfl, rfl⟩
  | some y => exact Or.inr ⟨_, rfl, optionalSeconds_written (above y rfl)⟩

theorem comes_written_positive (distinct : (Record.keys row).Nodup) (default : { n : Nat // 0 < n })
    {n : { n : Nat // 0 < n }} (short : (Decimal.digitsOf n.val).length ≤ Coerce.maxIntegerDigits)
    (found : Record.get? row key = some (.int n.val)) :
    Comes positive default (Record.get? (textFields (Config.writtenSettings row)) key) n := by
  rw [get?_written distinct found]
  exact Or.inr ⟨_, rfl, positive_written n.property short⟩

/-- A text that must be there is there again. -/
theorem isTaken_written (distinct : (Record.keys row).Nodup)
    (kept : ∀ key text, (key, .text text) ∈ row → IsKept text) {s : String}
    (found : Record.get? row key = some (.text s)) :
    IsTaken (Record.get? (textFields (Config.writtenSettings row)) key) s := by
  rw [get?_written distinct found]
  exact ⟨_, s, rfl, rfl, kept key s (Record.mem_of_get?_eq_some found)⟩

end Written

theorem requireField_text_ok {fields : Fields Part} {key s : String} :
    (requireField fields [key] text).result = .ok s ↔ IsTaken (Record.get? fields key) s := by
  rw [Cut.requireField_ok]
  simp only [text_ok]
  exact ⟨fun ⟨d, given, other, isText, same⟩ => ⟨d, other, given, isText, same⟩,
    fun ⟨d, other, given, isText, same⟩ => ⟨d, given, other, isText, same⟩⟩

end Setting

/-! ### Sections -/

namespace WorkspaceSettings

theorem nodup_keys_toRecord (s : WorkspaceSettings) : (Record.keys s.toRecord).Nodup := by
  show ["log", "log_level", "root_directory", "debug"].Nodup
  decide

/-- The settings of a workspace as they are read. -/
structure IsRead (fields : Fields Part) (s : WorkspaceSettings) : Prop where
  log : Setting.Comes Setting.optionalText none (Record.get? fields "log") s.log
  logLevel : Setting.Comes Setting.optionalText none (Record.get? fields "log_level") s.logLevel
  rootDirectory : Setting.Comes Setting.optionalText none (Record.get? fields "root_directory")
    s.rootDirectory
  debug : Setting.Comes Setting.bool false (Record.get? fields "debug") s.debug
  known : Record.keys fields ⊆ ["log", "log_level", "root_directory", "debug"]

theorem check_ok {fields : Fields Part} {s : WorkspaceSettings} :
    (check fields).result = .ok s ↔ IsRead fields s := by
  have extra : (refuseExtra keys fields).result = .ok () ↔
      Record.keys fields ⊆ ["log", "log_level", "root_directory", "debug"] := by
    rw [refuseExtra_ok, ← leftOver_singles]
    rfl
  unfold check
  simp only [Check.result_seq, Check.result_map]
  constructor
  · rintro ⟨_, _, ⟨_, _, ⟨_, _, ⟨_, _, ⟨log, logged, rfl⟩, levelled, rfl⟩, rooted, rfl⟩, debugged, rfl⟩,
      rest, rfl⟩
    exact ⟨Setting.checkField_ok.1 logged, Setting.checkField_ok.1 levelled, Setting.checkField_ok.1 rooted,
      Setting.checkField_ok.1 debugged, extra.1 rest⟩
  · rintro ⟨logged, levelled, rooted, debugged, known⟩
    exact ⟨_, (), ⟨_, _, ⟨_, _, ⟨_, _, ⟨_, Setting.checkField_ok.2 logged, rfl⟩,
      Setting.checkField_ok.2 levelled, rfl⟩, Setting.checkField_ok.2 rooted, rfl⟩,
      Setting.checkField_ok.2 debugged, rfl⟩, extra.2 known, rfl⟩

/-- Texts among the settings were given as texts. -/
theorem IsRead.isTaken {fields : Fields Part} {s : WorkspaceSettings} (read : IsRead fields s)
    {key text : String} (member : (key, .text text) ∈ s.toRecord) :
    Setting.IsTaken (Record.get? fields key) text := by
  simp only [toRecord, List.mem_cons, Prod.mk.injEq, List.not_mem_nil, or_false, reduceCtorEq,
    and_false] at member
  rcases member with ⟨rfl, given⟩ | ⟨rfl, given⟩ | ⟨rfl, given⟩
  · exact (Datum.ofOption_eq_text given ▸ read.log).isTaken
  · exact (Datum.ofOption_eq_text given ▸ read.logLevel).isTaken
  · exact (Datum.ofOption_eq_text given ▸ read.rootDirectory).isTaken

/-- Settings are read again as they are written. -/
theorem isRead_written {s : WorkspaceSettings}
    (kept : ∀ key text, (key, .text text) ∈ s.toRecord → Setting.IsKept text) :
    IsRead (Setting.textFields (Config.writtenSettings s.toRecord)) s := by
  have distinct := nodup_keys_toRecord s
  exact ⟨Setting.comes_written_text distinct kept rfl, Setting.comes_written_text distinct kept rfl,
    Setting.comes_written_text distinct kept rfl, Setting.comes_written_bool distinct _ rfl,
    Setting.keys_written_subset _⟩

end WorkspaceSettings

namespace StoreSettings

theorem nodup_keys_toRecord (s : StoreSettings) : (Record.keys s.toRecord).Nodup := by
  show ["url", "render_literals", "fetch_size", "timeout", "echo", "view_prefix"].Nodup
  decide

/-- The settings of a store as they are read. -/
structure IsRead (fields : Fields Part) (s : StoreSettings) : Prop where
  url : Setting.IsTaken (Record.get? fields "url") s.url
  renderLiterals : Setting.Comes Setting.bool false (Record.get? fields "render_literals") s.renderLiterals
  fetchSize : Setting.Comes Setting.positive ⟨Sql.defaultFetchSize, by decide⟩
    (Record.get? fields "fetch_size") ⟨s.fetchSize, s.fetchSize_pos⟩
  timeout : Setting.Comes Setting.optionalSeconds none (Record.get? fields "timeout") s.timeout
  echo : Setting.Comes Setting.bool false (Record.get? fields "echo") s.echo
  viewPrefix : Setting.Comes Setting.optionalText none (Record.get? fields "view_prefix") s.viewPrefix
  known : Record.keys fields ⊆ ["url", "render_literals", "fetch_size", "timeout", "echo", "view_prefix"]

theorem check_ok {fields : Fields Part} {s : StoreSettings} :
    (check fields).result = .ok s ↔ IsRead fields s := by
  have extra : (refuseExtra keys fields).result = .ok () ↔
      Record.keys fields ⊆ ["url", "render_literals", "fetch_size", "timeout", "echo", "view_prefix"] := by
    rw [refuseExtra_ok, ← leftOver_singles]
    rfl
  unfold check
  simp only [Check.result_seq, Check.result_map]
  constructor
  · rintro ⟨_, _, ⟨_, _, ⟨_, _, ⟨_, _, ⟨_, _, ⟨_, _, ⟨url, addressed, rfl⟩, rendered, rfl⟩, sized, rfl⟩, timed,
      rfl⟩, echoed, rfl⟩, named, rfl⟩, rest, rfl⟩
    exact ⟨Setting.requireField_text_ok.1 addressed, Setting.checkField_ok.1 rendered,
      Setting.checkField_ok.1 sized, Setting.checkField_ok.1 timed, Setting.checkField_ok.1 echoed,
      Setting.checkField_ok.1 named, extra.1 rest⟩
  · rintro ⟨addressed, rendered, sized, timed, echoed, named, known⟩
    exact ⟨_, (), ⟨_, _, ⟨_, _, ⟨_, _, ⟨_, _, ⟨_, _, ⟨_, Setting.requireField_text_ok.2 addressed, rfl⟩,
      Setting.checkField_ok.2 rendered, rfl⟩, Setting.checkField_ok.2 sized, rfl⟩,
      Setting.checkField_ok.2 timed, rfl⟩, Setting.checkField_ok.2 echoed, rfl⟩,
      Setting.checkField_ok.2 named, rfl⟩, extra.2 known, rfl⟩

/-- Texts among the settings were given as texts. -/
theorem IsRead.isTaken {fields : Fields Part} {s : StoreSettings} (read : IsRead fields s)
    {key text : String} (member : (key, .text text) ∈ s.toRecord) :
    Setting.IsTaken (Record.get? fields key) text := by
  simp only [toRecord, List.mem_cons, Prod.mk.injEq, List.not_mem_nil, or_false, reduceCtorEq, and_false,
    false_or, Datum.text.injEq] at member
  rcases member with ⟨rfl, rfl⟩ | ⟨rfl, given⟩ | ⟨rfl, given⟩
  · exact read.url
  · cases time : s.timeout <;> rw [time] at given <;> cases given
  · exact (Datum.ofOption_eq_text given ▸ read.viewPrefix).isTaken

/-- Settings are read again as they are written, if the number among them has not too many digits. -/
theorem isRead_written {s : StoreSettings}
    (kept : ∀ key text, (key, .text text) ∈ s.toRecord → Setting.IsKept text)
    (above : ∀ x, s.timeout = some x → (Number.int 0).less (.float x) = true)
    (short : (Decimal.digitsOf s.fetchSize).length ≤ Coerce.maxIntegerDigits) :
    IsRead (Setting.textFields (Config.writtenSettings s.toRecord)) s := by
  have distinct := nodup_keys_toRecord s
  exact ⟨Setting.isTaken_written distinct kept rfl, Setting.comes_written_bool distinct _ rfl,
    Setting.comes_written_positive distinct _ short rfl, Setting.comes_written_seconds distinct above rfl,
    Setting.comes_written_bool distinct _ rfl, Setting.comes_written_text distinct kept rfl,
    Setting.keys_written_subset _⟩

end StoreSettings

namespace ModelSettings

theorem nodup_keys_toRecord (s : ModelSettings) : (Record.keys s.toRecord).Nodup := List.nodup_singleton _

/-- The settings of a model as they are read. -/
structure IsRead (fields : Fields Part) (s : ModelSettings) : Prop where
  path : Setting.IsTaken (Record.get? fields "path") s.path
  known : Record.keys fields ⊆ ["path"]

theorem check_ok {fields : Fields Part} {s : ModelSettings} :
    (check fields).result = .ok s ↔ IsRead fields s := by
  have extra : (refuseExtra [["path"]] fields).result = .ok () ↔ Record.keys fields ⊆ ["path"] := by
    rw [refuseExtra_ok, ← leftOver_singles]
    rfl
  unfold check
  simp only [Check.result_seq, Check.result_map]
  constructor
  · rintro ⟨_, _, ⟨path, located, rfl⟩, rest, rfl⟩
    exact ⟨Setting.requireField_text_ok.1 located, extra.1 rest⟩
  · rintro ⟨located, known⟩
    exact ⟨_, (), ⟨_, Setting.requireField_text_ok.2 located, rfl⟩, extra.2 known, rfl⟩

theorem IsRead.isTaken {fields : Fields Part} {s : ModelSettings} (read : IsRead fields s)
    {key text : String} (member : (key, .text text) ∈ s.toRecord) :
    Setting.IsTaken (Record.get? fields key) text := by
  simp only [toRecord, List.mem_singleton, Prod.mk.injEq, Datum.text.injEq] at member
  obtain ⟨rfl, rfl⟩ := member
  exact read.path

theorem isRead_written {s : ModelSettings}
    (kept : ∀ key text, (key, .text text) ∈ s.toRecord → Setting.IsKept text) :
    IsRead (Setting.textFields (Config.writtenSettings s.toRecord)) s :=
  ⟨Setting.isTaken_written (nodup_keys_toRecord s) kept rfl, Setting.keys_written_subset _⟩

end ModelSettings

end Olap
