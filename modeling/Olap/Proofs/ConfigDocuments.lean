/-
Configurations that are written and read back. All settings are written as texts into a document of
sections, and each is read from its text again: that of a text is the text itself, which was looked at
already when it was accepted. But the values of a document are templates and are written as they are, so a
percent sign in them comes out changed, if it comes out at all. A configuration comes back exactly if no text
among its settings has a percent sign, and the one number among them is not too long to be written.
-/

import Mathlib
import Olap.Proofs.Documents
import Olap.Proofs.Sections

namespace Olap

namespace Config

variable {c : Config}

/-! ### Sections of a configuration -/

theorem forall_mem_sections {P : String × Row → Prop} :
    (∀ block ∈ c.sections, P block) ↔ P ("workspace", c.workspace.toRecord) ∧
      (∀ s, c.store = some s → P ("store", s.toRecord)) ∧
      ∀ m, c.model = some m → P ("model", m.toRecord) := by
  unfold sections
  cases c.store <;> cases c.model <;> simp

theorem nodup_names (c : Config) : (Record.keys c.sections).Nodup := by
  unfold sections
  cases c.store <;> cases c.model <;> simp [Record.keys]

theorem nodup_keys_of_mem {block : String × Row} (member : block ∈ c.sections) :
    (Record.keys block.2).Nodup :=
  forall_mem_sections (P := fun block => (Record.keys block.2).Nodup) |>.2
    ⟨WorkspaceSettings.nodup_keys_toRecord _, fun s _ => StoreSettings.nodup_keys_toRecord s,
      fun m _ => ModelSettings.nodup_keys_toRecord m⟩ block member

theorem checkSection_ok {β : Type} {check : Fields Part → Check β} {d : Description} {b : β} :
    (checkSection check d).result = .ok b ↔ ∃ fields, d = .record fields ∧ (check fields).result = .ok b := by
  cases d with
  | record fields => simp [checkSection]
  | _ => simp [checkSection, Check.flaw, Check.refuse, Check.result]

/-- A section that may be missing is a record that is checked. -/
theorem optionalSection_ok {β : Type} {check : Fields Part → Check β} {given : Option Description} {b : β} :
    Setting.Comes (Coerce.optional (checkSection check)) none given (some b) ↔
      ∃ fields, given = some (.record fields) ∧ (check fields).result = .ok b := by
  unfold Setting.Comes
  simp only [reduceCtorEq, and_false, false_or, optional_ok, Option.some.injEq, exists_eq_right,
    checkSection_ok]
  constructor
  · rintro ⟨_, given, -, fields, rfl, checked⟩
    exact ⟨fields, given, checked⟩
  · rintro ⟨fields, given, checked⟩
    exact ⟨_, given, nofun, fields, rfl, checked⟩

theorem check_ok {fields : Fields Part} : (check fields).result = .ok c ↔
    Setting.Comes (checkSection WorkspaceSettings.check) .usual (Record.get? fields "workspace") c.workspace ∧
      Setting.Comes (Coerce.optional (checkSection StoreSettings.check)) none
        (Record.get? fields "store") c.store ∧
      Setting.Comes (Coerce.optional (checkSection ModelSettings.check)) none
        (Record.get? fields "model") c.model := by
  unfold check
  simp only [Check.result_seq, Check.result_map, Setting.checkField_ok]
  constructor
  · rintro ⟨_, _, ⟨_, _, ⟨workspace, first, rfl⟩, second, rfl⟩, third, rfl⟩
    exact ⟨first, second, third⟩
  · rintro ⟨first, second, third⟩
    exact ⟨_, _, ⟨_, _, ⟨_, first, rfl⟩, second, rfl⟩, third, rfl⟩

theorem ofSections_ok {fields : Fields Part} : ofSections fields = .ok c ↔
    Record.keys fields ⊆ sectionNames ∧ (check fields).result = .ok c := by
  unfold ofSections
  have sorted : sortNames ((Record.keys fields).filter (!sectionNames.contains ·)) = [] ↔
      Record.keys fields ⊆ sectionNames := by
    rw [sortNames, ← List.length_eq_zero_iff, List.length_mergeSort, List.length_eq_zero_iff,
      List.filter_eq_nil_iff]
    simp [List.subset_def]
  cases unknown : sortNames ((Record.keys fields).filter (!sectionNames.contains ·)) with
  | nil =>
    have known := sorted.1 unknown
    cases checked : (check fields).result with
    | ok other => simp [known]
    | error fault => cases fault <;> simp [fail]
  | cons name names =>
    have known : ¬Record.keys fields ⊆ sectionNames := fun known => by
      rw [sorted.2 known] at unknown
      cases unknown
    simp [known, fail]

/-! ### Accepted configurations -/

/-- A text among the settings was given as one, in the section of its own. -/
theorem isTaken_of_check {fields : Fields Part} (checked : (check fields).result = .ok c)
    {block : String × Row} (member : block ∈ c.sections) {key text : String}
    (inside : (key, .text text) ∈ block.2) :
    ∃ own, Record.get? fields block.1 = some (.record own) ∧
      Setting.IsTaken (Record.get? own key) text := by
  obtain ⟨workspace, store, model⟩ := check_ok.1 checked
  revert key text
  refine forall_mem_sections (P := fun block => ∀ {key text : String}, (key, .text text) ∈ block.2 →
    ∃ own, Record.get? fields block.1 = some (.record own) ∧
      Setting.IsTaken (Record.get? own key) text) |>.2 ⟨?_, ?_, ?_⟩ block member
  · intro key text inside
    obtain ⟨-, usual⟩ | ⟨d, given, passed⟩ := workspace
    · rw [usual] at inside
      simp [WorkspaceSettings.toRecord, WorkspaceSettings.usual, Datum.ofOption] at inside
    · obtain ⟨own, rfl, read⟩ := checkSection_ok.1 passed
      exact ⟨own, given, (WorkspaceSettings.check_ok.1 read).isTaken inside⟩
  · intro s there key text inside
    obtain ⟨own, given, read⟩ := optionalSection_ok.1 (there ▸ store)
    exact ⟨own, given, (StoreSettings.check_ok.1 read).isTaken inside⟩
  · intro m there key text inside
    obtain ⟨own, given, read⟩ := optionalSection_ok.1 (there ▸ model)
    exact ⟨own, given, (ModelSettings.check_ok.1 read).isTaken inside⟩

/-- A configuration whose texts stay what they are, and whose time to wait is positive. -/
structure IsAccepted (c : Config) : Prop where
  kept : ∀ block ∈ c.sections, ∀ key text, (key, .text text) ∈ block.2 → Setting.IsKept text
  above : ∀ s, c.store = some s → ∀ x, s.timeout = some x → (Number.int 0).less (.float x) = true

theorem isAccepted_of_check {fields : Fields Part} (checked : (check fields).result = .ok c) :
    c.IsAccepted where
  kept block member key text inside := by
    obtain ⟨own, -, taken⟩ := isTaken_of_check checked member inside
    exact taken.isKept
  above s there x some := by
    obtain ⟨own, -, read⟩ := optionalSection_ok.1 (there ▸ (check_ok.1 checked).2.1)
    exact ((some ▸ (StoreSettings.check_ok.1 read).timeout).positive)

/-! ### Texts that are written -/

/-- What is written for settings is a text that they are, or has no percent sign. -/
theorem IsAccepted.text_or_plain (accepted : c.IsAccepted) : ∀ block ∈ c.sections, ∀ setting ∈ block.2,
    Setting.IsTextOrPlain setting.2 := by
  refine forall_mem_sections.2 ⟨?_, fun s there => ?_, fun m _ => ?_⟩
  · simp only [WorkspaceSettings.toRecord, List.forall_mem_cons]
    exact ⟨Setting.isTextOrPlain_ofOption _, Setting.isTextOrPlain_ofOption _,
      Setting.isTextOrPlain_ofOption _, Setting.isTextOrPlain_bool _, List.forall_mem_nil _⟩
  · simp only [StoreSettings.toRecord, List.forall_mem_cons]
    exact ⟨Setting.isTextOrPlain_text _, Setting.isTextOrPlain_bool _,
      Setting.isTextOrPlain_int s.fetchSize_pos, Setting.isTextOrPlain_ofFloat? (accepted.above s there),
      Setting.isTextOrPlain_bool _, Setting.isTextOrPlain_ofOption _, List.forall_mem_nil _⟩
  · simp only [ModelSettings.toRecord, List.forall_mem_cons]
    exact ⟨Setting.isTextOrPlain_text _, List.forall_mem_nil _⟩

/-- No text among the settings has a percent sign. -/
def IsPlain (c : Config) : Prop :=
  ∀ block ∈ c.sections, ∀ key text, (key, .text text) ∈ block.2 → '%' ∉ text.toList

/-- The sections as they are written. -/
def blocks (c : Config) : List (String × List (String × String)) :=
  c.sections.map fun (name, settings) => (name, writtenSettings settings)

theorem nodup_keys_writtenSettings {row : Row} (distinct : (Record.keys row).Nodup) :
    (Record.keys (writtenSettings row)).Nodup :=
  distinct.sublist (Record.keys_filterMap_sublist Setting.written? row)

theorem nodup_keys_of_mem_blocks {block : String × List (String × String)} (member : block ∈ c.blocks) :
    (Record.keys block.2).Nodup := by
  obtain ⟨⟨name, settings⟩, inside, rfl⟩ := List.mem_map.1 member
  exact nodup_keys_writtenSettings (nodup_keys_of_mem inside)

theorem IsAccepted.plain_blocks (accepted : c.IsAccepted) (plain : c.IsPlain) :
    ∀ block ∈ c.blocks, ∀ option ∈ block.2, '%' ∉ option.2.toList := by
  intro block member option inside
  obtain ⟨⟨name, settings⟩, among, rfl⟩ := List.mem_map.1 member
  obtain ⟨⟨key, value⟩, setting, written⟩ := List.mem_filterMap.1 inside
  obtain ⟨text, shown, rfl⟩ := Option.map_eq_some_iff.1 written
  rcases accepted.text_or_plain _ among _ setting text shown with rfl | clear
  · exact plain _ among key text setting
  · exact clear

theorem get?_blocks (c : Config) (name : String) :
    Record.get? c.blocks name = (Record.get? c.sections name).map writtenSettings :=
  Record.get?_map_values writtenSettings c.sections name

theorem get?_sectionsOf (found : List (String × List (String × String))) (name : String) :
    Record.get? (sectionsOf found) name =
      (Record.get? found name).map fun options => .record (Setting.textFields options) :=
  Record.get?_map_values (fun options => (.record (Setting.textFields options) : Description)) found name

theorem get?_sections_store (c : Config) :
    Record.get? c.sections "store" = c.store.map StoreSettings.toRecord := by
  unfold sections
  cases c.store <;> cases c.model <;> rfl

theorem get?_sections_model (c : Config) :
    Record.get? c.sections "model" = c.model.map ModelSettings.toRecord := by
  unfold sections
  cases c.store <;> cases c.model <;> rfl

/-- All numbers among the settings can be written if they have not too many digits. -/
theorem hasWritableNumbers_iff : c.hasWritableNumbers = true ↔
    ∀ s, c.store = some s → s.fetchSize < 10 ^ Coerce.maxIntegerDigits := by
  unfold hasWritableNumbers
  cases c.store with
  | none => simp
  | some s =>
    simp only [Option.all_some, decide_eq_true_iff, Option.some.injEq, forall_eq']
    exact Decimal.length_digitsOf_le_iff s.fetchSize_pos

/-! ### Reading what is written -/

/-- An accepted configuration without percent signs is read from its sections as they are written. -/
theorem IsAccepted.ofIni_blocks (accepted : c.IsAccepted) (plain : c.IsPlain)
    (short : ∀ s, c.store = some s → s.fetchSize < 10 ^ Coerce.maxIntegerDigits) :
    ofIni (Ini.ofSections c.blocks) = .ok c := by
  have kept : (Ini.ofSections c.blocks).allOptions c.blocks = .ok c.blocks := by
    rw [Ini.allOptions_eq_makeAll]
    exact Ini.makeAll_of_kept fun block member =>
      Ini.options_ofSections_plain _ (nodup_keys_of_mem_blocks member)
        (accepted.plain_blocks plain block member)
  unfold ofIni
  rw [show (Ini.ofSections c.blocks).sections = c.blocks from rfl, kept]
  refine ofSections_ok.2 ⟨?_, check_ok.2 ⟨?_, ?_, ?_⟩⟩
  · have names : Record.keys (sectionsOf c.blocks) = Record.keys c.sections := by
      simp [sectionsOf, blocks, Record.keys]
    rw [names]
    unfold sections
    cases c.store <;> cases c.model <;> simp [Record.keys, sectionNames]
  · refine Or.inr ⟨.record (Setting.textFields (writtenSettings c.workspace.toRecord)), ?_,
      checkSection_ok.2 ⟨_, rfl, WorkspaceSettings.check_ok.2 (WorkspaceSettings.isRead_written ?_)⟩⟩
    · rw [get?_sectionsOf, get?_blocks]
      rfl
    · exact (forall_mem_sections.1 accepted.kept).1
  · rw [get?_sectionsOf, get?_blocks, get?_sections_store]
    cases there : c.store with
    | none => exact Or.inl ⟨rfl, rfl⟩
    | some s =>
      exact optionalSection_ok.2 ⟨_, rfl, StoreSettings.check_ok.2 (StoreSettings.isRead_written
        ((forall_mem_sections.1 accepted.kept).2.1 s there) (accepted.above s there)
        ((Decimal.length_digitsOf_le_iff s.fetchSize_pos).2 (short s there)))⟩
  · rw [get?_sectionsOf, get?_blocks, get?_sections_model]
    cases there : c.model with
    | none => exact Or.inl ⟨rfl, rfl⟩
    | some m =>
      exact optionalSection_ok.2 ⟨_, rfl, ModelSettings.check_ok.2 (ModelSettings.isRead_written
        ((forall_mem_sections.1 accepted.kept).2.2 m there))⟩

/-- What is read from its sections as they are written has no percent signs: its texts came out of them with
as many as they went in. -/
theorem IsAccepted.isPlain (accepted : c.IsAccepted) (again : ofIni (Ini.ofSections c.blocks) = .ok c) :
    c.IsPlain := by
  unfold ofIni at again
  cases expanded : (Ini.ofSections c.blocks).allOptions (Ini.ofSections c.blocks).sections with
  | error failure =>
    rw [expanded] at again
    cases again
  | ok found =>
    rw [expanded] at again
    have checked := (ofSections_ok.1 again).2
    rw [Ini.allOptions_eq_makeAll] at expanded
    intro block member key text inside
    have distinct := nodup_keys_of_mem member
    obtain ⟨options, made, given⟩ := Ini.exists_get?_of_makeAll expanded
      (show Record.get? c.blocks block.1 = some (writtenSettings block.2) by
        rw [get?_blocks, Record.get?_of_mem (nodup_names c) member]
        rfl)
    rw [Ini.options_ofSections _ (nodup_keys_writtenSettings distinct)] at made
    refine Template.plain_of_count (fun name value there => ?_)
      ((Setting.get?_writtenSettings distinct key).trans ?_)
    · -- What is read for a setting is what its text is expanded to.
      obtain ⟨text, expands, found⟩ := Ini.exists_get?_of_makeAll made there
      refine ⟨text.toList, Template.expandTo_of_expand expands, ?_⟩
      rw [Setting.get?_writtenSettings distinct] at there
      obtain ⟨setting, settled, written⟩ := Option.bind_eq_some_iff.1 there
      have among := Record.mem_of_get?_eq_some settled
      rcases accepted.text_or_plain block member _ among value written with rfl | clear
      · obtain ⟨own, givenAgain, taken⟩ := isTaken_of_check checked member among
        rw [get?_sectionsOf, given] at givenAgain
        cases givenAgain
        obtain ⟨other, foundAgain, same⟩ := taken.of_textFields
        obtain rfl := Option.some.inj (found.symm.trans foundAgain)
        exact Setting.count_of_ofText same
      · rw [Template.expand_plain _ clear] at expands
        rw [Except.ok.inj expands]
    · rw [Record.get?_of_mem distinct inside]
      rfl

/-- A configuration is read from its document exactly if no text among its settings has a percent sign, and
the number among them is not too long to be written. -/
theorem read_toIni_iff {files : Files} {fields : Fields Part}
    (accepted : read files (.described (.record fields)) = .ok c) :
    (∃ document, c.toIni = .ok document ∧ read files (.document document) = .ok c) ↔
      c.IsPlain ∧ ∀ s, c.store = some s → s.fetchSize < 10 ^ Coerce.maxIntegerDigits := by
  have lawful := isAccepted_of_check (ofSections_ok.1 accepted).2
  rw [← hasWritableNumbers_iff]
  have written : c.toIni = if c.hasWritableNumbers then Ini.ofTexts c.blocks else .error .badValue := rfl
  rw [written]
  constructor
  · rintro ⟨document, made, again⟩
    split at made
    · rename_i writable
      unfold Ini.ofTexts at made
      split at made
      · cases made
        exact ⟨lawful.isPlain again, writable⟩
      · cases made
    · cases made
  · rintro ⟨plain, writable⟩
    refine ⟨Ini.ofSections c.blocks, ?_, lawful.ofIni_blocks plain (hasWritableNumbers_iff.1 writable)⟩
    rw [if_pos writable]
    exact if_pos (List.all_eq_true.2 fun block member => List.all_eq_true.2 fun option inside =>
      Ini.isAccepted_plain (lawful.plain_blocks plain block member option inside))

/-- Sections of a configuration, with blanks around a text, a word for a truth value, and numbers. -/
def describedSections : Fields Part :=
  [("workspace", .record [("log", .text " cubes.log "), ("debug", .text "Yes")]),
    ("store", .record [("url", .text "sqlite:///data.sqlite"), ("fetch_size", .text "0500"),
      ("timeout", .float 0.1)])]

/-- The configuration that they describe. -/
def describedConfig : Config where
  workspace := { WorkspaceSettings.usual with log := some "cubes.log", debug := true }
  store := some { StoreSettings.usual "sqlite:///data.sqlite" with
    fetchSize := 500, fetchSize_pos := by decide, timeout := some 0.1 }
  model := none

theorem read_describedSections (files : Files) :
    read files (.described (.record describedSections)) = .ok describedConfig := by
  have positive : (Number.int 0).less (.float 0.1) = true := by decide +kernel
  show ofSections describedSections = .ok describedConfig
  refine ofSections_ok.2 ⟨show ["workspace", "store"] ⊆ sectionNames by decide,
    check_ok.2 ⟨?_, ?_, Or.inl ⟨rfl, rfl⟩⟩⟩
  · exact Or.inr ⟨_, rfl, checkSection_ok.2 ⟨_, rfl, WorkspaceSettings.check_ok.2
      ⟨Or.inr ⟨_, rfl, Setting.optionalText_ok_some.2
        ⟨" cubes.log ", rfl, Setting.ofText_eq_text_iff.2 ⟨by decide, by decide, by decide⟩⟩⟩,
        Or.inl ⟨rfl, rfl⟩, Or.inl ⟨rfl, rfl⟩, Or.inr ⟨_, rfl, rfl⟩,
        show ["log", "debug"] ⊆ _ by decide⟩⟩⟩
  · exact optionalSection_ok.2 ⟨_, rfl, StoreSettings.check_ok.2
      ⟨⟨_, "sqlite:///data.sqlite", rfl, rfl, Setting.ofText_eq_text_iff.2 ⟨by decide, by decide, by decide⟩⟩,
        Or.inl ⟨rfl, rfl⟩, Or.inr ⟨_, rfl, rfl⟩,
        Or.inr ⟨_, rfl, optional_ok.2 (Or.inr ⟨nofun, 0.1, Check.result_thenCheck.2
          ⟨0.1, rfl, by rw [if_pos positive]; rfl⟩, rfl⟩)⟩,
        Or.inl ⟨rfl, rfl⟩, Or.inl ⟨rfl, rfl⟩, show ["url", "fetch_size", "timeout"] ⊆ _ by decide⟩⟩

theorem isPlain_describedConfig : describedConfig.IsPlain := by
  refine forall_mem_sections.2 ⟨?_, ?_, nofun⟩
  · intro key text inside
    simp only [describedConfig, WorkspaceSettings.usual, WorkspaceSettings.toRecord, Datum.ofOption,
      Option.elim_some, Option.elim_none, List.mem_cons, Prod.mk.injEq, Datum.text.injEq, reduceCtorEq,
      and_false, List.not_mem_nil, or_false] at inside
    rw [inside.2]
    decide
  · rintro s ⟨⟩ key text inside
    simp only [StoreSettings.usual, StoreSettings.toRecord, Datum.ofOption, Datum.ofFloat?,
      Option.elim_some, Option.elim_none, List.mem_cons, Prod.mk.injEq, Datum.text.injEq, reduceCtorEq,
      and_false, List.not_mem_nil, or_false] at inside
    rw [inside.2]
    decide

/-- They are written, and read again. -/
theorem read_toIni_describedConfig :
    read [] (.described (.record describedSections)) = .ok describedConfig ∧
      ∃ document, describedConfig.toIni = .ok document ∧
        read [] (.document document) = .ok describedConfig := by
  refine ⟨read_describedSections [], (read_toIni_iff (read_describedSections [])).2
    ⟨isPlain_describedConfig, ?_⟩⟩
  rintro s ⟨⟩
  exact (show 500 < 10 ^ 3 by decide).trans_le (Nat.pow_le_pow_right (by decide) (by decide))

/-- Sections of a configuration with an address in which a character is escaped by a percent sign. -/
def escapedSections : Fields Part := [("store", .record [("url", .text "sqlite:///%2F")])]

/-- The configuration that they describe. -/
def escapedConfig : Config where
  workspace := .usual
  store := some (.usual "sqlite:///%2F")
  model := none

/-- It is accepted, and can not be written. -/
theorem toIni_escapedConfig : read [] (.described (.record escapedSections)) = .ok escapedConfig ∧
    escapedConfig.toIni = .error .badValue := by
  constructor
  · show ofSections escapedSections = .ok escapedConfig
    refine ofSections_ok.2 ⟨show ["store"] ⊆ sectionNames by decide,
      check_ok.2 ⟨Or.inl ⟨rfl, rfl⟩, ?_, Or.inl ⟨rfl, rfl⟩⟩⟩
    exact optionalSection_ok.2 ⟨_, rfl, StoreSettings.check_ok.2
      ⟨⟨_, "sqlite:///%2F", rfl, rfl, Setting.ofText_eq_text_iff.2 ⟨by decide, by decide, by decide⟩⟩,
        Or.inl ⟨rfl, rfl⟩, Or.inl ⟨rfl, rfl⟩, Or.inl ⟨rfl, rfl⟩, Or.inl ⟨rfl, rfl⟩, Or.inl ⟨rfl, rfl⟩,
        show ["url"] ⊆ _ by decide⟩⟩
  · have refused : Ini.ofTexts escapedConfig.blocks = .error .badValue := by rfl
    unfold toIni
    split
    · exact refused
    · rfl

end Config

end Olap
