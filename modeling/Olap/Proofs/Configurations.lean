/-
What comes of configurations that are no good. Whoever reads a configuration gets it, or a problem of
configuration, with one gap: what a document says is looked at before its values are asked for, and only
then it turns out whether the references in them can be replaced. If one can not, the failure of the
document comes out as it is. Records hold no references, so no record of sections falls into the gap.
-/

import Mathlib
import Olap.Config
import Olap.Proofs.Documents
import Olap.Proofs.Refusals

namespace Olap

/-! ### Checks that nothing ends -/

namespace Check

variable {β γ : Type}

theorem stopped?_thenCheck {check : Check β} {next : β → Check γ} (first : check.stopped? = none)
    (later : ∀ b, (next b).stopped? = none) : (check.thenCheck next).stopped? = none := by
  rcases check with ⟨fault | details | b⟩
  · cases first
  · rfl
  · exact later b

end Check

theorem stopped?_requireField {α β : Type} (fields : Fields α) (spellings : List String)
    (check : Datum α → Check β) :
    (requireField fields spellings check).stopped? =
      (givenIn spellings fields).bind fun d => (check d).stopped? := by
  unfold requireField givenIn
  cases usedKey? spellings fields with
  | none => rfl
  | some key =>
    rw [Option.bind_some]
    cases found : Record.get? fields key with
    | none =>
      dsimp only
      rw [found]
      rfl
    | some d =>
      dsimp only
      rw [found]
      exact Check.stopped?_under _ _

namespace Coerce

variable {α : Type}

theorem stopped?_boolOfInt (i : Int) : (boolOfInt i).stopped? = none := by
  unfold boolOfInt
  split
  · rfl
  · split <;> rfl

theorem stopped?_bool (d : Datum α) : (bool d).stopped? = none := by
  unfold bool
  split
  · rfl
  · split
    · exact stopped?_boolOfInt _
    · rfl
  · split
    · exact stopped?_boolOfInt _
    · rfl
  · split
    · rfl
    · dsimp only
      split
      · rfl
      · split <;> rfl

theorem stopped?_float (d : Datum α) : (float d).stopped? = none := by
  unfold float
  split
  · rfl
  · rfl
  · split <;> rfl
  · split
    · rfl
    · split <;> rfl

end Coerce

namespace Setting

theorem stopped?_text (d : Description) : (text d).stopped? = none := Coerce.stopped?_text _

theorem stopped?_optionalText (d : Description) : (optionalText d).stopped? = none :=
  Coerce.stopped?_optional Coerce.stopped?_text _

theorem stopped?_bool (d : Description) : (bool d).stopped? = none := Coerce.stopped?_bool _

theorem stopped?_positive (d : Description) : (positive d).stopped? = none :=
  Check.stopped?_thenCheck (Coerce.stopped?_int _) fun i => by split <;> rfl

theorem stopped?_optionalSeconds (d : Description) : (optionalSeconds d).stopped? = none :=
  Coerce.stopped?_optional
    (fun d => Check.stopped?_thenCheck (Coerce.stopped?_float d) fun x => by split <;> rfl) _

end Setting

namespace Config

/-- A field is checked without end when every value of it is. -/
theorem bind_stopped?_eq_none {β : Type} {check : Description → Check β}
    (unstopped : ∀ d, (check d).stopped? = none) (given : Option Description) :
    (given.bind fun d => (check d).stopped?) = none := by
  cases given with
  | none => rfl
  | some d => exact unstopped d

theorem stopped?_workspace (fields : Fields Part) : (WorkspaceSettings.check fields).stopped? = none := by
  unfold WorkspaceSettings.check
  simp only [Check.stopped?_seq, Check.stopped?_map, stopped?_checkField, stopped?_refuseExtra,
    bind_stopped?_eq_none Setting.stopped?_optionalText, bind_stopped?_eq_none Setting.stopped?_bool,
    Option.or_none]

theorem stopped?_store (fields : Fields Part) : (StoreSettings.check fields).stopped? = none := by
  unfold StoreSettings.check
  simp only [Check.stopped?_seq, Check.stopped?_map, stopped?_checkField, stopped?_requireField,
    stopped?_refuseExtra, bind_stopped?_eq_none Setting.stopped?_text,
    bind_stopped?_eq_none Setting.stopped?_optionalText, bind_stopped?_eq_none Setting.stopped?_bool,
    bind_stopped?_eq_none Setting.stopped?_positive,
    bind_stopped?_eq_none Setting.stopped?_optionalSeconds, Option.or_none]

theorem stopped?_model (fields : Fields Part) : (ModelSettings.check fields).stopped? = none := by
  unfold ModelSettings.check
  simp only [Check.stopped?_seq, Check.stopped?_map, stopped?_requireField, stopped?_refuseExtra,
    bind_stopped?_eq_none Setting.stopped?_text, Option.or_none]

theorem stopped?_checkSection {β : Type} {check : Fields Part → Check β}
    (unstopped : ∀ fields, (check fields).stopped? = none) (d : Description) :
    (checkSection check d).stopped? = none := by
  unfold checkSection
  split
  · exact unstopped _
  · rfl

/-- No check of sections is ended, whatever they hold. -/
theorem stopped?_check (sections : Fields Part) : (check sections).stopped? = none := by
  unfold check
  simp only [Check.stopped?_seq, Check.stopped?_map, stopped?_checkField,
    bind_stopped?_eq_none (stopped?_checkSection stopped?_workspace),
    bind_stopped?_eq_none (Coerce.stopped?_optional (stopped?_checkSection stopped?_store)),
    bind_stopped?_eq_none (Coerce.stopped?_optional (stopped?_checkSection stopped?_model)),
    Option.or_none]

/-! ### Readings that end well -/

/-- A configuration, or a problem of configuration. -/
def IsConfigured (result : Result Config) : Prop :=
  (∃ c, result = .ok c) ∨ ∃ p, result = fail p ∧ p.kind = .configuration

theorem not_isConfigured_outside (failure : Outside) : ¬IsConfigured (.error (.outside failure)) := by
  rintro (⟨c, made⟩ | ⟨p, told, -⟩)
  · cases made
  · cases told

/-- Records of sections are configurations or are told to be none. -/
theorem isConfigured_ofSections (sections : Fields Part) : IsConfigured (ofSections sections) := by
  unfold ofSections
  cases sortNames ((Record.keys sections).filter (!sectionNames.contains ·)) with
  | cons name unknown => exact Or.inr ⟨_, rfl, rfl⟩
  | nil =>
    rcases Check.result_of_stopped?_eq_none (stopped?_check sections) with ⟨c, made⟩ | ⟨details, refused⟩
    · exact Or.inl ⟨c, by rw [made]⟩
    · exact Or.inr ⟨.configInvalid details, by rw [refused], rfl⟩

end Config

/-! ### Documents whose references can be replaced -/

namespace Ini

/-- All references in the options of a document can be replaced. -/
def IsResolvable (document : Ini) : Prop :=
  ∀ block ∈ document.sections, ∀ option ∈ document.written block.2,
    Template.IsResolvable (Record.get? (document.written block.2)) Template.maxDepth option.2.toList

theorem exists_options_iff {document : Ini} {own : List (String × String)} :
    (∃ found, document.options own = .ok found) ↔ ∀ option ∈ document.written own,
      Template.IsResolvable (Record.get? (document.written own)) Template.maxDepth option.2.toList := by
  rw [options, expandAll_eq_makeAll, exists_makeAll_iff]
  refine forall₂_congr fun option _ => ?_
  rw [← Template.exists_expandTo_iff, Template.expand]
  cases Template.expandTo (Record.get? (document.written own)) Template.maxDepth option.2.toList <;>
    simp [Except.map]

theorem exists_allOptions_iff {document : Ini} {blocks : List (String × List (String × String))} :
    (∃ found, document.allOptions blocks = .ok found) ↔
      ∀ block ∈ blocks, ∀ option ∈ document.written block.2,
        Template.IsResolvable (Record.get? (document.written block.2)) Template.maxDepth
          option.2.toList := by
  rw [allOptions_eq_makeAll, exists_makeAll_iff]
  exact forall₂_congr fun block _ => exists_options_iff

theorem mem_failures_of_allOptions {document : Ini} {blocks : List (String × List (String × String))}
    {failure : Outside} (failed : document.allOptions blocks = .error failure) :
    failure ∈ Template.failures := by
  rw [allOptions_eq_makeAll] at failed
  obtain ⟨block, -, lost⟩ := exists_of_makeAll_error failed
  rw [options, expandAll_eq_makeAll] at lost
  obtain ⟨option, -, unmade⟩ := exists_of_makeAll_error lost
  unfold Template.expand at unmade
  cases expanded : Template.expandTo (Record.get? (document.written block.2)) Template.maxDepth
      option.2.toList with
  | error other =>
    rw [expanded] at unmade
    exact Except.error.inj unmade ▸ Template.mem_failures_of_expandTo expanded
  | ok text =>
    rw [expanded] at unmade
    cases unmade

end Ini

namespace Config

/-- A document is read as its sections, once the references in it are replaced. -/
theorem isConfigured_ofIni_iff {document : Ini} : IsConfigured (ofIni document) ↔ document.IsResolvable := by
  unfold ofIni Ini.IsResolvable
  rw [← Ini.exists_allOptions_iff]
  cases expanded : document.allOptions document.sections with
  | error failure => simp [not_isConfigured_outside]
  | ok sections => simpa using isConfigured_ofSections (sectionsOf sections)

theorem exists_mem_failures_of_ofIni {document : Ini} (loose : ¬IsConfigured (ofIni document)) :
    ∃ failure ∈ Template.failures, ofIni document = .error (.outside failure) := by
  unfold ofIni at loose ⊢
  cases expanded : document.allOptions document.sections with
  | error failure => exact ⟨failure, Ini.mem_failures_of_allOptions expanded, rfl⟩
  | ok sections =>
    rw [expanded] at loose
    exact absurd (isConfigured_ofSections _) loose

/-! ### Reading of anything -/

/-- A source leads to a document: it is one, or the path of a file that holds one. -/
inductive Source.Leads (files : Files) : Source → Ini → Prop
  | document (document : Ini) : Leads files (.document document) document
  | file {d : Description} {path text : String} {document : Ini} (isPath : d.text? = some path)
    (read : files.read path = .ok text) (parsed : Ini.ofText text = .ok document) :
    Leads files (.described d) document

/-- What is meant as a path can be one: it does not hold the character of code zero. -/
def Source.IsPathlike (source : Source) : Prop :=
  ∀ d path, source = .described d → d.text? = some path → '\x00' ∉ path.toList

theorem read_described {d : Description} {path : String} (isPath : d.text? = some path) (files : Files) :
    read files (.described d) = ofFile files path d.shown := by
  cases d with
  | null | record _ => cases isPath
  | _ =>
    unfold read
    simp only [isPath]

theorem Source.Leads.unique {files : Files} {source : Source} {first second : Ini}
    (one : source.Leads files first) (other : source.Leads files second) : first = second := by
  cases one with
  | document => cases other; rfl
  | file isPath read parsed =>
    cases other with
    | file isPathToo readToo parsedToo =>
      obtain rfl := Option.some.inj (isPath.symm.trans isPathToo)
      obtain rfl := Except.ok.inj (read.symm.trans readToo)
      exact Except.ok.inj (parsed.symm.trans parsedToo)

/-- How a source is read. -/
inductive ReadsAs (files : Files) (source : Source) : Prop
  /-- It is meant as a path, which it can not be. -/
  | lost (noPath : ¬source.IsPathlike) (failed : read files source = .error (.outside .badValue))
  /-- It leads to a document, which is read. -/
  | documented (document : Ini) (pathlike : source.IsPathlike) (leads : source.Leads files document)
    (same : read files source = ofIni document)
  /-- There is no document to be read, and that goes well, or is told. -/
  | settled (pathlike : source.IsPathlike) (leadsNowhere : ∀ document, ¬source.Leads files document)
    (answered : IsConfigured (read files source))

theorem readsAs_of_path (files : Files) {d : Description} {path : String} (isPath : d.text? = some path) :
    ReadsAs files (.described d) := by
  by_cases zero : '\x00' ∈ path.toList
  · refine .lost (fun pathlike => pathlike d path rfl isPath zero) ?_
    rw [read_described isPath, ofFile, Files.read, if_pos (by simpa using zero)]
  have pathlike : (Source.described d).IsPathlike := by
    rintro _ other ⟨⟩ isPathToo
    exact Option.some.inj (isPath.symm.trans isPathToo) ▸ zero
  have named : files.read path ≠ .error .badValue := by
    rw [Files.read, if_neg (by simpa using zero)]
    split <;> nofun
  have nowhere (unread : ∀ text document, files.read path = .ok text → Ini.ofText text ≠ .ok document) :
      ∀ document, ¬(Source.described d).Leads files document := by
    intro document leads
    cases leads with
    | file isPathToo found parsed =>
      obtain rfl := Option.some.inj (isPath.symm.trans isPathToo)
      exact unread _ document found parsed
  have answer := read_described isPath files
  rw [ofFile] at answer
  cases found : files.read path with
  | error failure =>
    rw [found] at answer
    refine .settled pathlike (nowhere (by simp [found])) (answer ▸ Or.inr ⟨.configMissing d.shown, ?_, rfl⟩)
    cases failure with
    | badValue => exact absurd found named
    | _ => rfl
  | ok text =>
    rw [found] at answer
    cases parsed : Ini.ofText text with
    | error failure =>
      simp only [parsed] at answer
      refine .settled pathlike (nowhere ?_) (answer ▸ Or.inr ⟨.configUnreadable d.shown failure, rfl, rfl⟩)
      rintro other document same kept
      rw [← Except.ok.inj (found.symm.trans same), parsed] at kept
      cases kept
    | ok document =>
      simp only [parsed] at answer
      exact .documented document pathlike (.file isPath found parsed) answer

theorem readsAs_of_no_path (files : Files) {d : Description} (noPath : d.text? = none) :
    ReadsAs files (.described d) := by
  refine .settled (fun _ _ same isPath => ?_) (fun document leads => ?_) ?_
  · cases same
    exact nomatch noPath.symm.trans isPath
  · cases leads with
    | file isPath => exact nomatch noPath.symm.trans isPath
  · cases d with
    | null => exact isConfigured_ofSections []
    | record sections => exact isConfigured_ofSections sections
    | _ =>
      unfold read
      simp only [noPath]
      exact Or.inr ⟨_, rfl, rfl⟩

theorem readsAs (files : Files) (source : Source) : ReadsAs files source := by
  cases source with
  | finished config =>
    exact .settled (fun _ _ same => nomatch same) (fun _ leads => nomatch leads) (Or.inl ⟨config, rfl⟩)
  | document document => exact .documented document (fun _ _ same => nomatch same) (.document document) rfl
  | described d =>
    cases isPath : d.text? with
    | none => exact readsAs_of_no_path files isPath
    | some path => exact readsAs_of_path files isPath

/-- Reading ends well exactly when what is meant as a path can be one, and the references in the document that
it leads to, if it leads to any, can be replaced. All else that comes out is the failure of a path or of a
reference. -/
theorem isConfigured_read_iff (files : Files) (source : Source) :
    (IsConfigured (read files source) ↔
        source.IsPathlike ∧ ∀ document, source.Leads files document → document.IsResolvable) ∧
      (¬IsConfigured (read files source) →
        ∃ failure ∈ Outside.badValue :: Template.failures, read files source = .error (.outside failure)) := by
  cases readsAs files source with
  | lost noPath failed =>
    rw [failed]
    exact ⟨iff_of_false (not_isConfigured_outside _) fun both => noPath both.1,
      fun _ => ⟨.badValue, List.mem_cons_self, rfl⟩⟩
  | documented document pathlike leads same =>
    rw [same, isConfigured_ofIni_iff]
    refine ⟨⟨fun resolvable => ⟨pathlike, fun other leadsToo => leads.unique leadsToo ▸ resolvable⟩,
      fun both => both.2 document leads⟩, fun loose => ?_⟩
    obtain ⟨failure, known, failed⟩ :=
      exists_mem_failures_of_ofIni fun answered => loose (isConfigured_ofIni_iff.1 answered)
    exact ⟨failure, List.mem_cons_of_mem _ known, failed⟩
  | settled pathlike leadsNowhere answered =>
    exact ⟨iff_of_true answered ⟨pathlike, fun document leads => absurd leads (leadsNowhere document)⟩,
      fun loose => absurd answered loose⟩

/-- A document of one option, in whose value a percent sign strays. -/
def strayDocument : Ini := ⟨[], [("model", [("path", "50%")])]⟩

def strayText : String := "[model]\npath = 50%\n"

theorem ofText_strayText : Ini.ofText strayText = .ok strayDocument := by decide +kernel

theorem not_isConfigured_strayDocument : ¬IsConfigured (ofIni strayDocument) := by
  rw [isConfigured_ofIni_iff]
  intro resolvable
  have lasting := resolvable ("model", [("path", "50%")]) List.mem_cons_self ("path", "50%") (by decide)
  exact lasting.1 (by decide)

/-- A percent sign that strays in a text is told by nobody, whether the text has been read already or is the
one in a file. -/
theorem exists_not_isConfigured :
    (∃ document, Ini.ofText strayText = .ok document ∧ ¬IsConfigured (read [] (.document document))) ∧
      ¬IsConfigured (read [("c.ini", .text strayText)] (.described (.text "c.ini"))) := by
  refine ⟨⟨strayDocument, ofText_strayText, not_isConfigured_strayDocument⟩, ?_⟩
  have kept : String.ofList (Files.unifyLineEnds strayText.toList) = strayText := by decide +kernel
  have found : Files.read [("c.ini", .text strayText)] "c.ini" = .ok strayText := by
    simp [Files.read, Files.entry?, kept]
  rw [read_described rfl, ofFile, found]
  simp only [ofText_strayText]
  exact not_isConfigured_strayDocument

end Config

end Olap
