/-
What comes of descriptions that are no good. Whoever has an object made from a description gets the object
or a problem of the library: what is wrong with a record is told as a failure to create the object, whatever
it is and however deep inside the record, and what is neither a record nor a name is refused. A name alone
goes another way. It is made into an object without anybody looking after what goes wrong, and one thing
can: the name may be blank. Then the bare faults of its fields come out.
-/

import Mathlib
import Olap.Proofs.Changes

namespace Olap

/-- A result, or a problem of the library. -/
def IsAnswered {β : Type} (result : Result β) : Prop := (∃ b, result = .ok b) ∨ ∃ p, result = fail p

theorem not_isAnswered_invalid {β : Type} (details : List Detail) :
    ¬IsAnswered (.error (.invalid details) : Result β) := by
  rintro (⟨b, made⟩ | ⟨p, told⟩)
  · cases made
  · cases told

/-- A text of blanks, if of anything. -/
def Description.IsBlank (d : Description) : Prop := ∃ s, d.text? = some s ∧ (Text.strip s).isEmpty = true

/-- The faults of an object that is described by a blank name. -/
def blankName : Fault := .invalid [⟨[.field "name"], .valueError⟩]

theorem checkNameField_of_filled {name : String} (filled : (Text.strip name).isEmpty = false) :
    checkNameField (nameOnly name) = .accept (some name) := by
  have checked : checkName (.text name) = .accept (some name) := by
    show (if (Text.strip name).isEmpty then _ else _) = _
    rw [filled]
    rfl
  show (checkName (.text name)).under _ = _
  rw [checked]
  rfl

theorem checkNameField_of_blank {name : String} (blank : (Text.strip name).isEmpty = true) :
    checkNameField (nameOnly name) = .refuse [⟨[.field "name"], .valueError⟩] := by
  have checked : checkName (.text name) = .flaw .valueError := by
    show (if (Text.strip name).isEmpty then _ else _) = _
    rw [blank]
    rfl
  show (checkName (.text name)).under _ = _
  rw [checked]
  rfl

/-! ### Objects of all kinds -/

/-- The kinds of objects that are made from descriptions. -/
inductive ObjectKind
  /-- An attribute or a measure. -/
  | column (kind : AttributeKind)
  | level
  | hierarchy
  | dimension
  | cube
  | model
deriving DecidableEq, Repr

namespace ObjectKind

/-- The objects of a kind. -/
def Object : ObjectKind → Type
  | column _ => Attribute
  | level => Level
  | hierarchy => Hierarchy
  | dimension => Dimension
  | cube => Cube
  | model => Model

/-- Makes an object of a kind from its fields. -/
def ofFields : (kind : ObjectKind) → Fields Part → Result kind.Object
  | column kind => Attribute.ofFields kind
  | level => Level.ofFields
  | hierarchy => Hierarchy.ofFields
  | dimension => Dimension.ofFields
  | cube => Cube.ofFields
  | model => Model.ofFields

/-- Makes an object of a kind from its description. -/
def ofDescription : (kind : ObjectKind) → Description → Result kind.Object
  | column kind, d => Attribute.ofDescription kind d []
  | level, d => Level.ofDescription d []
  | hierarchy, d => Hierarchy.ofDescription d []
  | dimension, d => Dimension.ofDescription d []
  | cube, d => Cube.ofDescription d []
  | model, d => Model.ofDescription d []

/-- What a kind is called. -/
def title : ObjectKind → String
  | column kind => kind.title
  | level => "Level"
  | hierarchy => "Hierarchy"
  | dimension => "Dimension"
  | cube => "Cube"
  | model => "Model"

/-- Objects of all kinds are made in one way. -/
theorem ofDescription_eq (kind : ObjectKind) (d : Description) :
    kind.ofDescription d = createFrom kind.title kind.ofFields d [] := by
  cases kind <;> rfl

/-- What is told about an object that has a name and no other description. -/
def bareHeader : Header := ⟨none, none, [], []⟩

/-- What a name alone is made into. A hierarchy of a name alone has no levels, and is refused. -/
def ofName : (kind : ObjectKind) → String → Result kind.Object
  | column kind, name => .ok (Attribute.ofName kind (some name))
  | level, name =>
    .ok (⟨some name, bareHeader, [Attribute.ofName .attribute (some name)], name, name, none, none⟩ :
      Level)
  | hierarchy, name => fail (.hierarchyNeedsLevel (some name))
  | dimension, name => .ok (⟨name, bareHeader, [], [], none, none⟩ : Dimension)
  | cube, name => .ok (⟨name, bareHeader, [], [], [], none, none, "id", [], .standalone⟩ : Cube)
  | model, name => .ok (⟨some name, bareHeader, [], []⟩ : Model)

theorem isAnswered_ofName (kind : ObjectKind) (name : String) : IsAnswered (kind.ofName name) := by
  cases kind with
  | hierarchy => exact Or.inr ⟨_, rfl⟩
  | _ => exact Or.inl ⟨_, rfl⟩

/-- A level of a name alone has the name for its only attribute, its key and its label. -/
theorem level_ofFields_of_filled {name : String} (filled : (Text.strip name).isEmpty = false) :
    Level.ofFields (nameOnly name) = level.ofName name := by
  have drafted : (Level.checkDraft (nameOnly name)).result =
      .ok ⟨some name, bareHeader, [], none, none, none⟩ := by
    unfold Level.checkDraft
    rw [checkNameField_of_filled filled]
    rfl
  refine Level.ofFields_ok.2 ⟨_, drafted, Level.ofDraft_ok.2
    ⟨rfl, rfl, rfl, rfl, rfl, rfl, rfl, rfl, ?_, ?_, rfl⟩⟩
  all_goals simp [Level.requireAttribute, Level.attributeNames, Attribute.ofName]

theorem ofFields_of_filled (kind : ObjectKind) {name : String}
    (filled : (Text.strip name).isEmpty = false) :
    kind.ofFields (nameOnly name) = kind.ofName name := by
  cases kind with
  | level => exact level_ofFields_of_filled filled
  | _ =>
    dsimp only [ofFields, Attribute.ofFields, Hierarchy.ofFields, Dimension.ofFields,
      Dimension.checkDraft, Cube.ofFields, Cube.checkDraft, Model.ofFields, Model.checkDraft]
    rw [checkNameField_of_filled filled]
    rfl

theorem ofFields_of_blank (kind : ObjectKind) {name : String}
    (blank : (Text.strip name).isEmpty = true) :
    kind.ofFields (nameOnly name) = .error blankName := by
  cases kind
  all_goals
    dsimp only [ofFields, Attribute.ofFields, Level.ofFields, Level.checkDraft, Hierarchy.ofFields,
      Dimension.ofFields, Dimension.checkDraft, Cube.ofFields, Cube.checkDraft, Model.ofFields,
      Model.checkDraft]
    rw [checkNameField_of_blank blank]
    rfl

/-! ### Descriptions -/

theorem ofDescription_of_blank (kind : ObjectKind) {d : Description} (blank : d.IsBlank) :
    kind.ofDescription d = .error blankName := by
  obtain ⟨name, given, blank⟩ := blank
  rw [ofDescription_eq, createFrom_of_text given, ofFields_of_blank kind blank]

/-- Whatever is wrong with a record, it is told as a problem. -/
theorem isAnswered_createFrom_record {β : Type} (what : String) (make : Fields Part → Result β)
    (fields : Fields Part) : IsAnswered (createFrom what make (.record fields) []) := by
  unfold createFrom
  dsimp only
  cases make (override fields []) with
  | ok b => exact Or.inl ⟨b, rfl⟩
  | error fault => cases fault <;> exact Or.inr ⟨_, rfl⟩

theorem isAnswered_ofDescription (kind : ObjectKind) {d : Description} (filled : ¬d.IsBlank) :
    IsAnswered (kind.ofDescription d) := by
  rw [ofDescription_eq]
  cases given : d.text? with
  | some name =>
    have written : (Text.strip name).isEmpty = false :=
      Bool.eq_false_iff.mpr fun blank => filled ⟨name, given, blank⟩
    rw [createFrom_of_text given, ofFields_of_filled kind written]
    exact isAnswered_ofName kind name
  | none =>
    cases d with
    | record fields => exact isAnswered_createFrom_record _ _ fields
    | text | direction => cases given
    | _ => exact Or.inr ⟨_, rfl⟩

theorem isAnswered_ofDescription_iff (kind : ObjectKind) (d : Description) :
    IsAnswered (kind.ofDescription d) ↔ ¬d.IsBlank := by
  refine ⟨fun answered blank => ?_, kind.isAnswered_ofDescription⟩
  rw [kind.ofDescription_of_blank blank] at answered
  exact not_isAnswered_invalid _ answered

end ObjectKind

/-! ### Dimensions that are registered -/

namespace Model

open Edit

variable {m : Model}

theorem isAnswered_dimensionToAdd_iff (d : Description) :
    IsAnswered (dimensionToAdd d) ↔ ¬d.IsBlank := by
  have made := ObjectKind.isAnswered_ofDescription_iff .dimension d
  cases d with
  | text | direction | record => exact made
  | object part =>
    refine iff_of_true ?_ (fun ⟨_, given, _⟩ => by cases given)
    cases part with
    | dimension d => exact Or.inl ⟨d, rfl⟩
    | _ => exact Or.inr ⟨_, rfl⟩
  | _ => exact iff_of_true (Or.inr ⟨_, rfl⟩) fun ⟨_, given, _⟩ => by cases given

/-- A dimension is registered, or a problem is told and the model stays as it is. -/
def RegistersOrReports (m : Model) (d : Description) : Prop :=
  (∃ dimension, perform (addDimension d) m =
    (.ok dimension, { m with dimensions := m.dimensions ++ [dimension] })) ∨
  ∃ p, perform (addDimension d) m = (.error (.problem p), m)

theorem perform_addDimension_of_error {d : Description} {fault : Fault}
    (unmade : dimensionToAdd d = .error fault) (m : Model) :
    perform (addDimension d) m = (.error fault, m) := by
  unfold addDimension
  rw [perform_bind, perform_require, unmade]

/-- What can be made is registered, unless its name is taken. -/
theorem registersOrReports_of_made {d : Description} {dimension : Dimension}
    (made : dimensionToAdd d = .ok dimension) (m : Model) : RegistersOrReports m d := by
  cases known : m.hasDimension dimension.name with
  | false => exact Or.inl ⟨dimension, addDimension_ok.2 ⟨made, known, rfl⟩⟩
  | true =>
    refine Or.inr ⟨.dimensionExists dimension.name m.name, ?_⟩
    unfold addDimension
    rw [perform_bind, perform_require, made]
    show perform (do
      if m.hasDimension dimension.name then
        throw (.problem (.dimensionExists dimension.name m.name))
      set { m with dimensions := m.dimensions ++ [dimension] }
      return dimension) m = _
    rw [if_pos known]
    rfl

theorem registersOrReports_iff (m : Model) (d : Description) :
    RegistersOrReports m d ↔ ¬d.IsBlank := by
  rw [← isAnswered_dimensionToAdd_iff]
  cases made : dimensionToAdd d with
  | ok dimension => exact iff_of_true (registersOrReports_of_made made m) (Or.inl ⟨dimension, rfl⟩)
  | error fault =>
    have failed := perform_addDimension_of_error made m
    constructor
    · rintro (⟨dimension, done⟩ | ⟨p, told⟩)
      · cases failed.symm.trans done
      · cases failed.symm.trans told
        exact Or.inr ⟨p, rfl⟩
    · rintro (⟨dimension, ⟨⟩⟩ | ⟨p, told⟩)
      cases told
      exact Or.inr ⟨p, failed⟩

end Model

/-! ### All descriptions -/

/-- A description is made into an object of any kind, or a problem tells why not, unless it is a blank
text; and so it is for the dimensions that a model is asked to register. A blank text comes out as the
bare faults of a name, whatever it was to be made into. -/
theorem isAnswered_iff_not_isBlank (d : Description) :
    (∀ kind : ObjectKind, IsAnswered (kind.ofDescription d) ↔ ¬d.IsBlank) ∧
    (∀ m : Model, Model.RegistersOrReports m d ↔ ¬d.IsBlank) ∧
    (d.IsBlank → ∀ kind : ObjectKind, kind.ofDescription d = .error blankName) :=
  ⟨fun kind => kind.isAnswered_ofDescription_iff d, fun m => m.registersOrReports_iff d,
    fun blank kind => kind.ofDescription_of_blank blank⟩

/-- The name of no letters is refused by the faults of its fields, and not by a problem. -/
theorem exists_not_isAnswered : ∃ d : Description, d = .text "" ∧
    (∀ kind : ObjectKind, ¬IsAnswered (kind.ofDescription d)) ∧
    ∀ m : Model, ¬Model.RegistersOrReports m d := by
  have blank : Description.IsBlank (.text "") := ⟨"", rfl, by decide⟩
  refine ⟨.text "", rfl, fun kind answered => ?_, fun m done => ?_⟩
  · exact (kind.isAnswered_ofDescription_iff _).1 answered blank
  · exact (m.registersOrReports_iff _).1 done blank

end Olap
