/-
Dimensions from descriptions. A name alone describes an attribute or level of that name; a record
describes all parts. Fields are checked first, each on its own. Only when all are valid the object
is completed: a level without attributes gets one of its own name, its key is the first attribute
and its label the second if there is one. A dimension gives its name to all its levels, and its
hierarchies then hold the dimension's own levels, whatever they were described with themselves.
-/

import Olap.Part

namespace Olap

/-- The fields that every description may have. -/
def headerKeys : List (List String) := [["name"], ["label"], ["description"], ["info"]]

/-- A name is not blank. -/
def checkName (d : Description) : Check (Option String) :=
  (Coerce.optional Coerce.text d).thenCheck fun name =>
    match name with
    | some text => if (Text.strip text).isEmpty then .flaw .valueError else .accept name
    | none => .accept none

/-- Free-form data is a record; nothing stands for an empty one. -/
def checkInfo : Description → Check Row
  | .null => .accept []
  | .record fields => .accept (Description.fieldsToData fields)
  | _ => .flaw .valueError

def checkNameField (fields : Fields Part) : Check (Option String) :=
  checkField fields ["name"] none checkName

/-- The header; what no field of the object uses is kept as it is. -/
def checkHeader (known : List (List String)) (fields : Fields Part) : Check Header :=
  (fun label description info =>
    ⟨label, description, info, Description.fieldsToData (leftOver (headerKeys ++ known) fields)⟩) <$>
    checkField fields ["label"] none (Coerce.optional Coerce.text) <*>
    checkField fields ["description"] none (Coerce.optional Coerce.text) <*>
    checkField fields ["info"] [] checkInfo

/-- The record that a name stands for. -/
def nameOnly (name : String) : Fields Part := [("name", .text name)]

/-- The parts of a description with one field replaced or added, field by field. -/
def override (fields extra : Fields Part) : Fields Part := Record.update fields extra

/-- Making an object of the named kind from a description: a name, or a record. Whatever is wrong
with a record is reported as a failure to create the object; a bad name is reported as such. A name
given twice is no description at all. -/
def createFrom {β : Type} (what : String) (make : Fields Part → Result β)
    (description : Description) (extra : Fields Part) : Result β :=
  match description with
  | .record fields =>
    match make (override fields extra) with
    | .ok b => .ok b
    | .error (.problem p) => .error (.problem p)
    | .error (.invalid details) => fail (.notCreated what (.invalid details))
    | .error (.outside failure) => fail (.notCreated what (.outside failure))
  | d =>
    match d.text? with
    | some name =>
      if Record.contains extra "name" then .error (.outside .wrongType)
      else make (nameOnly name ++ extra)
    | none => fail (.metadataType d.typeText)

/-- A collection of descriptions: a list, or a record that names them in order. Whatever counts as
false is an empty collection. -/
def namedEntries (kind : String) : Fields Part → Result (List Description)
  | [] => .ok []
  | (name, entry) :: rest =>
    let first : Result Description :=
      match entry with
      | .null => .ok (.record (nameOnly name))
      | .record fields => .ok (.record (override (nameOnly name) fields))
      | _ => fail (.entryNotRecord kind name entry.shortTypeName)
    match first with
    | .error fault => .error fault
    | .ok first => (namedEntries kind rest).map (first :: ·)

def namedObjects (kind : String) (d : Description) : Result (List Description) :=
  if !d.isTruthy then .ok []
  else
    match d with
    | .record fields => namedEntries kind fields
    | .list items => .ok items
    | _ => fail (.notCollection kind d.typeText)

/-- All items, or the failure of the first that fails. -/
def allOf {α β : Type} (f : α → Result β) : List α → Result (List β)
  | [] => .ok []
  | item :: rest =>
    match f item with
    | .error fault => .error fault
    | .ok b => (allOf f rest).map (b :: ·)

/-- All items are found when the first one is and all others are. -/
theorem allOf_cons_ok {α β : Type} {f : α → Result β} {item : α} {rest : List α}
    {found : List β} :
    allOf f (item :: rest) = .ok found ↔
      ∃ b others, f item = .ok b ∧ allOf f rest = .ok others ∧ found = b :: others := by
  rw [allOf]
  cases f item with
  | error fault => simp
  | ok b => cases allOf f rest <;> simp [Except.map, eq_comm]

/-- Whether a name occurs twice. -/
def hasRepeats (names : List (Option String)) : Bool :=
  match names with
  | [] => false
  | name :: rest => rest.contains name || hasRepeats rest

namespace Attribute

def ofFields (kind : AttributeKind) (fields : Fields Part) : Result Attribute :=
  ((fun name header => ⟨kind, name, header, none⟩) <$> checkNameField fields <*>
    checkHeader [] fields : Check Attribute).result

def ofDescription (kind : AttributeKind) (d : Description) (extra : Fields Part) :
    Result Attribute :=
  createFrom kind.title (ofFields kind) d extra

/-- One entry of a list of attributes: a name, a record, or a finished measure among measures. -/
def ofEntry (kind : AttributeKind) (entry : Item Part) : Result Attribute :=
  match entry with
  | .pair .. => fail (.attributeEntry kind.title entry.typeText)
  | .datum d =>
    match kind, Description.measure? d with
    | .measure, some a => .ok a
    | _, _ =>
      match d.text?, d with
      | some name, _ => ofFields kind (nameOnly name)
      | none, .record fields => ofFields kind fields
      | none, _ => fail (.attributeEntry kind.title d.typeText)

/-- A list of attributes; whatever counts as false is an empty one. -/
def listOf (kind : AttributeKind) (d : Description) : Result (List Attribute) :=
  if !d.isTruthy then .ok []
  else
    match d.items with
    | .error fault => .error fault
    | .ok items => allOf (ofEntry kind) items

end Attribute

namespace Level

def knownKeys : List (List String) :=
  [["attributes"], ["key"], ["label_attribute"], ["order_attribute"]]

/-- A level before its defaults are filled in. -/
structure Draft where
  name : Option String
  header : Header
  attributes : List Attribute
  key : Option String
  labelAttribute : Option String
  orderAttribute : Option String

/-- The attributes of a level. Without any it has one of its own name, if that is valid. -/
def checkAttributes (name : Option String) (d : Description) : Check (List Attribute) :=
  if !d.isTruthy then
    match name with
    | some name => .accept [Attribute.ofName .attribute (some name)]
    | none => .flaw .tooShort
  else
    match Attribute.listOf .attribute d with
    | .error (.problem (.attributeEntry ..)) => .flaw .valueError
    | found => .ofResult found

def checkDraft (fields : Fields Part) : Check Draft :=
  let name := (checkNameField fields).result.toOption.join
  Draft.mk <$> checkNameField fields <*> checkHeader knownKeys fields <*>
    checkField fields ["attributes"] [] (checkAttributes name) <*>
    checkField fields ["key"] none (Coerce.optional Coerce.text) <*>
    checkField fields ["label_attribute"] none (Coerce.optional Coerce.text) <*>
    checkField fields ["order_attribute"] none (Coerce.optional Coerce.text)

/-- A choice that is set, or else the name of the attribute it defaults to. When that attribute
has no name the choice stays open, and looking for a default would go on for ever. -/
def settle (choice default : Option String) : Result String :=
  match choice with
  | some name =>
    if name.isEmpty then default.elim (.error (.outside .endless)) .ok else .ok name
  | none => default.elim (.error (.outside .endless)) .ok

/-- A choice names an attribute of the level. -/
def requireAttribute (role : String) (names : List (Option String)) (level : Option String)
    (choice : Option String) : Result Unit :=
  match choice with
  | none => .ok ()
  | some name =>
    if name.isEmpty || names.contains (some name) then .ok ()
    else fail (.levelAttributeMissing role name level)

/-- Completes a level: attributes, then key, then label, and last the choices are checked. -/
def ofDraft (draft : Draft) : Result Level := do
  let attributes ←
    if !draft.attributes.isEmpty then pure draft.attributes
    else match draft.name with
      | some name => pure [Attribute.ofName .attribute (some name)]
      | none => fail .levelNeedsAttribute
  let names := attributes.map (·.name)
  let key ← settle draft.key names.head?.join
  let labelAttribute ←
    settle draft.labelAttribute (if 1 < names.length then names[1]?.join else some key)
  if hasRepeats names then fail (.repeatedAttribute draft.name)
  requireAttribute "Key" names draft.name (some key)
  requireAttribute "Label" names draft.name (some labelAttribute)
  requireAttribute "Order" names draft.name draft.orderAttribute
  return { name := draft.name, header := draft.header, attributes, key, labelAttribute
           orderAttribute := draft.orderAttribute, dimension := none }

def ofFields (fields : Fields Part) : Result Level :=
  match (checkDraft fields).result with
  | .error fault => .error fault
  | .ok draft => ofDraft draft

def ofDescription (d : Description) (extra : Fields Part) : Result Level :=
  createFrom "Level" ofFields d extra

/-- One entry of a list of levels: a name, a record, or a finished level. -/
def ofEntry (entry : Item Part) : Result Level :=
  match entry with
  | .pair .. => fail (.levelEntry entry.typeText)
  | .datum d =>
    match Description.level? d, d.text?, d with
    | some level, _, _ => .ok level
    | none, some name, _ => ofFields (nameOnly name)
    | none, none, .record fields => ofFields fields
    | none, none, _ => fail (.levelEntry d.typeText)

end Level

namespace Hierarchy

def knownKeys : List (List String) := [["levels"]]

def checkLevels (d : Description) : Check (List Level) :=
  if !d.isTruthy then .accept []
  else
    match d.items with
    | .error fault => .abort fault
    | .ok items => .ofResult (allOf Level.ofEntry items)

/-- A hierarchy has at least one level, and no level twice. -/
def validate (h : Hierarchy) : Result Hierarchy :=
  if h.levels.isEmpty then fail (.hierarchyNeedsLevel h.name)
  else if hasRepeats h.levelNames then fail (.repeatedLevelInHierarchy h.name)
  else .ok h

def ofFields (fields : Fields Part) : Result Hierarchy :=
  match ((fun name header levels => ⟨name, header, levels, none⟩) <$> checkNameField fields <*>
      checkHeader knownKeys fields <*> checkField fields ["levels"] [] checkLevels :
      Check Hierarchy).result with
  | .error fault => .error fault
  | .ok h => validate h

def ofDescription (d : Description) (extra : Fields Part) : Result Hierarchy :=
  createFrom "Hierarchy" ofFields d extra

/-- One entry of a list of hierarchies: a record or a finished hierarchy. -/
def ofEntry (d : Description) : Result Hierarchy :=
  match Description.hierarchy? d, d with
  | some h, _ => .ok h
  | none, .record fields => ofFields fields
  | none, _ => fail (.hierarchyEntry d.typeText)

/-- The levels of a hierarchy as those of a dimension with the same names. -/
def resolve (dimension : String) (own : List Level) (h : Hierarchy) : List Level →
    Result (List Level)
  | [] => .ok []
  | level :: rest =>
    match own.find? (·.name == level.name) with
    | none => fail (.undefinedLevel h.name level.name dimension)
    | some found => (resolve dimension own h rest).map (found :: ·)

/-- Gives a hierarchy to a dimension: its levels become the dimension's own. -/
def attach (dimension : String) (own : List Level) (h : Hierarchy) : Result Hierarchy :=
  (resolve dimension own h h.levels).map fun levels =>
    { h with levels, dimension := some dimension }

end Hierarchy

namespace Dimension

def knownKeys : List (List String) :=
  [["levels"], ["hierarchies"], ["default_hierarchy_name", "default_hierarchy"], ["key_field"]]

def checkLevels (d : Description) : Check (List Level) :=
  .ofResult (match namedObjects "level" d with
    | .error fault => .error fault
    | .ok entries => allOf (fun entry => Level.ofEntry (.datum entry)) entries)

def checkHierarchies (d : Description) : Check (List Hierarchy) :=
  .ofResult (match namedObjects "hierarchy" d with
    | .error fault => .error fault
    | .ok entries => allOf Hierarchy.ofEntry entries)

/-- A dimension before its parts belong to it. -/
structure Draft where
  name : Option String
  header : Header
  levels : List Level
  hierarchies : List Hierarchy
  defaultHierarchyName : Option String
  keyField : Option String

def checkDraft (fields : Fields Part) : Check Draft :=
  Draft.mk <$> checkNameField fields <*> checkHeader knownKeys fields <*>
    checkField fields ["levels"] [] checkLevels <*>
    checkField fields ["hierarchies"] [] checkHierarchies <*>
    checkField fields ["default_hierarchy_name", "default_hierarchy"] none
      (Coerce.optional Coerce.text) <*>
    checkField fields ["key_field"] none (Coerce.optional Coerce.text)

/-- Completes a dimension: names are there and not repeated, and all parts belong to it. -/
def ofDraft (draft : Draft) : Result Dimension := do
  let some name := draft.name | fail .dimensionNeedsName
  if hasRepeats (draft.levels.map (·.name)) then fail (.repeatedLevel name)
  if hasRepeats (draft.hierarchies.map (·.name)) then fail (.repeatedHierarchy name)
  let levels := draft.levels.map (·.attach name)
  let hierarchies ← allOf (Hierarchy.attach name levels) draft.hierarchies
  return { name, header := draft.header, levels, hierarchies
           defaultHierarchyName := draft.defaultHierarchyName, keyField := draft.keyField }

def ofFields (fields : Fields Part) : Result Dimension :=
  match (checkDraft fields).result with
  | .error fault => .error fault
  | .ok draft => ofDraft draft

def ofDescription (d : Description) (extra : Fields Part) : Result Dimension :=
  createFrom "Dimension" ofFields d extra

end Dimension

end Olap
