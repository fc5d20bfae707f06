/-
Cubes from descriptions, the dimensions they hold, and looking up their parts. A cube of a model
holds the very dimensions that are registered in the model, each under its own name; a cube of its
own takes finished dimensions only, as there is nothing that names could be looked up in.
-/

import Olap.Metadata.Navigate
import Olap.Text.Similar

namespace Olap

/-- A change of something that has a state. Whether it fails or not, there is a state afterwards. -/
abbrev Edit (σ β : Type) := ExceptT Fault (StateM σ) β

/-- What a change makes of something that is not in use yet, and is given up when the change fails. -/
def Edit.made {σ β : Type} (edit : Edit σ β) (start : σ) : Result σ :=
  match edit.run.run start with
  | (.ok _, after) => .ok after
  | (.error fault, _) => .error fault

/-- A change of a cube. -/
abbrev CubeAction (β : Type) := Edit Cube β

/-- A dimension as it is asked for: by name, or as a finished object. -/
inductive DimensionLink
  | named (name : String)
  | finished (d : Dimension)

/-- A dimension of a registry is looked up by its name. -/
def findDimension? (name : String) (registry : List Dimension) : Option Dimension :=
  registry.find? (·.name == name)

namespace DimensionLink

def name : DimensionLink → String
  | named name => name
  | finished d => d.name

def ofDescription (d : Description) : Result DimensionLink :=
  match d.dimension?, d.text? with
  | some dimension, _ => .ok (.finished dimension)
  | none, some name => .ok (.named name)
  | none, none => fail (.dimensionType d.typeText)

def ofEntry (entry : Item Part) : Result DimensionLink :=
  match entry with
  | .datum d => ofDescription d
  | .pair .. => fail (.dimensionType entry.typeText)

/-- Where the faults of a link are found that is neither a name nor a description. -/
def textBranch : Step := .field "str"

def dimensionBranch : Step := .field "function-after[validate_dimension(), Dimension]"

def refused (details : List Detail) : Check DimensionLink :=
  .refuse (⟨[textBranch], .stringType⟩ :: details.map (Detail.under dimensionBranch))

/-- A link in a description of a cube: a name, a finished dimension, or the description of one. -/
def check : Item Part → Check DimensionLink
  | .pair .. => refused [⟨[], .modelType⟩]
  | .datum d =>
    match Description.dimension? d, d.text?, d with
    | some dimension, _, _ => .accept (.finished dimension)
    | none, some name, _ => .accept (.named name)
    | none, none, .record fields =>
      match Dimension.ofFields fields with
      | .ok dimension => .accept (.finished dimension)
      | .error (.invalid details) => refused details
      | .error fault => .abort fault
    | none, none, _ => refused [⟨[], .modelType⟩]

end DimensionLink

namespace Cube

def knownKeys : List (List String) :=
  [["measures"], ["details", "attributes"], ["mappings"], ["fact_table", "fact"], ["joins"],
    ["key_field", "key"], ["dimensions", "dimension_links"]]

/-- A list of attributes of a cube. Faults of its fields are a problem of the cube. -/
def checkAttributes (kind : AttributeKind) (d : Description) : Check (List Attribute) :=
  match Attribute.listOf kind d with
  | .ok found => .accept found
  | .error (.invalid details) => .abort (.problem (.attributesInvalid details))
  | .error fault => .abort fault

def checkMappings : Description → Check (List (String × String))
  | .null => .accept []
  | .record fields => Check.eachField Coerce.text fields
  | d => .abort (.problem (.mappingsType d.typeText))

def checkJoins : Description → Check (List Row) :=
  Coerce.list (Coerce.item .dictType fun d => Description.fieldsToData <$> Coerce.record d)

/-- A cube before it is linked to its dimensions. -/
structure Draft where
  name : Option String
  header : Header
  measures : List Attribute
  details : List Attribute
  mappings : List (String × String)
  factTable : Option String
  joins : Option (List Row)
  keyField : String
  links : List DimensionLink

def checkDraft (fields : Fields Part) : Check Draft :=
  Draft.mk <$> checkNameField fields <*> checkHeader knownKeys fields <*>
    checkField fields ["measures"] [] (checkAttributes .measure) <*>
    checkField fields ["details", "attributes"] [] (checkAttributes .attribute) <*>
    checkField fields ["mappings"] [] checkMappings <*>
    checkField fields ["fact_table", "fact"] none (Coerce.optional Coerce.text) <*>
    checkField fields ["joins"] none (Coerce.optional checkJoins) <*>
    checkField fields ["key_field", "key"] "id" Coerce.text <*>
    checkField fields ["dimensions", "dimension_links"] [] (Coerce.list DimensionLink.check)

/-- Names in the order of the alphabet; an absent name can not be compared with others. -/
def sortedNames (names : List (Option String)) : Result (List (Option String)) :=
  if 1 < names.length && names.contains none then .error (.outside .wrongType)
  else .ok (names.mergeSort fun a b => (a.getD "") ≤ (b.getD ""))

/-- Measures and details are told apart by name. -/
def checkNames (name : String) (measures details : List Attribute) : Result Unit := do
  let measureNames := measures.map (·.name)
  if hasRepeats measureNames then fail (.repeatedMeasure name)
  let conflicts := (details.map (·.name)).eraseDups.filter measureNames.contains
  if !conflicts.isEmpty then
    let names ← sortedNames conflicts
    fail (.detailsConflict names name)

/-- The dimension that a link of a cube means: within a model the one registered under the name,
which a finished dimension has to be itself; without a model only a finished dimension will do. A
finished dimension is never one that is registered already, as those are linked by name. -/
def resolveLink (c : Cube) (registry : List Dimension) (link : DimensionLink) :
    Result Dimension :=
  match c.owner, link with
  | .ofModel model, link =>
    match findDimension? link.name registry, link with
    | none, _ => fail (.dimensionUnregistered (some link.name) c.name model)
    | some _, .finished d => fail (.dimensionNotOwn d.name model)
    | some registered, .named _ => .ok registered
  | .standalone, .named name => fail (.cubeUnattached name c.name)
  | .standalone, .finished d => .ok d

/-- Holds one more dimension. -/
def hold (d : Dimension) : CubeAction Dimension := do
  let c ← get
  if (findDimension? d.name c.dimensions).isSome then
    throw (.problem (.dimensionRepeated d.name c.name))
  set { c with dimensions := c.dimensions ++ [d] }
  return d

def addDimension (registry : List Dimension) (link : DimensionLink) : CubeAction Dimension := do
  let c ← get
  let d ← c.resolveLink registry link
  hold d

/-- Adds dimensions one after the other. -/
def addAll (registry : List Dimension) : List DimensionLink → CubeAction Unit
  | [] => pure ()
  | link :: rest => do
    let _ ← addDimension registry link
    addAll registry rest

/-- Completes a cube; it belongs to no model yet. -/
def ofDraft (draft : Draft) : Result Cube := do
  let some name := draft.name | fail .cubeNeedsName
  checkNames name draft.measures draft.details
  let cube : Cube :=
    { name, header := draft.header, measures := draft.measures, details := draft.details
      mappings := draft.mappings, factTable := draft.factTable, joins := draft.joins
      keyField := draft.keyField, dimensions := [], owner := .standalone }
  (addAll [] draft.links).made cube

def ofFields (fields : Fields Part) : Result Cube :=
  match (checkDraft fields).result with
  | .error fault => .error fault
  | .ok draft => ofDraft draft

def ofDescription (d : Description) (extra : Fields Part) : Result Cube :=
  createFrom "Cube" ofFields d extra

/-! ### Dimensions of a cube -/

def hasDimension (c : Cube) (name : String) : Bool := c.dimensions.any (·.name == name)

def holdsNamed (c : Cube) (name : Description) : Result Bool :=
  name.lookupKey.map fun key => key.any c.hasDimension

/-- Takes a dimension out. -/
def removeDimension (name : Description) : CubeAction Unit := do
  let name := name.dimensionName
  let c ← get
  let some key := (← name.lookupKey).filter c.hasDimension
    | throw (.problem (.dimensionNotHeld name.toValue c.name))
  set { c with dimensions := c.dimensions.filter (·.name != key) }

/-- The dimension of a name. -/
def dimension (c : Cube) (name : String) : Result Dimension :=
  if name.isEmpty then fail (.dimensionUnnamed c.name)
  else
    match findDimension? name c.dimensions with
    | some d => .ok d
    | none =>
      fail (.cubeLacksDimension (.text name) c.name (Text.closest? name c.dimensionNames)
        c.dimensionNames)

/-- The dimension that is asked for: by name, or by an object of that name. -/
def dimensionOf (c : Cube) (wanted : Description) : Result Dimension :=
  let wanted := wanted.dimensionName
  if !wanted.isTruthy then fail (.dimensionUnnamed c.name)
  else
    match wanted.text? with
    | some name => c.dimension name
    | none => .error (.outside .wrongType)

/-! ### Attributes of a cube -/

/-- The names that a message lists; one that is absent can not be listed. -/
def presentNames (names : List (Option String)) : Result (List String) :=
  match names.mapM id with
  | some present => .ok present
  | none => .error (.outside .wrongType)

def measure (c : Cube) (name : Description) : Result Attribute :=
  let name := name.measureName
  match c.measures.find? (isNamed ·.name name) with
  | some a => .ok a
  | none => do
    let available ← presentNames (c.measures.map (·.name))
    fail (.cubeLacksMeasure name.toValue c.name (Text.closest? name.shown available) available)

def detail (c : Cube) (name : Description) : Result Attribute :=
  match c.details.find? (isNamed ·.name name) with
  | some a => .ok a
  | none => fail (.cubeLacksDetail name.toValue c.name)

/-- The parts of a reference before and after its first point. -/
def splitRef (ref : String) : Option (String × String) :=
  match ref.toList.span (· != '.') with
  | (_, []) => none
  | (before, _ :: after) => some (String.ofList before, String.ofList after)

/-- Any attribute by its reference: a measure or detail by name, else an attribute of a dimension
by the names of both. -/
def attributeWithRef (c : Cube) (ref : String) : Result Attribute :=
  match (c.measures ++ c.details).find? (·.name == some ref) with
  | some a => .ok a
  | none =>
    match splitRef ref with
    | none => fail (.cubeLacksAttribute (.text ref) c.name)
    | some (dimension, name) =>
      match findDimension? dimension c.dimensions with
      | some d => d.attributeNamed (.text name)
      | none => fail (.cubeLacksAttribute (.text ref) c.name)

/-- Any attribute by a reference that may not be a text. -/
def attributeOf (c : Cube) (ref : Description) : Result Attribute :=
  match ref.text? with
  | some ref => c.attributeWithRef ref
  | none =>
    match (c.measures ++ c.details).find? (isNamed ·.name ref) with
    | some a => .ok a
    | none =>
      match ref with
      | .list items =>
        if items.any fun item => item.text? == some "." then .error (.outside .missingMember)
        else fail (.cubeLacksAttribute ref.toValue c.name)
      | .record fields =>
        if Record.contains fields "." then .error (.outside .missingMember)
        else fail (.cubeLacksAttribute ref.toValue c.name)
      | .object _ => fail (.cubeLacksAttribute ref.toValue c.name)
      | _ => .error (.outside .wrongType)

/-- Attributes of a fact: those of all dimensions, details and measures. -/
def factAttributes (c : Cube) : List Attribute :=
  c.dimensions.flatMap (·.attributes) ++ c.details ++ c.measures

/-- The physical column of a reference; what is not mapped is its own column. -/
def columnName (c : Cube) (ref : String) : String := (Record.get? c.mappings ref).getD ref

/-- The physical column of any reference. -/
def columnOf (c : Cube) (ref : Description) : Result Value :=
  ref.lookupKey.map fun key =>
    match key with
    | some name => .text (c.columnName name)
    | none => ref.toValue

end Cube

end Olap
