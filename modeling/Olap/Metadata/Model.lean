/-
Models. A model registers dimensions and cubes, each under its own name, and gives its cubes the
dimensions they name. Changing a model is an action on a state, and a failing action is one that
answers with a failure and a state too: that it leaves the model as it was is a property of the
actions, not of the type.
-/

import Olap.Json
import Olap.Metadata.Cube

namespace Olap

/-- A change of a model. -/
abbrev ModelAction (β : Type) := Edit Model β

namespace Description

/-- The two items of a pair: a key and its value. The key is a text or could not be used as the
name of a field. -/
def asField (d : Description) : Result (Option String × Description) :=
  match d.items with
  | .error fault => .error fault
  | .ok items =>
    match items with
    | [.datum key, .datum value] => (Description.lookupKey key).map fun key => (key, value)
    | _ => .error (.outside .badValue)

/-- The fields that a list of pairs describes, and whether all of their keys are names. -/
def fieldsOfPairs : List Description → Result (Fields Part × Bool)
  | [] => .ok ([], true)
  | pair :: rest =>
    match pair.asField with
    | .error fault => .error fault
    | .ok (key, value) =>
      (fieldsOfPairs rest).map fun (fields, named) =>
        match key with
        | some key => ((key, value) :: fields, named)
        | none => (fields, false)

/-- The fields of a description of a cube: of a record, or of a list of pairs. Whatever counts as
false has none. -/
def asFields (d : Description) : Result (Fields Part × Bool) :=
  if !d.isTruthy then .ok ([], true)
  else
    match d with
    | .record fields => .ok (fields, true)
    | .list pairs => (fieldsOfPairs pairs).map fun (fields, named) => (Record.ofPairs fields, named)
    | .object part => .ok (Datum.liftFields part.toRecord, true)
    | d => if d.text?.isSome then .error (.outside .badValue) else .error (.outside .wrongType)

/-- The entries of a list of dimensions; whatever counts as false is an empty one. -/
def entries (d : Description) : Result (List (Item Part)) :=
  if d.isTruthy then d.items else .ok []

end Description

namespace Model

def hasDimension (m : Model) (name : String) : Bool := m.dimensions.any (·.name == name)

def hasCube (m : Model) (name : String) : Bool := m.cubes.any (·.name == name)

/-- The dimension registered under a name. -/
def dimension (m : Model) (name : Description) : Result Dimension := do
  match (← name.lookupKey).bind fun key => findDimension? key m.dimensions with
  | some d => return d
  | none => fail (.modelLacksDimension name.toValue m.name)

/-- The cube registered under a name. -/
def cube (m : Model) (name : Description) : Result Cube := do
  match (← name.lookupKey).bind fun key => m.cubes.find? (·.name == key) with
  | some c => return c
  | none => fail (.modelLacksCube name.toValue m.name)

/-- A dimension to register: a finished one, or one to be made from its description. -/
def dimensionToAdd (d : Description) : Result Dimension :=
  match d.dimension?, d.text?, d with
  | some dimension, _, _ => .ok dimension
  | none, some _, _ | none, none, .record _ => Dimension.ofDescription d []
  | none, none, _ => fail (.dimensionType d.typeText)

/-- Registers a dimension. -/
def addDimension (d : Description) : ModelAction Dimension := do
  let dimension ← dimensionToAdd d
  let m ← get
  if m.hasDimension dimension.name then
    throw (.problem (.dimensionExists dimension.name m.name))
  set { m with dimensions := m.dimensions ++ [dimension] }
  return dimension

/-- Takes a dimension out, unless a cube holds one of its name. -/
def removeDimension (name : Description) : ModelAction Unit := do
  let name := name.dimensionName
  let m ← get
  let some key := (← name.lookupKey).filter m.hasDimension
    | throw (.problem (.modelLacksDimension name.toValue m.name))
  let users := (m.cubes.filter (·.hasDimension key)).map (·.name)
  if !users.isEmpty then
    throw (.problem (.dimensionUsed key users))
  set { m with dimensions := m.dimensions.filter (·.name != key) }

/-- Adds the dimensions that a description of a cube lists, one after the other. -/
def linkAll (registry : List Dimension) : List (Item Part) → CubeAction Unit
  | [] => pure ()
  | entry :: rest => do
    let link ← DimensionLink.ofEntry entry
    let _ ← Cube.addDimension registry link
    linkAll registry rest

/-- A cube of its own description, before the model's dimensions are added to it. -/
def bareCube (m : Model) (name : Description) (fields : Fields Part) (named : Bool) :
    Result Cube :=
  if !named then fail (.notCreated "Cube" (.outside .wrongType))
  else
    (Cube.ofDescription (.record (Record.erase fields "dimensions")) [("name", name)]).map
      fun c => { c with owner := .ofModel m.name }

/-- Makes a cube from its description, with the dimensions it names, and registers it. It is not
registered before it has all of them. -/
def createCube (name info : Description) : ModelAction Cube := do
  let m ← get
  let key ← name.lookupKey
  if key.any m.hasCube then
    throw (.problem (.cubeExists (key.getD "") m.name))
  let (fields, named) ← info.asFields
  let bare ← m.bareCube name fields named
  let entries ← Description.entries ((Record.get? fields "dimensions").getD .null)
  let cube ← (linkAll m.dimensions entries).made bare
  set { m with cubes := m.cubes ++ [cube] }
  return cube

/-- Puts a changed cube in the place of the one of its name. -/
def replaceCube (m : Model) (c : Cube) : Model :=
  { m with cubes := m.cubes.map fun old => if old.name == c.name then c else old }

/-- Changes a cube of the model. Whatever the change has made of the cube is in the model, also when it
fails. -/
def changeCube {β : Type} (name : Description) (change : Model → CubeAction β) :
    ModelAction Cube := do
  let m ← get
  let cube ← m.cube name
  let (outcome, changed) := (change m).run.run cube
  set (m.replaceCube changed)
  let _ ← outcome
  return changed

/-- Adds a dimension to a cube of the model. -/
def addCubeDimension (cube d : Description) : ModelAction Cube :=
  changeCube cube fun m => do
    let link ← DimensionLink.ofDescription d
    Cube.addDimension m.dimensions link

/-- Adds a dimension of the model itself to a cube of the model. -/
def addOwnDimension (cube name : Description) : ModelAction Cube :=
  changeCube cube fun m => do
    let d ← m.dimension name
    Cube.addDimension m.dimensions (.named d.name)

/-- Takes a dimension out of a cube of the model. -/
def removeCubeDimension (cube name : Description) : ModelAction Cube :=
  changeCube cube fun _ => Cube.removeDimension name

/-! ### Models from descriptions -/

def knownKeys : List (List String) :=
  [["dimensions", "dimension_descs"], ["cubes", "cube_descs"]]

/-- A model before its dimensions and cubes are made. -/
structure Draft where
  name : Option String
  header : Header
  dimensions : List Description
  cubes : List Description

def checkDraft (fields : Fields Part) : Check Draft :=
  Draft.mk <$> checkNameField fields <*> checkHeader knownKeys fields <*>
    checkField fields ["dimensions", "dimension_descs"] []
      (fun d => .ofResult (namedObjects "dimension" d)) <*>
    checkField fields ["cubes", "cube_descs"] [] (fun d => .ofResult (namedObjects "cube" d))

def addDimensions : List Description → ModelAction Unit
  | [] => pure ()
  | d :: rest => do
    let _ ← addDimension d
    addDimensions rest

/-- Makes a cube from an entry of a description: a name, or a record with one. -/
def createDescribed (d : Description) : ModelAction Unit :=
  match d.text?, d with
  | some _, _ => do
    let _ ← createCube d .null
  | none, .record fields => do
    let name := (Record.get? fields "name").getD .null
    if !name.isTruthy then throw (.problem .cubeDescriptionNeedsName)
    let _ ← createCube name (.record (Record.erase fields "name"))
  | none, _ => throw (.problem (.cubeDescriptionType d.typeText))

def createCubes : List Description → ModelAction Unit
  | [] => pure ()
  | d :: rest => do
    createDescribed d
    createCubes rest

/-- Makes all dimensions first, then the cubes that use them. -/
def ofDraft (draft : Draft) : Result Model :=
  let build : ModelAction Unit := do
    addDimensions draft.dimensions
    createCubes draft.cubes
  build.made { name := draft.name, header := draft.header, dimensions := [], cubes := [] }

def ofFields (fields : Fields Part) : Result Model :=
  match (checkDraft fields).result with
  | .error fault => .error fault
  | .ok draft => ofDraft draft

def ofDescription (d : Description) (extra : Fields Part) : Result Model :=
  createFrom "Model" ofFields d extra

/-- A model is described by a record. -/
def ofRecord (d : Description) : Result Model :=
  match d with
  | .record _ => ofDescription d []
  | d => fail (.modelDescriptionType d.shortTypeName)

/-- A model from the text of a document. The document's name, if it has one, is for messages. -/
def ofText (document : Option String) (text : String) : Result Model :=
  match Json.read? text with
  | none => fail (.malformedModel document)
  | some value => ofRecord value.lift

/-- Writes a model and reads it back. -/
def roundTrip (m : Model) : Result Model := ofRecord (Datum.record (m.toRecord .full)).lift

end Model

end Olap
