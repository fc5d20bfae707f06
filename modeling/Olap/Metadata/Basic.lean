/-
The objects that describe a cube. A dimension has levels, from which hierarchies select and order
some; a level has attributes, one of which is its key and one its label. A cube has measures,
details and dimensions, and a model owns dimensions and the cubes that use them. All of them carry
a header: what a reader is told about the object and whatever else its description held.

Here are the objects, their references and labels, and the records they are written as.
-/

import Olap.Number
import Olap.Text.Case

namespace Olap

/-- What every described object carries besides its name and its parts. -/
structure Header where
  label : Option String
  description : Option String
  /-- Free-form data about the object. -/
  info : Row
  /-- Fields of the description that the object has no use for. -/
  extra : Row
deriving BEq, Inhabited

/-- Attributes describe members of a dimension or single facts, measures are aggregated. -/
inductive AttributeKind
  | attribute
  | measure
deriving DecidableEq, Repr, Inhabited

/-- A column of facts as a reader sees it. -/
structure Attribute where
  kind : AttributeKind
  name : Option String
  header : Header
  /-- The dimension that owns the attribute. -/
  dimension : Option String
deriving BEq, Inhabited

/-- A level of a dimension. -/
structure Level where
  name : Option String
  header : Header
  attributes : List Attribute
  /-- Name of the attribute that tells the members apart. -/
  key : String
  /-- Name of the attribute that is shown for a member. -/
  labelAttribute : String
  orderAttribute : Option String
  dimension : Option String
deriving BEq, Inhabited

/-- Levels of a dimension from the top down. -/
structure Hierarchy where
  name : Option String
  header : Header
  levels : List Level
  dimension : Option String
deriving BEq, Inhabited

structure Dimension where
  name : String
  header : Header
  levels : List Level
  hierarchies : List Hierarchy
  defaultHierarchyName : Option String
  /-- Physical key by which facts are ordered along the dimension. -/
  keyField : Option String
deriving BEq, Inhabited

/-- Whether a cube belongs to a model, whose name may be absent. -/
inductive Ownership
  | standalone
  | ofModel (name : Option String)
deriving DecidableEq, Repr, Inhabited

structure Cube where
  name : String
  header : Header
  measures : List Attribute
  details : List Attribute
  /-- Physical columns of references. -/
  mappings : List (String × String)
  factTable : Option String
  joins : Option (List Row)
  /-- The column that tells facts apart. -/
  keyField : String
  dimensions : List Dimension
  owner : Ownership
deriving BEq, Inhabited

structure Model where
  name : Option String
  header : Header
  dimensions : List Dimension
  cubes : List Cube
deriving BEq, Inhabited

/-- A name made readable: underscores become spaces and the first letter a capital. -/
def labelOfName (name : String) (capital : Bool) : String :=
  let label := String.ofList (name.toList.map fun c => if c = '_' then ' ' else c)
  if capital then Text.capitalize label else label

/-- The label of an object: its own, or made from its name, or made from what it is. -/
def Header.labelFor (header : Header) (name : Option String) (what : String) : String :=
  match header.label, name with
  | some label, name =>
    if !label.isEmpty then label
    else match name with
      | some name => if name.isEmpty then "<" ++ what ++ ">" else labelOfName name true
      | none => "<" ++ what ++ ">"
  | none, some name => if name.isEmpty then "<" ++ what ++ ">" else labelOfName name true
  | none, none => "<" ++ what ++ ">"

/-- The name of an object, or what it is. -/
def nameOr (name : Option String) (what : String) : String :=
  match name with
  | some name => if name.isEmpty then "<" ++ what ++ ">" else name
  | none => "<" ++ what ++ ">"

/-- The name of an object inside the text that shows the object. -/
def quotedName (name : Option String) : String := name.elim "None" Text.quoted

/-- A field of a record, left out when there is no value for it. -/
def textField (key : String) (value : Option String) : Row :=
  value.elim [] fun value => [(key, .text value)]

/-- The names of a list of objects as values. -/
def nameList (names : List (Option String)) : Value := .list (names.map .ofOption)

/-- The fields that come from name and header. -/
def Header.fields (header : Header) (name : Option String) : Row :=
  textField "name" name ++ textField "label" header.label ++
    textField "description" header.description ++ [("info", .record header.info)]

/-- The extra fields that have a value. -/
def Header.extraFields (header : Header) : Row :=
  header.extra.filter fun field => !field.2.isNull

/-- A record to which a made label is added when asked for and none is there. -/
def withLabel (createLabel : Bool) (name : Option String) (label : String) (fields : Row) : Row :=
  if createLabel && name.any (!·.isEmpty) && !Record.contains fields "label" then
    Record.set fields "label" (.text label)
  else fields

namespace AttributeKind

def title : AttributeKind → String
  | .attribute => "Attribute"
  | .measure => "Measure"

end AttributeKind

namespace Attribute

/-- The name under which queries refer to the attribute: the dimension that owns it, a point, and
its name. -/
def ref (a : Attribute) : Option String :=
  match a.dimension with
  | some dimension =>
    if dimension.isEmpty then a.name else some (dimension ++ "." ++ shownName a.name)
  | none => a.name

/-- The reference as a text. -/
def refText (a : Attribute) : String := shownName a.ref

/-- Gives the attribute to a dimension. -/
def attach (a : Attribute) (dimension : String) : Attribute :=
  { a with dimension := some dimension }

def label (a : Attribute) : String := a.header.labelFor a.name a.kind.title

def shown (a : Attribute) : String := a.refText

def quoted (a : Attribute) : String := a.kind.title ++ "(name=" ++ quotedName a.name ++ ")"

/-- The record that an attribute is written as. The reference is computed, so it wins over an
extra field of that name. -/
def fields (a : Attribute) : Row :=
  let all := Record.update (a.header.fields a.name) a.header.extraFields
  match a.ref with
  | some ref => Record.set all "ref" (.text ref)
  | none => all

def toRecord (createLabel : Bool) (a : Attribute) : Row :=
  withLabel createLabel a.name a.label a.fields

end Attribute

/-- The column of an attribute named like the level it stands for. -/
def Attribute.ofName (kind : AttributeKind) (name : Option String) : Attribute :=
  { kind, name, header := ⟨none, none, [], []⟩, dimension := none }

namespace Level

def attributeNames (level : Level) : List (Option String) := level.attributes.map (·.name)

def label (level : Level) : String := level.header.labelFor level.name "Level"

def shown (level : Level) : String := nameOr level.name "Level"

def quoted (level : Level) : String :=
  "<Level(name='" ++ shownName level.name ++ "', attributes=" ++
    toString level.attributes.length ++ ")>"

def hasDetails (level : Level) : Bool := 1 < level.attributes.length

/-- Gives the level and its attributes to a dimension. -/
def attach (level : Level) (dimension : String) : Level :=
  { level with
    attributes := level.attributes.map (·.attach dimension)
    dimension := some dimension }

def fields (level : Level) : Row :=
  Record.update
    (level.header.fields level.name ++
      [("attributes", .list (level.attributes.map fun a => .record a.fields)),
        ("key", .text level.key), ("label_attribute", .text level.labelAttribute)] ++
      textField "order_attribute" level.orderAttribute)
    level.header.extraFields

def toRecord (createLabel : Bool) (level : Level) : Row :=
  withLabel createLabel level.name level.label level.fields

end Level

namespace Hierarchy

def levelNames (h : Hierarchy) : List (Option String) := h.levels.map (·.name)

def label (h : Hierarchy) : String := h.header.labelFor h.name "Hierarchy"

def shown (h : Hierarchy) : String := nameOr h.name "Hierarchy"

def quoted (h : Hierarchy) : String := "Hierarchy(name=" ++ quotedName h.name ++ ")"

def fields (h : Hierarchy) : Row :=
  let all := Record.update
    (h.header.fields h.name ++ [("levels", .list (h.levels.map fun l => .record l.fields))])
    h.header.extraFields
  Record.set all "level_names" (nameList h.levelNames)

def toRecord (createLabel : Bool) (h : Hierarchy) : Row :=
  withLabel createLabel h.name h.label h.fields

end Hierarchy

namespace Dimension

def levelNames (d : Dimension) : List (Option String) := d.levels.map (·.name)

def label (d : Dimension) : String := d.header.labelFor d.name "Dimension"

def quoted (d : Dimension) : String :=
  "<Dimension(name='" ++ d.name ++ "', levels=" ++ toString d.levels.length ++
    ", hierarchies=" ++ toString d.hierarchies.length ++ ")>"

/-- All attributes, regardless of hierarchies. -/
def attributes (d : Dimension) : List Attribute := d.levels.flatMap (·.attributes)

def isFlat (d : Dimension) : Bool := d.levels.length == 1

def fields (d : Dimension) : Row :=
  let all := Record.update
    (d.header.fields d.name ++
      [("levels", .list (d.levels.map fun l => .record l.fields)),
        ("hierarchies", .list (d.hierarchies.map fun h => .record h.fields))] ++
      textField "default_hierarchy_name" d.defaultHierarchyName ++
      textField "key_field" d.keyField)
    d.header.extraFields
  Record.set all "level_names" (nameList d.levelNames)

def toRecord (createLabel : Bool) (d : Dimension) : Row :=
  withLabel createLabel d.name d.label d.fields

/-- Two dimensions are taken for the same when they agree on all that a reader is told and on the
names of their levels, of all hierarchies too. Attributes do not count. -/
def agrees (d e : Dimension) : Bool :=
  d.name == e.name && d.header.label == e.header.label &&
    d.header.description == e.header.description &&
    d.defaultHierarchyName == e.defaultHierarchyName && d.keyField == e.keyField &&
    d.levelNames == e.levelNames &&
    d.hierarchies.map (·.levelNames) == e.hierarchies.map (·.levelNames)

end Dimension

/-- What the record of a cube is to hold. -/
structure CubeWriting where
  /-- Physical properties too. -/
  withMappings : Bool
  /-- Dimensions in full instead of by name. -/
  expandDimensions : Bool

/-- The way that a record asks for. -/
def CubeWriting.ofRecord (fields : Row) : CubeWriting :=
  { withMappings := ((Record.get? fields "with_mappings").map (·.isTruthy)).getD true
    expandDimensions := ((Record.get? fields "expand_dimensions").map (·.isTruthy)).getD false }

namespace Cube

def dimensionNames (c : Cube) : List String := c.dimensions.map (·.name)

def label (c : Cube) : String := c.header.labelFor c.name "Cube"

def quoted (c : Cube) : String :=
  "<Cube(name='" ++ c.name ++ "', dimensions=" ++ Text.quotedList c.dimensionNames ++ ")>"

def toRecord (writing : CubeWriting) (c : Cube) : Row :=
  let all := Record.update
    (c.header.fields c.name ++
      [("measures", .list (c.measures.map fun a => .record a.fields)),
        ("details", .list (c.details.map fun a => .record a.fields)),
        ("mappings", .record (c.mappings.map fun m => (m.1, .text m.2)))] ++
      textField "fact_table" c.factTable ++
      (c.joins.elim [] fun joins => [("joins", .list (joins.map .record))]) ++
      [("key_field", .text c.keyField)])
    (Record.erase c.header.extraFields "dimension_links")
  let all := match Record.get? all "fact_table" with
    | some table => Record.set (Record.erase all "fact_table") "fact" table
    | none => all
  let all := Record.set all "dimensions"
    (if writing.expandDimensions then
      .list (c.dimensions.map fun d => .record (d.toRecord false))
    else .list (c.dimensionNames.map .text))
  let all := Record.erase all "dimension_names"
  if writing.withMappings then all
  else Record.erase (Record.erase (Record.erase all "mappings") "fact") "joins"

end Cube

namespace Model

def cubeNames (m : Model) : List String := m.cubes.map (·.name)

def dimensionNames (m : Model) : List String := m.dimensions.map (·.name)

def label (m : Model) : String := m.header.labelFor m.name "Model"

def shown (m : Model) : String := nameOr m.name "Model"

def quoted (m : Model) : String :=
  "<Model(name='" ++ shownName m.name ++ "', cubes=" ++ Text.quotedList m.cubeNames ++ ")>"

def toRecord (writing : CubeWriting) (m : Model) : Row :=
  let all := Record.update (m.header.fields m.name) m.header.extraFields
  let all := Record.set all "dimensions"
    (.list (m.dimensions.map fun d => .record (d.toRecord false)))
  Record.set all "cubes" (.list (m.cubes.map fun c => .record (c.toRecord writing)))

end Model

/-- The record that reads back: physical properties, and dimensions by name. -/
def CubeWriting.full : CubeWriting := ⟨true, false⟩

end Olap
