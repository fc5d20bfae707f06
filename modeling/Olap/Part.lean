/-
Descriptions. Where a description of an object is expected, finished objects may stand inside it:
a level among the levels of a hierarchy, a dimension in place of its name. A description is a datum
whose leaves may be such parts.
-/

import Olap.Coerce
import Olap.Metadata.Basic
import Olap.Options.Basic

namespace Olap

/-- A finished object inside a description. -/
inductive Part
  | measure (a : Attribute)
  | level (l : Level)
  | hierarchy (h : Hierarchy)
  | dimension (d : Dimension)
  | queryOptions (o : QueryOptions)
  | aggregateOptions (o : AggregateOptions)
deriving BEq, Inhabited

/-- Data in which finished objects may stand. -/
abbrev Description := Datum Part

namespace Part

/-- All options as pairs of name and value. -/
def assignments (separator : String) (fields : Row) : String :=
  separator.intercalate (fields.map fun field => field.1 ++ "=" ++ field.2.quoted)

def typeName : Part → String
  | measure _ => "cubeslice.metadata.attributes.Measure"
  | level _ => "cubeslice.metadata.dimension.Level"
  | hierarchy _ => "cubeslice.metadata.dimension.Hierarchy"
  | dimension _ => "cubeslice.metadata.dimension.Dimension"
  | queryOptions _ => "cubeslice.query.options.QueryOptions"
  | aggregateOptions _ => "cubeslice.query.options.AggregateOptions"

def shown : Part → String
  | measure a => a.shown
  | level l => l.shown
  | hierarchy h => h.shown
  | dimension d => d.name
  | queryOptions o => assignments " " o.all
  | aggregateOptions o => assignments " " o.all

def quoted : Part → String
  | measure a => a.quoted
  | level l => l.quoted
  | hierarchy h => h.quoted
  | dimension d => d.quoted
  | queryOptions o => "QueryOptions(" ++ assignments ", " o.all ++ ")"
  | aggregateOptions o => "AggregateOptions(" ++ assignments ", " o.all ++ ")"

/-- The fields that every described object has. -/
def headerPairs (name : Option String) (header : Header) : Fields Part :=
  [("name", .ofOption name), ("label", .ofOption header.label),
    ("description", .ofOption header.description), ("info", Datum.lift (.record header.info))]

/-- All fields of an object with their values, the extra fields last. -/
def pairs : Part → Fields Part
  | measure a => headerPairs a.name a.header ++ Datum.liftFields a.header.extra
  | level l =>
    headerPairs l.name l.header ++
      [("attributes", .list (l.attributes.map fun a => .object (.measure a))),
        ("key", .text l.key), ("label_attribute", .text l.labelAttribute),
        ("order_attribute", .ofOption l.orderAttribute)] ++
      Datum.liftFields l.header.extra
  | hierarchy h =>
    headerPairs h.name h.header ++
      [("levels", .list (h.levels.map fun l => .object (.level l)))] ++
      Datum.liftFields h.header.extra
  | dimension d =>
    headerPairs d.name d.header ++
      [("levels", .list (d.levels.map fun l => .object (.level l))),
        ("hierarchies", .list (d.hierarchies.map fun h => .object (.hierarchy h))),
        ("default_hierarchy_name", .ofOption d.defaultHierarchyName),
        ("key_field", .ofOption d.keyField)] ++
      Datum.liftFields d.header.extra
  | queryOptions o => Datum.liftFields o.all
  | aggregateOptions o => Datum.liftFields o.all

/-- The record an object is written as. -/
def toRecord : Part → Row
  | measure a => a.fields
  | level l => l.fields
  | hierarchy h => h.fields
  | dimension d => d.fields
  | queryOptions o => o.toRecord
  | aggregateOptions o => o.toRecord

/-- The value that stands for an object among values: its name or reference. -/
def nameValue : Part → Value
  | measure a => .ofOption a.ref
  | level l => .ofOption l.name
  | hierarchy h => .ofOption h.name
  | dimension d => .text d.name
  | queryOptions o => .record o.toRecord
  | aggregateOptions o => .record o.toRecord

end Part

instance : Embedded Part := ⟨Part.typeName, Part.shown, Part.quoted⟩

instance : Iterated Part := ⟨Part.pairs⟩

namespace Description

/-- A description as data to be kept: objects in it turn into the records they are written as. -/
def toData (d : Description) : Value := d.plain fun part => .record part.toRecord

/-- A description as a value: objects in it turn into their names. -/
def toValue (d : Description) : Value := d.plain Part.nameValue

def fieldsToData (fields : Fields Part) : Row :=
  Datum.plainFields (fun part => .record part.toRecord) fields

/-- The measure that a description is. -/
def measure? : Description → Option Attribute
  | .object (.measure a) => some a
  | _ => none

def level? : Description → Option Level
  | .object (.level l) => some l
  | _ => none

def hierarchy? : Description → Option Hierarchy
  | .object (.hierarchy h) => some h
  | _ => none

def dimension? : Description → Option Dimension
  | .object (.dimension d) => some d
  | _ => none

end Description

end Olap
