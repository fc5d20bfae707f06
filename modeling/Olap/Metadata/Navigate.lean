/-
Finding one's way in a dimension. Levels, hierarchies and attributes are looked up by name, a
finished object stands for its name, and a name that is not there is reported together with what
was searched. A path is a list of key values, one for each level of a hierarchy from the top down;
its length says how deep it goes, so a path that is longer than its hierarchy is an error, never
cut short.
-/

import Olap.Metadata.Described

namespace Olap

/-- Whether a name is the wanted one. Nothing finds what has no name. -/
def isNamed (own : Option String) (wanted : Description) : Bool :=
  match wanted with
  | .null => own.isNone
  | d =>
    match d.text? with
    | some name => own == some name
    | none => false

namespace Description

/-- A key of a look-up: lists, records and options cannot be one. -/
def lookupKey (d : Description) : Result (Option String) :=
  match d with
  | .list _ | .record _ | .object (.queryOptions _) | .object (.aggregateOptions _) =>
    .error (.outside .wrongType)
  | d => .ok d.text?

/-- An item as a key of a look-up. A pair finds nothing, and cannot be a key when its value cannot. -/
def itemKey : Item Part → Result (Option String)
  | .datum d => lookupKey d
  | .pair _ value => (lookupKey value).map fun _ => none

/-- A level stands for its name. -/
def levelName (d : Description) : Description := d.level?.elim d fun level => .ofOption level.name

/-- A hierarchy stands for its name. -/
def hierarchyName (d : Description) : Description := d.hierarchy?.elim d fun h => .ofOption h.name

/-- A dimension stands for its name. -/
def dimensionName (d : Description) : Description :=
  d.dimension?.elim d fun dimension => .text dimension.name

/-- A measure stands for its name. -/
def measureName (d : Description) : Description := d.measure?.elim d fun a => .ofOption a.name

end Description

namespace Datum

/-- The items of a path. Without a path there are none. -/
def pathItems : Value → Result (List Value)
  | .null => .ok []
  | .list items => .ok items
  | .record fields => .ok (fields.map fun field => .text field.1)
  | d =>
    match d.text? with
    | some s => .ok (s.toList.map fun c => .text (String.singleton c))
    | none => .error (.outside .wrongType)

/-- The items of a path; whatever counts as false is an empty path. -/
def looseItems (d : Value) : Result (List Value) := if d.isTruthy then d.pathItems else .ok []

end Datum

/-- The first items of a list, or for a negative number all but that many at the end. -/
def leading {β : Type} (count : Int) (items : List β) : List β :=
  if count < 0 then items.take (items.length - count.natAbs) else items.take count.natAbs

/-- The item at a place; negative places count from the end. -/
def itemAt? {β : Type} (index : Int) (items : List β) : Option β :=
  if index < 0 then
    if index.natAbs ≤ items.length then items[items.length - index.natAbs]? else none
  else items[index.natAbs]?

namespace Level

def attributeNamed (level : Level) (name : Description) : Result Attribute :=
  match level.attributes.find? (isNamed ·.name name) with
  | some a => .ok a
  | none => fail (.attributeNotInLevel name.toValue level.name)

/-- The attribute that tells the members of the level apart. -/
def keyAttribute (level : Level) : Result Attribute := level.attributeNamed (.text level.key)

/-- The attribute that is shown for a member of the level. -/
def labelAttributeOf (level : Level) : Result Attribute :=
  level.attributeNamed (.text level.labelAttribute)

end Level

namespace Hierarchy

def level (h : Hierarchy) (name : Description) : Result Level :=
  match h.levels.find? (isNamed ·.name name.levelName) with
  | some level => .ok level
  | none => fail (.levelNotInHierarchy name.levelName.toValue h.name)

/-- The place of a level, counted from the top. -/
def levelIndex (h : Hierarchy) (name : Description) : Result Nat :=
  match h.levels.findIdx? (isNamed ·.name name.levelName) with
  | some index => .ok index
  | none => fail (.levelNotInHierarchy name.levelName.toValue h.name)

/-- The level at a place. -/
def levelAt (h : Hierarchy) (index : Int) : Result Level :=
  match itemAt? index h.levels with
  | some level => .ok level
  | none => fail (.levelIndexOutside h.name h.levels.length index)

/-- The level at a place or of a name; truth values are places too. -/
def item (h : Hierarchy) (index : Description) : Result Level :=
  match index with
  | .int i => h.levelAt i
  | .bool b => h.levelAt (if b then 1 else 0)
  | name => h.level name

/-- Whether a level, or one of that name, is in the hierarchy. -/
def contains (h : Hierarchy) (wanted : Description) : Bool :=
  match wanted.level? with
  | some level => h.levels.contains level
  | none =>
    match wanted.text? with
    | some name => h.levels.any (·.name == some name)
    | none => false

/-- The levels down to a depth, and one more when drilling down unless it is the last. -/
def levelsForDepth (h : Hierarchy) (depth : Int) (drill : Bool) : Result (List Level) :=
  if depth < 0 then fail .negativeDepth
  else if h.levels.length < depth then fail (.depthTooDeep depth h.levelNames h.name)
  else .ok (h.levels.take (if drill then depth.toNat + 1 else depth.toNat))

/-- The levels that a path has values for, and one more when drilling down. -/
def levelsForPath (h : Hierarchy) (path : List Value) (drill : Bool) : Result (List Level) :=
  h.levelsForDepth path.length drill

/-- A base path has a value for every level. -/
def pathIsBase (h : Hierarchy) (path : List Value) : Bool := path.length == h.levels.length

/-- The level right after a path; after a base path there is none. -/
def nextLevel (h : Hierarchy) (path : List Value) : Result (Option Level) :=
  if h.levels.length < path.length then fail (.pathTooDeep path h.levelNames h.name)
  else .ok h.levels[path.length]?

/-- The part of a path down to a level. -/
def rollupTo (h : Hierarchy) (path : List Value) (level : Description) : Result (List Value) := do
  let index ← h.levelIndex level
  if path.length < index + 1 then
    fail (.rollupTooDeep level.shown (Datum.list path : Value).quoted)
  return path.take (index + 1)

/-- The part of a path down to a level, or without a level all but the last value. -/
def rollup (h : Hierarchy) (path : List Value) (level : Description) : Result (List Value) :=
  if level.isTruthy then h.rollupTo path level else .ok path.dropLast

def keyAttributes (h : Hierarchy) : Result (List Attribute) := allOf Level.keyAttribute h.levels

def attributes (h : Hierarchy) : List Attribute := h.levels.flatMap (·.attributes)

/-- References of the keys of the first levels, or of all levels. -/
def keys (h : Hierarchy) (depth : Option Int) : Result (List (Option String)) :=
  (allOf Level.keyAttribute (depth.elim h.levels fun depth => leading depth h.levels)).map
    fun found => found.map Attribute.ref

end Hierarchy

namespace Dimension

def level (d : Dimension) (name : Description) : Result Level :=
  match d.levels.find? (isNamed ·.name name.levelName) with
  | some level => .ok level
  | none => fail (.levelNotInDimension name.levelName.toValue d.name)

/-- The hierarchy made of a single level. -/
def flatHierarchy (d : Dimension) (level : Level) : Hierarchy :=
  { name := level.name, header := ⟨none, none, [], []⟩, levels := [level]
    dimension := some d.name }

/-- The hierarchy that is named as the default, if it is there. -/
def chosenHierarchy? (d : Dimension) : Option Hierarchy :=
  match d.defaultHierarchyName with
  | some name => if name.isEmpty then none else d.hierarchies.find? (·.name == some name)
  | none => none

/-- The default hierarchy: the chosen one, or the only one, or without any the only level. -/
def defaultHierarchy (d : Dimension) : Result Hierarchy :=
  match d.chosenHierarchy? with
  | some h => .ok h
  | none =>
    match d.hierarchies, d.levels with
    | [h], _ => .ok h
    | _ :: _ :: _, _ => fail (.ambiguousHierarchy d.name d.hierarchies.length)
    | [], [level] => .ok (d.flatHierarchy level)
    | [], _ :: _ :: _ => fail (.noHierarchyForLevels d.name)
    | [], [] => fail (.noLevelsForHierarchy d.name)

/-- A hierarchy by name, and the default one without a name. -/
def hierarchy (d : Dimension) (name : Description) : Result Hierarchy :=
  match name with
  | .null => d.defaultHierarchy
  | name =>
    match d.hierarchies.find? (isNamed ·.name name.hierarchyName) with
    | some h => .ok h
    | none => fail (.hierarchyNotInDimension name.hierarchyName.toValue d.name)

def allAttributes (d : Dimension) (name : Description) : Result (List Attribute) :=
  (d.hierarchy name).map Hierarchy.attributes

/-- An attribute by its name or by its reference. -/
def attributeBy (d : Dimension) (key : Attribute → Option String) (name : Description) :
    Result Attribute :=
  match d.attributes.find? fun a => isNamed (key a) name with
  | some a => .ok a
  | none => fail (.attributeNotInDimension name.toValue d.name)

def attributeNamed (d : Dimension) (name : Description) : Result Attribute :=
  d.attributeBy (·.name) name

def attributeByRef (d : Dimension) (ref : Description) : Result Attribute :=
  d.attributeBy (·.ref) ref

/-- The keys of all levels, regardless of hierarchies. -/
def keyAttributes (d : Dimension) : Result (List Attribute) := allOf Level.keyAttribute d.levels

end Dimension

end Olap
