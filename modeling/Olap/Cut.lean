/-
Cuts. A cut restricts a cube to a part of it: to the facts at a point of a dimension, to those in a
range of the dimension's key field, or to those at any of a set of points. A point is a path of key
values, in which the wildcard stands for any value of its level. A cut names its dimension and its
hierarchy and knows nothing about the cube that it will be applied to.
-/

import Olap.Check
import Olap.Metadata.Cube

namespace Olap

/-- The element of a path that a value stands for: an asterisk is a way to write the wildcard. -/
def pathElement : Value → Value
  | .text "*" => .wildcard
  | value => value

/-- A path from a list or the keys of a record; nothing stands for the empty path. A text would be
taken for the path of its letters, so it is refused. -/
def normalizePath (d : Value) : Result (List Value) :=
  match d with
  | .null => .ok []
  | .list items => .ok (items.map pathElement)
  | .record fields => .ok (fields.map fun field => pathElement (.text field.1))
  | d => fail (.pathNotSequence d.quoted)

/-- How an element of a path is written. -/
def describeElement : Value → Value
  | .wildcard => .text "*"
  | value => value

def describePath (path : List Value) : Value := .list (path.map describeElement)

/-- A restriction of a cube along one dimension. -/
inductive Cut
  | point (dimension : String) (hierarchy : Option String) (path : List Value)
  | range (dimension : String) (hierarchy : Option String) (low high : Value)
  | set (dimension : String) (hierarchy : Option String) (paths : List (List Value))
  /-- A cut that does not say where to cut. -/
  | bare (dimension : String) (hierarchy : Option String)
deriving Inhabited

namespace Cut

def dimension : Cut → String
  | point dimension .. | range dimension .. | set dimension .. | bare dimension _ => dimension

def hierarchy : Cut → Option String
  | point _ hierarchy _ | range _ hierarchy .. | set _ hierarchy _ | bare _ hierarchy => hierarchy

/-- The word that tells the kinds of cuts apart. -/
def typeWord : Cut → String
  | point .. => "point"
  | range .. => "range"
  | set .. => "set"
  | bare .. => ""

/-- How the kinds of cuts are called. -/
def title : Cut → String
  | point .. => "PointCut"
  | range .. => "RangeCut"
  | set .. => "SetCut"
  | bare .. => "Cut"

def typeText (c : Cut) : String := "<class 'cubeslice.query.cuts." ++ c.title ++ "'>"

/-- How many levels deep the cut goes. -/
def depth? : Cut → Option Nat
  | point _ _ path => some path.length
  | set _ _ paths => some ((paths.map List.length).foldl max 0)
  | range .. | bare .. => none

/-- The record a cut is written as. -/
def toRecord (c : Cut) : Row :=
  [("type", .text c.typeWord), ("dimension", .text c.dimension),
    ("hierarchy", .ofOption c.hierarchy)] ++
  match c with
  | point _ _ path => [("path", describePath path)]
  | range _ _ low high => [("from", low), ("to", high)]
  | set _ _ paths => [("paths", .list (paths.map describePath))]
  | bare .. => []

/-- What cuts are told apart by. -/
def fingerprint (c : Cut) : Result Value :=
  match c with
  | point dimension hierarchy path =>
    .ok (.list [.text "point", .text dimension, .ofOption hierarchy, describePath path])
  | range dimension hierarchy low high =>
    .ok (.list [.text "range", .text dimension, .ofOption hierarchy, low, high])
  | set dimension hierarchy paths =>
    .ok (.list [.text "set", .text dimension, .ofOption hierarchy,
      .list (paths.map describePath)])
  | bare .. => .error (.outside .notImplemented)

/-- The values that the cut compares with. -/
def values : Cut → List Value
  | point _ _ path => path
  | range _ _ low high => [low, high]
  | set _ _ paths => paths.flatten
  | bare .. => []

/-- Lists and records can not be part of a key. -/
def isKeyValue : Value → Bool
  | .list _ | .record _ => false
  | _ => true

/-- Whether the fingerprint can be used as a key. -/
def isHashable (c : Cut) : Bool := c.values.all isKeyValue

/-- The elements of a path in a text. -/
def pathText (path : List Value) : String := ",".intercalate (path.map Datum.shown)

def shown : Cut → String
  | point dimension _ path => dimension ++ ":" ++ pathText path
  | range dimension _ low high => dimension ++ ":" ++ low.shown ++ "-" ++ high.shown
  | set dimension _ paths => dimension ++ ":" ++ ";".intercalate (paths.map pathText)
  | bare dimension hierarchy =>
    "dimension=" ++ Text.quoted dimension ++ " hierarchy=" ++ quotedName hierarchy

/-- Equality of cuts, their values compared by size. -/
def alikeBy (sameFloat : Bool) (a b : Cut) : Bool :=
  a.typeWord == b.typeWord && a.dimension == b.dimension && a.hierarchy == b.hierarchy &&
  match a, b with
  | point _ _ p, point _ _ q => Datum.alikeItems sameFloat p q
  | range _ _ low high, range _ _ low' high' =>
    low.alikeBy sameFloat low' && high.alikeBy sameFloat high'
  | set _ _ ps, set _ _ qs => Datum.alikeItems sameFloat (ps.map .list) (qs.map .list)
  | _, _ => true

def alike : Cut → Cut → Bool := alikeBy false

/-! ### Cuts from descriptions -/

/-- The dimension of a cut: its name or the dimension itself. -/
def checkDimension (d : Description) : Check String :=
  match d.dimension? with
  | some dimension => .accept dimension.name
  | none => if d.isTruthy then Coerce.text d else .abort (.problem .cutNeedsDimension)

def checkHierarchy (d : Description) : Check (Option String) :=
  Coerce.optional Coerce.text d.hierarchyName

def checkPath (d : Description) : Check (List Value) := .ofResult (normalizePath d.toValue)

/-- A list of paths; a text or a record is gone through as well. -/
def checkPaths (d : Description) : Check (List (List Value)) :=
  match d with
  | .null => .accept []
  | d =>
    .ofResult (match d.toValue.items with
      | .error fault => .error fault
      | .ok items => allOf (fun item =>
          match item with
          | .datum d => normalizePath d
          | .pair .. => .error (.outside .wrongType)) items)

/-- The fields that every kind of cut has. -/
def sharedKeys : List (List String) := [["dimension"], ["hierarchy"]]

def pointOfFields (fields : Fields Part) : Result Cut :=
  ((fun dimension hierarchy path _ => point dimension hierarchy path) <$>
    requireField fields ["dimension"] checkDimension <*>
    checkField fields ["hierarchy"] none checkHierarchy <*>
    checkField fields ["path"] [] checkPath <*>
    refuseExtra (sharedKeys ++ [["path"]]) fields : Check Cut).result

def rangeOfFields (fields : Fields Part) : Result Cut :=
  ((fun dimension hierarchy low high _ => range dimension hierarchy low high) <$>
    requireField fields ["dimension"] checkDimension <*>
    checkField fields ["hierarchy"] none checkHierarchy <*>
    checkField fields ["from_key"] .null (fun d => .accept (Description.toValue d)) <*>
    checkField fields ["to_key"] .null (fun d => .accept (Description.toValue d)) <*>
    refuseExtra (sharedKeys ++ [["from_key"], ["to_key"]]) fields : Check Cut).result

def setOfFields (fields : Fields Part) : Result Cut :=
  ((fun dimension hierarchy paths _ => set dimension hierarchy paths) <$>
    requireField fields ["dimension"] checkDimension <*>
    checkField fields ["hierarchy"] none checkHierarchy <*>
    checkField fields ["paths"] [] checkPaths <*>
    refuseExtra (sharedKeys ++ [["paths"]]) fields : Check Cut).result

def bareOfFields (fields : Fields Part) : Result Cut :=
  ((fun dimension hierarchy _ => bare dimension hierarchy) <$>
    requireField fields ["dimension"] checkDimension <*>
    checkField fields ["hierarchy"] none checkHierarchy <*>
    refuseExtra sharedKeys fields : Check Cut).result

/-- A cut of the class of the given title from the fields of that class. -/
def ofTitle (title : String) (fields : Fields Part) : Result Cut :=
  if title == "PointCut" then pointOfFields fields
  else if title == "RangeCut" then rangeOfFields fields
  else if title == "SetCut" then setOfFields fields
  else bareOfFields fields

/-- A cut by a point. -/
def byPoint (dimension path hierarchy : Description) : Result Cut :=
  pointOfFields [("dimension", dimension), ("path", path), ("hierarchy", hierarchy)]

/-- A cut by a range of the key field. -/
def byRange (dimension low high : Description) : Result Cut :=
  rangeOfFields [("dimension", dimension), ("from_key", low), ("to_key", high)]

/-- A cut by a set of points. -/
def bySet (dimension paths hierarchy : Description) : Result Cut :=
  setOfFields [("dimension", dimension), ("paths", paths), ("hierarchy", hierarchy)]

/-- A cut from its record. Without a type it is a cut by a point; unknown fields do not count, and
the record of a range has no hierarchy. -/
def ofFields (fields : Fields Part) : Result Cut :=
  let field (key : String) : Description := (Record.get? fields key).getD .null
  let type : Description := (Record.get? fields "type").getD (.text "point")
  let path (key : String) : Description := (Record.get? fields key).getD (.list [])
  match type.text? with
  | some "point" => byPoint (field "dimension") (path "path") (field "hierarchy")
  | some "range" => byRange (field "dimension") (field "from") (field "to")
  | some "set" => bySet (field "dimension") (path "paths") (field "hierarchy")
  | _ => fail (.unknownCutType type.toValue)

/-- Writing a cut and reading it back gives the same cut. -/
def roundTrips (c : Cut) : Bool :=
  match ofFields (Datum.liftFields c.toRecord) with
  | .ok back => back.alikeBy true c
  | .error _ => false

/-- What happens when a field of a finished cut is assigned: cuts do not change. Only names that
begin with an underscore are free. -/
def assign (field : String) : Result Unit :=
  if field == "cut_type" then .error (.outside .missingMember)
  else if field.startsWith "_" then .ok ()
  else .error (.invalid [⟨[.field field], .frozen⟩])

/-- The dimension and the hierarchy that the cut has in a cube. -/
def resolve (c : Cut) (cube : Cube) : Result (Dimension × Hierarchy) := do
  let dimension ← cube.dimension c.dimension
  let hierarchy ← dimension.hierarchy (.ofOption c.hierarchy)
  return (dimension, hierarchy)

end Cut

end Olap
