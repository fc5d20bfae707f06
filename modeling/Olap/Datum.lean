/-
Dynamic data. Descriptions of cubes, option values, cut paths, rows of a store: all of them come
from outside and may be anything that a document can hold. A datum is a document tree whose leaves
may also be the wildcard of a cut path, an order direction, or an object of a type `α`. A `Value`
has no such objects; where a description may embed finished objects, `α` is their type.

Records keep the order of their fields, because an order of levels or dimensions may be given by
a record, and a key occurs once in them.
-/

import Olap.Decimal.Notation
import Olap.Text.Quoted

namespace Olap

/-- The two directions of an order. -/
inductive Direction
  | asc
  | desc
deriving DecidableEq, Repr, Inhabited

namespace Direction

def name : Direction → String
  | asc => "asc"
  | desc => "desc"

/-- How a direction is shown in a message, which is not its name. -/
def shown : Direction → String
  | asc => "OrderDirection.ASC"
  | desc => "OrderDirection.DESC"

end Direction

/-- A tree of data with leaves of type `α`. -/
inductive Datum (α : Type) where
  | null
  | bool (b : Bool)
  | int (i : Int)
  | float (x : Float)
  | text (s : String)
  | list (items : List (Datum α))
  | record (fields : List (String × Datum α))
  | wildcard
  | direction (d : Direction)
  | object (o : α)
deriving BEq, Inhabited

/-- Data without embedded objects. -/
abbrev Value := Datum Empty

/-- Fields of a record, in order. -/
abbrev Fields (α : Type) := List (String × Datum α)

/-- A record of plain values. -/
abbrev Row := List (String × Value)

/-- What messages say about an embedded object. -/
class Embedded (α : Type) where
  /-- The name of its type in an error text. -/
  typeName : α → String
  /-- Its text. -/
  text : α → String
  /-- Its text inside a list or record. -/
  quoted : α → String

instance : Embedded Empty := ⟨nofun, nofun, nofun⟩

namespace Record

variable {β : Type}

/-- The value under a key. -/
def get? (fields : List (String × β)) (key : String) : Option β :=
  (fields.find? (·.1 == key)).map (·.2)

def contains (fields : List (String × β)) (key : String) : Bool :=
  fields.any (·.1 == key)

def keys (fields : List (String × β)) : List String := fields.map (·.1)

/-- Stores a value: a known key keeps its place, a new one goes to the end. -/
def set : List (String × β) → String → β → List (String × β)
  | [], key, value => [(key, value)]
  | (k, v) :: rest, key, value =>
    if k = key then (k, value) :: rest else (k, v) :: set rest key value

def erase (fields : List (String × β)) (key : String) : List (String × β) :=
  fields.filter (·.1 != key)

/-- Stores all fields of another record, in order. -/
def update (fields more : List (String × β)) : List (String × β) :=
  more.foldl (fun all field => set all field.1 field.2) fields

/-- A record in which the last value of a repeated key stands at the key's first place. -/
def ofPairs (pairs : List (String × β)) : List (String × β) := update [] pairs

theorem get?_cons (field : String × β) (rest : List (String × β)) (key : String) :
    get? (field :: rest) key = if field.1 = key then some field.2 else get? rest key := by
  by_cases same : field.1 = key <;> simp [get?, same]

theorem get?_set_self (fields : List (String × β)) (key : String) (value : β) :
    get? (set fields key value) key = some value := by
  induction fields with
  | nil => simp [set, get?_cons]
  | cons field rest hypothesis =>
    by_cases same : field.1 = key <;> simp [set, get?_cons, same, hypothesis]

theorem get?_set_of_ne (fields : List (String × β)) {key other : String} (value : β)
    (different : key ≠ other) : get? (set fields key value) other = get? fields other := by
  induction fields with
  | nil => simp [set, get?, different]
  | cons field rest hypothesis =>
    by_cases same : field.1 = key
    · simp [set, get?_cons, same, different]
    · simp [set, get?_cons, same, hypothesis]

/-- A known key keeps its place. -/
theorem keys_set (fields : List (String × β)) (key : String) (value : β) :
    keys (set fields key value) =
      if key ∈ keys fields then keys fields else keys fields ++ [key] := by
  induction fields with
  | nil => rfl
  | cons field rest hypothesis =>
    by_cases same : field.1 = key
    · simp [set, keys, same]
    · have other : key ≠ field.1 := fun equal => same equal.symm
      by_cases known : key ∈ keys rest <;>
        simp_all [set, keys]

theorem contains_eq_isSome_get? (fields : List (String × β)) (key : String) :
    contains fields key = (get? fields key).isSome := by
  induction fields with
  | nil => rfl
  | cons field rest hypothesis =>
    by_cases same : field.1 = key
    · simp [contains, get?_cons, same]
    · rw [get?_cons, if_neg same, ← hypothesis]
      simp [contains, same]

end Record

namespace Datum

variable {α β : Type}

/-- Only the empty, the zero and the absent count as false. -/
def isTruthy : Datum α → Bool
  | null => false
  | bool b => b
  | int i => i != 0
  | float x =>
    match Decimal.Content.ofFloat x with
    | .zero _ => false
    | _ => true
  | text s => !s.isEmpty
  | list items => !items.isEmpty
  | record fields => !fields.isEmpty
  | wildcard | direction _ | object _ => true

def isNull : Datum α → Bool
  | null => true
  | _ => false

/-- Stores a value in a record, unless there is none. -/
def setPresent (fields : Fields α) (key : String) (value : Datum α) : Fields α :=
  if value.isNull then fields else Record.set fields key value

/-- The short name of the type of a datum. -/
def typeName [Embedded α] : Datum α → String
  | null => "NoneType"
  | bool _ => "bool"
  | int _ => "int"
  | float _ => "float"
  | text _ => "str"
  | list _ => "list"
  | record _ => "dict"
  | wildcard => "cubeslice.query.cuts._Wildcard"
  | direction _ => "cubeslice.query.spec.OrderDirection"
  | object o => Embedded.typeName o

/-- The type of a datum as error texts show it. -/
def typeText [Embedded α] (d : Datum α) : String := "<class '" ++ d.typeName ++ "'>"

/-- The last part of the type name. -/
def shortTypeName [Embedded α] (d : Datum α) : String :=
  (d.typeName.splitOn ".").getLastD ""

mutual

/-- A datum as it stands inside a list or record. -/
def quoted [Embedded α] : Datum α → String
  | null => "None"
  | bool b => if b then "True" else "False"
  | int i => toString i
  | float x => Decimal.showFloat x
  | text s => Text.quoted s
  | list items => "[" ++ Text.commas (quotedItems items) ++ "]"
  | record fields => "\x7b" ++ Text.commas (quotedFields fields) ++ "\x7d"
  | wildcard => "WILDCARD"
  | direction d => "<" ++ d.shown ++ ": " ++ Text.quoted d.name ++ ">"
  | object o => Embedded.quoted o

def quotedItems [Embedded α] : List (Datum α) → List String
  | [] => []
  | item :: rest => item.quoted :: quotedItems rest

def quotedFields [Embedded α] : List (String × Datum α) → List String
  | [] => []
  | (key, value) :: rest => (Text.quoted key ++ ": " ++ value.quoted) :: quotedFields rest

end

/-- A datum inside a sentence: a text as it is, anything else as inside a list. -/
def shown [Embedded α] : Datum α → String
  | text s => s
  | wildcard => "*"
  | direction d => d.shown
  | object o => Embedded.text o
  | d => d.quoted

mutual

/-- Replaces the embedded objects by values. -/
def plain (f : α → Value) : Datum α → Value
  | null => .null
  | bool b => .bool b
  | int i => .int i
  | float x => .float x
  | text s => .text s
  | list items => .list (plainItems f items)
  | record fields => .record (plainFields f fields)
  | wildcard => .wildcard
  | direction d => .direction d
  | object o => f o

def plainItems (f : α → Value) : List (Datum α) → List Value
  | [] => []
  | item :: rest => item.plain f :: plainItems f rest

def plainFields (f : α → Value) : List (String × Datum α) → Row
  | [] => []
  | (key, value) :: rest => (key, value.plain f) :: plainFields f rest

end

mutual

/-- A value as a datum over any objects. -/
def lift : Value → Datum α
  | null => .null
  | bool b => .bool b
  | int i => .int i
  | float x => .float x
  | text s => .text s
  | list items => .list (liftItems items)
  | record fields => .record (liftFields fields)
  | wildcard => .wildcard
  | direction d => .direction d

def liftItems : List Value → List (Datum α)
  | [] => []
  | item :: rest => lift item :: liftItems rest

def liftFields : Row → Fields α
  | [] => []
  | (key, value) :: rest => (key, lift value) :: liftFields rest

end

/-- The text of a datum that is a text; a direction stands for its name. -/
def text? : Datum α → Option String
  | text s => some s
  | direction d => some d.name
  | _ => none

def ofOption (s : Option String) : Datum α := s.elim null text

end Datum

/-- A name that may be absent, inside a sentence. -/
def shownName (name : Option String) : String := name.getD "None"

end Olap
