/-
From data to typed values. The coercions are lenient where nothing can be misread: a whole number
may be written as a text, as a boolean or as a double without a fraction, a truth value by one of
a dozen words. A text, however, is only made from a text.
-/

import Olap.Check
import Olap.Number

namespace Olap

/-- What going through a datum item by item gives: data, or the parts of an embedded object, which
are pairs of a field and its value. -/
inductive Item (α : Type)
  | datum (d : Datum α)
  | pair (field : String) (value : Datum α)

/-- An embedded object that can be gone through. -/
class Iterated (α : Type) where
  /-- The fields that it has, with their values. -/
  pairs : α → Fields α

instance : Iterated Empty := ⟨nofun⟩

namespace Item

variable {α : Type}

def typeText [Embedded α] : Item α → String
  | datum d => d.typeText
  | pair .. => "<class 'tuple'>"

/-- An item inside a sentence. -/
def shown [Embedded α] : Item α → String
  | datum d => d.shown
  | pair field value => "(" ++ Text.quoted field ++ ", " ++ value.quoted ++ ")"

/-- The fields of an object, one by one. -/
def ofPairs (fields : Fields α) : List (Item α) := fields.map fun field => pair field.1 field.2

end Item

namespace Datum

variable {α : Type}

/-- The characters of a text, each as a text. -/
def letters (s : String) : List (Item α) :=
  s.toList.map fun c => .datum (.text (String.singleton c))

/-- Going through a datum: a text by its characters, a record by its keys. Numbers, truth values,
the wildcard and nothing cannot be gone through. -/
def items? [Iterated α] : Datum α → Option (List (Item α))
  | text s => some (letters s)
  | direction d => some (letters d.name)
  | list items => some (items.map .datum)
  | record fields => some (fields.map fun field => .datum (.text field.1))
  | object o => some (Item.ofPairs (Iterated.pairs o))
  | null | bool _ | int _ | float _ | wildcard => none

/-- The items, or the failure of asking for them. -/
def items [Iterated α] (d : Datum α) : Result (List (Item α)) :=
  match d.items? with
  | some items => .ok items
  | none => .error (.outside .wrongType)

end Datum

/-- A calculation without a result as a failure from outside. -/
def Number.Failure.outside : Number.Failure → Outside
  | operands => .wrongType
  | divisionByZero => .divisionByZero
  | overflow => .overflow

namespace Coerce

variable {α : Type}

def text (d : Datum α) : Check String :=
  match d.text? with
  | some s => .accept s
  | none => .flaw .stringType

/-- A value that may be absent. -/
def optional {β : Type} (check : Datum α → Check β) (d : Datum α) : Check (Option β) :=
  match d with
  | .null => .accept none
  | d => some <$> check d

/-- Leading zeros are no part of a number: all of them go but the last one of nothing else, or of
a whole part before a point. Single or repeated underscores among them go as well. -/
def dropLeadingZeros : (last : Char) → List Char → Option (List Char)
  | last, [] => some [last]
  | last, c :: rest =>
    if c = '0' ∨ c = '_' then dropLeadingZeros c rest
    else if c.isDigit then some (c :: rest)
    else if c = '.' then some (last :: c :: rest)
    else none

/-- The text after a zero, a digit or a minus sign at its start is looked at. -/
def trimZeros? : List Char → Option (List Char)
  | [] => none
  | '0' :: rest => dropLeadingZeros '0' rest
  | c :: rest => if c.isDigit ∨ c = '-' then some (c :: rest) else none

/-- A fraction of zeros does not count. -/
def dropZeroFraction (s : List Char) : List Char :=
  let whole := s.takeWhile (· != '.')
  match s.dropWhile (· != '.') with
  | _ :: part => if part.all (· == '0') then whole else s
  | [] => s

def hasDoubleUnderscore : List Char → Bool
  | '_' :: '_' :: _ => true
  | _ :: rest => hasDoubleUnderscore rest
  | [] => false

/-- Underscores go when they stand one by one inside the text. -/
def dropUnderscores (s : List Char) : List Char :=
  if s.head? == some '_' || s.getLast? == some '_' || hasDoubleUnderscore s then s
  else s.filter (· != '_')

/-- The digits of an integer in its plain form, without leading zeros, and its sign. -/
def plainInteger? (s : List Char) : Option (Bool × List Nat) :=
  let negative := s.head? == some '-'
  let digits := if negative then s.drop 1 else s
  if digits.isEmpty || !digits.all Char.isDigit || (digits.head? == some '0' && digits.length > 1)
  then none
  else some (negative, digits.map Decimal.digitOf)

/-- The integer that a text denotes: blanks around it, a plus sign, leading zeros, underscores
between digits and a fraction of zeros are allowed. -/
def integerText? (s : String) : Option (Bool × List Nat) := do
  let body := Text.trimBy Text.isWhiteSpace s.toList
  let body ← match body with
    | '+' :: '-' :: _ => none
    | '+' :: rest => some rest
    | _ => some body
  let body ← trimZeros? body
  plainInteger? (dropUnderscores (dropZeroFraction body))

/-- Greatest number of digits that is read, or written. -/
def maxIntegerDigits : Nat := 4300

/-- Doubles below this size are taken as integers. -/
def maxIntegerFloat : Nat := Nat.pow 2 63

/-- The integer that a double is equal to. -/
def integerFloat (x : Float) : Check Int :=
  match Decimal.units? x with
  | none => .flaw .finiteNumber
  | some units =>
    if units % Decimal.unitsPerOne != 0 then .flaw .intFromFloat
    else
      let i := units / Decimal.unitsPerOne
      if i.natAbs < maxIntegerFloat then .accept i else .flaw .intParsingSize

def int (d : Datum α) : Check Int :=
  match d with
  | .int i => .accept i
  | .bool b => .accept (if b then 1 else 0)
  | .float x => integerFloat x
  | d =>
    match d.text? with
    | none => .flaw .intType
    | some s =>
      match integerText? s with
      | none => .flaw .intParsing
      | some (negative, digits) =>
        if digits.length > maxIntegerDigits then .flaw .intParsingSize
        else
          let size : Int := Decimal.natOf digits
          .accept (if negative then -size else size)

/-- A positive integer is a positive natural number. -/
theorem toNat_pos {i : Int} (positive : 0 < i) : 0 < i.toNat := by omega

def falseWords : List String := ["0", "f", "n", "no", "off", "false"]

def trueWords : List String := ["1", "t", "y", "yes", "on", "true"]

/-- A text with its ASCII letters in lower case. -/
def asciiLower (s : String) : String := String.ofList (s.toList.map Char.toLower)

/-- The truth value of the integers 0 and 1. -/
def boolOfInt (i : Int) : Check Bool :=
  if i = 0 then .accept false else if i = 1 then .accept true else .flaw .boolParsing

def bool (d : Datum α) : Check Bool :=
  match d with
  | .bool b => .accept b
  | .int i => if i.natAbs < Nat.pow 2 63 then boolOfInt i else .flaw .boolType
  | .float x =>
    match (integerFloat x).result with
    | .ok i => boolOfInt i
    | .error _ => .flaw .boolType
  | d =>
    match d.text? with
    | none => .flaw .boolType
    | some s =>
      let word := asciiLower s
      if falseWords.contains word then .accept false
      else if trueWords.contains word then .accept true
      else .flaw .boolParsing

/-- The double that a text without underscores denotes. -/
def plainFloat? (s : List Char) : Option Float :=
  if s.contains '_' then none
  else
    let (negative, body) := Decimal.takeSign s
    Decimal.readMagnitude? negative body

def floatText? (s : String) : Option Float :=
  (plainFloat? (Text.trimBy Text.isWhiteSpace s.toList)).or
    (plainFloat? (dropUnderscores s.toList))

def float (d : Datum α) : Check Float :=
  match d with
  | .float x => .accept x
  | .bool b => .accept (if b then 1.0 else 0.0)
  | .int i =>
    match (Number.int i).toFloat with
    | .ok x => .accept x
    | .error _ => .flaw .floatType
  | d =>
    match d.text? with
    | none => .flaw .floatType
    | some s =>
      match floatText? s with
      | some x => .accept x
      | none => .flaw .floatParsing

/-- A list of checked items. An embedded object counts as the list of its fields. -/
def list {β : Type} [Iterated α] (check : Item α → Check β) (d : Datum α) : Check (List β) :=
  match d with
  | .list items => Check.each check (items.map .datum)
  | .object o => Check.each check (Item.ofPairs (Iterated.pairs o))
  | _ => .flaw .listType

/-- An item that is checked as a datum; a pair has the given fault. -/
def item {β : Type} (fault : FieldFault) (check : Datum α → Check β) : Item α → Check β
  | .datum d => check d
  | .pair .. => .flaw fault

def record (d : Datum α) : Check (Fields α) :=
  match d with
  | .record fields => .accept fields
  | _ => .flaw .dictType

end Coerce

end Olap
