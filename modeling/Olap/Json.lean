/-
Reading JSON text. Records keep the order of their fields; of a repeated key the last value counts,
at the first place. Besides the standard's values the names of the numbers that JSON lacks are
read (`NaN`, `Infinity`, `-Infinity`). A text either is one value or it is refused.
-/

import Olap.Datum

namespace Olap.Json

def isSpace (c : Char) : Bool := c == ' ' || c == '\t' || c == '\n' || c == '\r'

def skipSpace (text : List Char) : List Char := text.dropWhile isSpace

/-- The value of a hexadecimal digit. -/
def hexValue? (c : Char) : Option Nat :=
  if c.isDigit then some (c.toNat - 48)
  else if 'a' ≤ c ∧ c ≤ 'f' then some (c.toNat - 87)
  else if 'A' ≤ c ∧ c ≤ 'F' then some (c.toNat - 55)
  else none

/-- The value of four hexadecimal digits. -/
def hexUnit? (a b c d : Char) : Option Nat := do
  let a ← hexValue? a
  let b ← hexValue? b
  let c ← hexValue? c
  let d ← hexValue? d
  return ((a * 16 + b) * 16 + c) * 16 + d

def isHighSurrogate (unit : Nat) : Bool := 0xD800 ≤ unit && unit < 0xDC00

def isLowSurrogate (unit : Nat) : Bool := 0xDC00 ≤ unit && unit < 0xE000

/-- A character for a code unit; half of a pair that stands alone has no character. -/
def unitChar (unit : Nat) : Char :=
  if isHighSurrogate unit || isLowSurrogate unit then Char.ofNat 0xFFFD else Char.ofNat unit

/-- The character of a one-letter escape. -/
def simpleEscape? : Char → Option Char
  | '"' => some '"'
  | '\\' => some '\\'
  | '/' => some '/'
  | 'b' => some (Char.ofNat 8)
  | 'f' => some (Char.ofNat 12)
  | 'n' => some '\n'
  | 'r' => some '\r'
  | 't' => some '\t'
  | _ => none

/-- The rest of a string after its opening quote: its characters, and what follows it. -/
def readString? : List Char → Option (List Char × List Char)
  | [] => none
  | '"' :: rest => some ([], rest)
  | '\\' :: 'u' :: a :: b :: c :: d :: '\\' :: 'u' :: e :: f :: g :: h :: rest => do
    let high ← hexUnit? a b c d
    let low := (hexUnit? e f g h).getD 0
    if isHighSurrogate high && isLowSurrogate low then
      let (chars, left) ← readString? rest
      return (Char.ofNat (0x10000 + (high - 0xD800) * 0x400 + (low - 0xDC00)) :: chars, left)
    else
      let (chars, left) ← readString? ('\\' :: 'u' :: e :: f :: g :: h :: rest)
      return (unitChar high :: chars, left)
  | '\\' :: 'u' :: a :: b :: c :: d :: rest => do
    let unit ← hexUnit? a b c d
    let (chars, left) ← readString? rest
    return (unitChar unit :: chars, left)
  | '\\' :: c :: rest => do
    let char ← simpleEscape? c
    let (chars, left) ← readString? rest
    return (char :: chars, left)
  | c :: rest =>
    if c.toNat < 32 then none
    else do
      let (chars, left) ← readString? rest
      return (c :: chars, left)

/-- The digits at the start of a text. -/
def spanDigits (text : List Char) : List Nat × List Char :=
  ((text.takeWhile Char.isDigit).map Decimal.digitOf, text.dropWhile Char.isDigit)

/-- The whole part of a number: no digit follows a leading zero. -/
def readWhole? (text : List Char) : Option (List Nat × List Char) :=
  match text with
  | '0' :: rest => some ([0], rest)
  | _ =>
    match spanDigits text with
    | ([], _) => none
    | found => some found

/-- The digits after a point; a point without digits does not belong to the number. -/
def readPart (text : List Char) : Option (List Nat) × List Char :=
  match text with
  | '.' :: rest =>
    match spanDigits rest with
    | ([], _) => (none, text)
    | (digits, left) => (some digits, left)
  | _ => (none, text)

/-- An exponent; a mark without digits does not belong to the number. -/
def readPower (text : List Char) : Option Int × List Char :=
  match text with
  | mark :: rest =>
    if mark = 'e' ∨ mark = 'E' then
      let (negative, rest) := Decimal.takeSign rest
      match spanDigits rest with
      | ([], _) => (none, text)
      | (digits, left) =>
        let size : Int := Decimal.natOf digits
        (some (if negative then -size else size), left)
    else (none, text)
  | [] => (none, text)

/-- A number without its sign. -/
def readNumber? (negative : Bool) (text : List Char) : Option (Value × List Char) := do
  let (whole, rest) ← readWhole? text
  let (part, rest) := readPart rest
  let (power, rest) := readPower rest
  match part, power with
  | none, none =>
    let size : Int := Decimal.natOf whole
    return (.int (if negative then -size else size), rest)
  | _, _ =>
    let places := part.getD []
    return (.float (Decimal.nearest negative (Decimal.natOf (whole ++ places))
      (power.getD 0 - places.length)), rest)

/-- What follows a word at the start of a text. -/
def afterWord? (word : List Char) (text : List Char) : Option (List Char) :=
  if text.take word.length = word then some (text.drop word.length) else none

/-- The words that are values. -/
def words : List (List Char × Value) := [
  ("null".toList, .null), ("true".toList, .bool true), ("false".toList, .bool false),
  ("NaN".toList, .float (0.0 / 0.0)), ("Infinity".toList, .float (1.0 / 0.0)),
  ("-Infinity".toList, .float (-(1.0 / 0.0)))]

/-- A value that is neither string, list nor record. -/
def readScalar? (text : List Char) : Option (Value × List Char) :=
  match words.findSome? fun word => (afterWord? word.1 text).map (word.2, ·) with
  | some found => some found
  | none =>
    match text with
    | '-' :: rest => readNumber? true rest
    | _ => readNumber? false text

mutual

/-- One value at the start of a text, and what follows it. -/
def readValue? : Nat → List Char → Option (Value × List Char)
  | 0, _ => none
  | fuel + 1, text =>
    match skipSpace text with
    | '"' :: rest => (readString? rest).map fun found => (.text (String.ofList found.1), found.2)
    | '[' :: rest =>
      match skipSpace rest with
      | ']' :: left => some (.list [], left)
      | inside => (readItems? fuel inside).map fun found => (.list found.1, found.2)
    | '\x7b' :: rest =>
      match skipSpace rest with
      | '\x7d' :: left => some (.record [], left)
      | inside =>
        (readFields? fuel inside).map fun found => (.record (Record.ofPairs found.1), found.2)
    | inside => readScalar? inside

/-- The items of a list up to its end. -/
def readItems? : Nat → List Char → Option (List Value × List Char)
  | 0, _ => none
  | fuel + 1, text => do
    let (item, rest) ← readValue? fuel text
    match skipSpace rest with
    | ',' :: more =>
      let (items, left) ← readItems? fuel more
      return (item :: items, left)
    | ']' :: left => return ([item], left)
    | _ => none

/-- The fields of a record up to its end. -/
def readFields? : Nat → List Char → Option (List (String × Value) × List Char)
  | 0, _ => none
  | fuel + 1, text => do
    let '"' :: inside := skipSpace text | none
    let (key, rest) ← readString? inside
    let ':' :: rest := skipSpace rest | none
    let (value, rest) ← readValue? fuel rest
    match skipSpace rest with
    | ',' :: more =>
      let (fields, left) ← readFields? fuel more
      return ((String.ofList key, value) :: fields, left)
    | '\x7d' :: left => return ([(String.ofList key, value)], left)
    | _ => none

end

/-- The value that a text holds. Every step of the reading consumes a character, so the length of
the text bounds the steps. -/
def read? (text : String) : Option Value :=
  let chars := text.toList
  match readValue? (2 * chars.length + 2) chars with
  | some (value, rest) => if (skipSpace rest).isEmpty then some value else none
  | none => none

end Olap.Json
