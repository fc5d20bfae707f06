/-
Writing and reading of floating point numbers. What is written are the shortest digits that read
back; where the point stands and how the exponent looks is a choice of format, fixed in one record.
What is read is the wider language of decimal texts with blanks around them, single underscores
between digits, digits of any script, and the names of infinity and of the number that is none.
-/

import Olap.Decimal.Nearest
import Olap.Decimal.Shortest
import Olap.Text.Class

namespace Olap.Decimal

/-- The choices of a number format. -/
structure Notation where
  /-- Greatest number of places before the point that is written without an exponent. -/
  maxPoint : Int
  /-- Least position of the point that is written without an exponent. -/
  minPoint : Int
  /-- Least number of digits of an exponent. -/
  exponentDigits : Nat
  infinity : String
  nan : String

/-- Numbers from a ten-thousandth up to below 10^16 are written with a point, all others with
an exponent of at least two digits. -/
def plain : Notation := ⟨16, -3, 2, "inf", "nan"⟩

def digitChar (n : Nat) : Char := Char.ofNat ('0'.toNat + n)

def digitText (digits : List Nat) : String := String.ofList (digits.map digitChar)

/-- A natural number in decimal, padded by zeros at the left. -/
def paddedNat (width n : Nat) : String :=
  let digits := digitsOf n
  digitText (List.replicate (width - digits.length) 0 ++ digits)

/-- A positive number in the given notation. -/
def Notation.write (style : Notation) (d : Digits) : String :=
  if style.minPoint ≤ d.point && d.point ≤ style.maxPoint then
    if d.point ≤ 0 then
      "0." ++ digitText (List.replicate (-d.point).toNat 0 ++ d.digits)
    else
      let whole := d.point.toNat
      let padded := d.digits ++ List.replicate (whole - d.digits.length) 0
      let part := padded.drop whole
      digitText (padded.take whole) ++ "." ++ digitText (if part.isEmpty then [0] else part)
  else
    let exponent := d.point - 1
    let part := d.digits.drop 1
    digitText (d.digits.take 1) ++ (if part.isEmpty then "" else "." ++ digitText part) ++ "e" ++
      (if exponent < 0 then "-" else "+") ++ paddedNat style.exponentDigits exponent.natAbs

/-- The text of a double. -/
def Notation.format (style : Notation) (x : Float) : String :=
  let signed := fun (negative : Bool) (text : String) => if negative then "-" ++ text else text
  match Content.ofFloat x with
  | .nan => style.nan
  | .infinite negative => signed negative style.infinity
  | .zero negative => signed negative "0.0"
  | .finite negative mantissa exponent narrow =>
    signed negative (style.write (shortest mantissa exponent narrow))

/-- The text of a double in the plain notation. -/
def showFloat (x : Float) : String := plain.format x

/-- The double nearest to `n * 10 ^ exponent`. A number beyond all doubles is infinite and one
below all of them is zero, which needs no power of ten to be computed. -/
def nearest (negative : Bool) (n : Nat) (exponent : Int) : Float :=
  let size : Int := (digitsOf n).length + exponent
  let x : Float :=
    if n = 0 then 0.0
    else if size > 400 then 1.0 / 0.0
    else if size < -400 then 0.0
    else
      let ratio := onGrid exponent 0 n
      nearestRatio ratio.1 ratio.2
  if negative then -x else x

/-- The value of a list of digits. -/
def natOf (digits : List Nat) : Nat := digits.foldl (fun n d => 10 * n + d) 0

/-- Value of an ASCII digit. -/
def digitOf (c : Char) : Nat := c.toNat - '0'.toNat

/-- The digits that go on after a digit; a single underscore may stand before each of them. -/
def takeMoreDigits : List Char → List Nat × List Char
  | [] => ([], [])
  | '_' :: c :: rest =>
    if c.isDigit then
      let (digits, left) := takeMoreDigits rest
      (digitOf c :: digits, left)
    else ([], '_' :: c :: rest)
  | c :: rest =>
    if c.isDigit then
      let (digits, left) := takeMoreDigits rest
      (digitOf c :: digits, left)
    else ([], c :: rest)

/-- Longest prefix of digits, in which single underscores may stand between two digits. -/
def takeDigits : List Char → List Nat × List Char
  | [] => ([], [])
  | c :: rest =>
    if c.isDigit then
      let (digits, left) := takeMoreDigits rest
      (digitOf c :: digits, left)
    else ([], c :: rest)

/-- An optional sign: is it a minus, and what follows it. -/
def takeSign : List Char → Bool × List Char
  | '-' :: rest => (true, rest)
  | '+' :: rest => (false, rest)
  | rest => (false, rest)

/-- The exponent part at the end of a number: nothing, or a mark, an optional sign and digits. -/
def readExponent? : List Char → Option Int
  | [] => some 0
  | mark :: rest =>
    if mark = 'e' ∨ mark = 'E' then
      let (negative, rest) := takeSign rest
      match takeDigits rest with
      | ([], _) => none
      | (digits, []) => some (if negative then -(natOf digits : Int) else natOf digits)
      | _ => none
    else none

/-- A number without its sign. -/
def readMagnitude? (negative : Bool) (text : List Char) : Option Float :=
  let word := String.ofList (text.map Char.toLower)
  if word = "inf" ∨ word = "infinity" then
    some (if negative then -(1.0 / 0.0) else 1.0 / 0.0)
  else if word = "nan" then some (0.0 / 0.0)
  else
    let (whole, rest) := takeDigits text
    let (part, rest) :=
      match rest with
      | '.' :: more => takeDigits more
      | _ => ([], rest)
    if whole.isEmpty && part.isEmpty then none
    else
      match readExponent? rest with
      | none => none
      | some exponent => some (nearest negative (natOf (whole ++ part)) (exponent - part.length))

/-- Blanks and digits of other scripts become the space and the digits of ASCII. -/
def toAscii (c : Char) : Char :=
  if c.toNat < 128 then c
  else if Text.isBlank c then ' '
  else match Text.digitValue? c with
    | some value => digitChar value
    | none => c

/-- Blanks that may surround a number once all characters are ASCII. -/
def isNumberBlank (c : Char) : Bool := c == ' ' || (9 ≤ c.toNat && c.toNat ≤ 13)

/-- The number that a text denotes, if it denotes one. -/
def read? (text : String) : Option Float :=
  let (negative, rest) := takeSign (Text.trimBy isNumberBlank (text.toList.map toAscii))
  readMagnitude? negative rest

/-- The integer that a text denotes: an optional sign and digits. -/
def readInteger? (text : String) : Option Int :=
  let (negative, rest) := takeSign (Text.trimBy isNumberBlank (text.toList.map toAscii))
  match takeDigits rest with
  | ([], _) => none
  | (digits, []) => some (if negative then -(natOf digits : Int) else natOf digits)
  | _ => none

end Olap.Decimal
