/-
The quoted form of a text in messages. Single quotes surround it, unless the text holds a single
quote and no double quote, in which case double quotes do. Inside, a backslash and the surrounding
quote are escaped, line ends and tabs have short escapes, and every other character that is not
printable is written by its code point in two, four or eight hexadecimal digits.
-/

import Olap.Text.Class

namespace Olap.Text

def hexDigit (n : Nat) : Char :=
  if n < 10 then Char.ofNat (48 + n) else Char.ofNat (87 + n)

/-- The last `width` hexadecimal digits of a number. -/
def hexDigits : (width : Nat) → Nat → List Char
  | 0, _ => []
  | width + 1, n => hexDigits width (n / 16) ++ [hexDigit (n % 16)]

/-- One character inside quotes of the given kind. -/
def escapeChar (quote c : Char) : List Char :=
  if c = quote ∨ c = '\\' then ['\\', c]
  else if c = '\n' then ['\\', 'n']
  else if c = '\r' then ['\\', 'r']
  else if c = '\t' then ['\\', 't']
  else if isPrintable c then [c]
  else if c.toNat < 0x100 then '\\' :: 'x' :: hexDigits 2 c.toNat
  else if c.toNat < 0x10000 then '\\' :: 'u' :: hexDigits 4 c.toNat
  else '\\' :: 'U' :: hexDigits 8 c.toNat

/-- The quote that surrounds a text. -/
def quoteFor (text : List Char) : Char :=
  if text.contains '\'' && !text.contains '"' then '"' else '\''

/-- The quoted form of a text. -/
def quoted (text : String) : String :=
  let chars := text.toList
  let quote := quoteFor chars
  String.ofList (quote :: chars.flatMap (escapeChar quote) ++ [quote])

/-- Items between commas. -/
def commas (items : List String) : String := ", ".intercalate items

/-- A list of names in brackets, each quoted. -/
def quotedList (names : List String) : String :=
  "[" ++ commas (names.map quoted) ++ "]"

end Olap.Text
