/-
Writing the pieces of a query. Names stand between double quotes. Values stand in the text as
literals, or a placeholder marks the place of a value that travels beside the text. Placeholders
are question marks, or names made from the column that the value is compared with and a number
that counts the uses of that name from the first on.
-/

import Olap.Decimal.Notation
import Olap.Sql.Piece

namespace Olap.Sql

/-- Whether values stand in the text. -/
inductive Mode
  | bound
  | literal
deriving DecidableEq, Repr, Inhabited

/-- A text between quotes, in which the quote is written twice. -/
def quotedBy (quote : Char) (text : String) : String :=
  String.ofList (quote :: text.toList.flatMap (fun c => if c = quote then [c, c] else [c]) ++
    [quote])

def identifier (name : String) : String := quotedBy '"' name

/-- The literal of a value; lists, records, directions and the wildcard have none. -/
def literal? (dialect : Dialect) : Value → Option String
  | .null => some "NULL"
  | .bool b => some (truthWord dialect b)
  | .int i => some (toString i)
  | .float x => some (Decimal.showFloat x)
  | .text s => some (quotedBy '\'' s)
  | _ => none

/-- Characters that a placeholder does not hold. -/
def isReserved (c : Char) : Bool := "%() $.[]:".toList.contains c

/-- Every run of reserved characters becomes one underscore. -/
def replaceReserved : List Char → List Char
  | [] => []
  | [c] => if isReserved c then ['_'] else [c]
  | c :: d :: rest =>
    if isReserved c then
      if isReserved d then replaceReserved (d :: rest) else '_' :: replaceReserved (d :: rest)
    else c :: replaceReserved (d :: rest)

/-- What a placeholder is called after. -/
def placeholderBase (column : String) : String :=
  String.ofList (Text.trimBy (· == '_') (replaceReserved column.toList))

/-- How often each base has been used. -/
abbrev Uses := List (String × Nat)

/-- The placeholder of a slot, and the uses after it. -/
def nextPlaceholder (uses : Uses) (column : String) : String × Uses :=
  let base := placeholderBase column
  let count := (Record.get? uses base).getD 0 + 1
  (base ++ "_" ++ toString count, Record.set uses base count)

/-- The text of pieces with placeholders, and the values beside it under their names. -/
def boundText (dialect : Dialect) : Uses → List Piece → String × List (String × Value)
  | _, [] => ("", [])
  | uses, .raw text :: rest =>
    let (after, values) := boundText dialect uses rest
    (text ++ after, values)
  | uses, .name text :: rest =>
    let (after, values) := boundText dialect uses rest
    (identifier text ++ after, values)
  | uses, .slot column value :: rest =>
    let (name, uses) := nextPlaceholder uses column
    let (after, values) := boundText dialect uses rest
    ((match dialect with
      | .generic => ":" ++ name
      | .sqlite => "?") ++ after, (name, value) :: values)
  | uses, .fixed value :: rest =>
    let (name, uses) := nextPlaceholder uses "param"
    let (after, values) := boundText dialect uses rest
    ((match dialect with
      | .generic => ":" ++ name
      | .sqlite => "?") ++ after, (name, value) :: values)

/-- The text of pieces with the values in it. -/
def literalText (dialect : Dialect) : List Piece → Result String
  | [] => .ok ""
  | .raw text :: rest => (literalText dialect rest).map (text ++ ·)
  | .name text :: rest => (literalText dialect rest).map (identifier text ++ ·)
  | .slot _ value :: rest =>
    match literal? dialect value with
    | some text => (literalText dialect rest).map (text ++ ·)
    | none => .error (.outside .sqlLiteral)
  | .fixed _ :: rest => (literalText dialect rest).map ("?" ++ ·)

/-- The text of a query. -/
def text (dialect : Dialect) (mode : Mode) (q : Query) : Result String := do
  let pieces ← queryPieces dialect false q
  match mode with
  | .bound => return (boundText dialect [] pieces).1
  | .literal => literalText dialect pieces

/-- The values beside the text of a query, in the order of their placeholders. -/
def parameters (dialect : Dialect) (q : Query) : Result (List (String × Value)) :=
  (queryPieces dialect false q).map fun pieces => (boundText dialect [] pieces).2

end Olap.Sql
