/-
A query as a sequence of pieces of SQL text: keywords and punctuation, names, and slots for values.
How a name or a value is written depends on the database and on whether values travel beside the
text or stand in it; the sequence of pieces does not depend on the values in the slots.

The rows of an inner query are called `s`. A query over an inner one can only name what the inner
one selects, and only if no two selected columns share a name.
-/

import Olap.Problem
import Olap.Query

namespace Olap.Sql

/-- The databases that differ in the text. -/
inductive Dialect
  | generic
  | sqlite
deriving DecidableEq, Repr, Inhabited

/-- A piece of SQL text. -/
inductive Piece
  /-- Keywords and punctuation. -/
  | raw (text : String)
  /-- An identifier, to be quoted. -/
  | name (text : String)
  /-- A value, and the column it is compared with. -/
  | slot (label : String) (value : Value)
  /-- A value that travels beside the text in any case. -/
  | fixed (value : Value)
deriving Inhabited

/-- What the columns of a source are known to be. -/
inductive Columns
  /-- The columns of a table, of which nothing is known. -/
  | table
  /-- The selected columns of an inner query. -/
  | named (names : List String)
  /-- The columns of an inner query that selects all columns of a table. -/
  | starred
deriving Inhabited

/-- Pieces between commas. -/
def commas (items : List (List Piece)) : List Piece := [Piece.raw ", "].intercalate items

/-- A name that occurs twice. -/
def isAmbiguous (names : List String) : Bool :=
  match names with
  | [] => false
  | name :: rest => rest.contains name || isAmbiguous rest

namespace Columns

/-- A column as it is referred to. -/
def reference (columns : Columns) (name : String) : Result (List Piece) :=
  match columns with
  | table => .ok [.name name]
  | starred => if name == "*" then .ok [.raw "s.*"] else fail (.unknownColumn name)
  | named names =>
    if isAmbiguous names then .error (.outside .sqlAmbiguous)
    else if names.contains name then .ok [.raw "s.", .name name]
    else fail (.unknownColumn name)

/-- The selection of all columns. Inside another query the columns are given their names again. -/
def everything (columns : Columns) (inner : Bool) : Result (List Piece) :=
  match columns with
  | table => .ok [.raw "*"]
  | starred => .ok [.raw "s.*"]
  | named names =>
    if isAmbiguous names then .error (.outside .sqlAmbiguous)
    else
      .ok (commas (names.map fun name =>
        [Piece.raw "s.", .name name] ++ (if inner then [.raw " AS ", .name name] else [])))

end Columns

/-- The columns that a query selects. -/
def selected : Query → Columns
  | .scan _ layer =>
    if layer.projections.isEmpty then .starred else .named (layer.projections.map (·.name))
  | .derived source layer =>
    if layer.projections.isEmpty then selected source
    else .named (layer.projections.map (·.name))

/-- All results, or the first failure. -/
def every {α β : Type} (f : α → Result β) : List α → Result (List β)
  | [] => .ok []
  | a :: rest =>
    match f a with
    | .error fault => .error fault
    | .ok b => (every f rest).map (b :: ·)

def expressionPieces (columns : Columns) : Expression → Result (List Piece)
  | .column name => columns.reference name
  | .aggregate function none => .ok [.raw (function.name ++ "(1)")]
  | .aggregate function (some name) =>
    (columns.reference name).map fun pieces =>
      [Piece.raw (function.name ++ "(")] ++ pieces ++ [.raw ")"]

def projectionPieces (columns : Columns) (p : Projection) : Result (List Piece) :=
  (expressionPieces columns p.expression).map fun pieces =>
    pieces ++ [.raw " AS ", .name p.name]

/-- The word for a truth value, which is part of the text. -/
def truthWord (dialect : Dialect) (b : Bool) : String :=
  match dialect, b with
  | .generic, true => "true"
  | .generic, false => "false"
  | .sqlite, true => "1"
  | .sqlite, false => "0"

/-- A condition. Nothing is equal to an absent value, so being absent has words of its own. -/
def predicatePieces (dialect : Dialect) (columns : Columns) (p : Predicate) :
    Result (List Piece) := do
  let column ← columns.reference p.column
  match p with
  | .equals _ .null => return column ++ [.raw " IS NULL"]
  | .equals _ (.bool b) => return column ++ [.raw (" = " ++ truthWord dialect b)]
  | .equals name value => return column ++ [.raw " = ", .slot name value]
  | .between name low high =>
    return column ++ [.raw " BETWEEN ", .slot name low, .raw " AND ", .slot name high]
  | .present _ => return column ++ [.raw " IS NOT NULL"]
  | .other _ => fail (.unknownPredicate "<class 'cubeslice.query.spec.Projection'>")

def orderingPieces (columns : Columns) (o : RowOrder) : Result (List Piece) :=
  (columns.reference o.column).map fun pieces =>
    pieces ++ [.raw (match o.direction with
      | .asc => " ASC"
      | .desc => " DESC")]

/-- A clause that is left out when it has nothing in it. -/
def clause (opening : String) (separator : String) (items : List (List Piece)) : List Piece :=
  if items.isEmpty then [] else Piece.raw opening :: [Piece.raw separator].intercalate items

/-- A number in the clause that cuts out a part of the rows. -/
def countSlot (i : Int) : Piece := .slot "param" (.int i)

/-- The part of the rows that is kept. One of the databases wants both numbers if there is one. -/
def limitPieces (dialect : Dialect) (limit offset : Option Int) : List Piece :=
  match dialect, limit, offset with
  | _, none, none => []
  | .generic, some count, none => [.raw "\n LIMIT ", countSlot count]
  | .generic, none, some first => [.raw "\n LIMIT -1 OFFSET ", countSlot first]
  | .sqlite, some count, none => [.raw "\n LIMIT ", countSlot count, .raw " OFFSET ", countSlot 0]
  | .sqlite, none, some first =>
    [.raw "\n LIMIT ", .fixed (.int (-1)), .raw " OFFSET ", countSlot first]
  | _, some count, some first =>
    [.raw "\n LIMIT ", countSlot count, .raw " OFFSET ", countSlot first]

/-- One layer of work over a source whose text and columns are given. -/
def layerPieces (dialect : Dialect) (inner : Bool) (source : List Piece) (columns : Columns)
    (layer : Layer) : Result (List Piece) := do
  let projections ← every (projectionPieces columns) layer.projections
  let conditions ← every (predicatePieces dialect columns) layer.predicates
  let groups ← every columns.reference layer.groupBy
  let orders ← every (orderingPieces columns) layer.orderBy
  let selection ←
    if layer.projections.isEmpty then columns.everything inner else pure (commas projections)
  return [Piece.raw "SELECT "] ++ selection ++ [.raw " \nFROM "] ++ source ++
    clause " \nWHERE " " AND " conditions ++ clause " GROUP BY " ", " groups ++
    clause " ORDER BY " ", " orders ++ limitPieces dialect layer.limit layer.offset

/-- The pieces of a query. -/
def queryPieces (dialect : Dialect) (inner : Bool) : Query → Result (List Piece)
  | .scan table layer => layerPieces dialect inner [.name table] .table layer
  | .derived source layer =>
    match queryPieces dialect true source with
    | .error fault => .error fault
    | .ok pieces =>
      layerPieces dialect inner ([Piece.raw "("] ++ pieces ++ [.raw ") AS s"])
        (selected source) layer

end Olap.Sql
