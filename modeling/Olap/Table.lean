/-
Tables, and what queries mean. A table has named columns and a finite list of rows. A query over
tables is answered clause by clause: the rows that meet all conditions are kept, grouped, one row of
selected columns is made of each group, the outcome is ordered, and a part of it is cut out.

Nothing is equal to an absent value and nothing lies in a range with one, but absent values make a
group of their own. Aggregates leave absent values out, and of no value at all they are absent, apart
from the count, which is zero. A query with aggregates and without groups makes one row of all rows,
be there any or none.

What an order leaves open follows from how the rows came: groups come in the order of their keys, and
rows that an order does not tell apart stay as they came.
-/

import Olap.Cell
import Olap.Query

namespace Olap

/-! ### Rows and conditions -/

namespace Row

/-- The value of a column. What is no column stands for its own name. -/
def cell (row : Row) (column : String) : Value := (Record.get? row column).getD (.text column)

def key (columns : List String) (row : Row) : List Value := columns.map row.cell

end Row

namespace Predicate

/-- Whether a row of columns of given types meets a condition. -/
def holds (types : ColumnTypes) (row : Row) : Predicate → Bool
  | equals column .null => Cell.isAbsent (row.cell column)
  | equals column value =>
    Cell.equals (row.cell column) (Cell.fitTo (Record.get? types column) value)
  | between column low high =>
    let type := Record.get? types column
    Cell.atMost (Cell.fitTo type low) (row.cell column) &&
      Cell.atMost (row.cell column) (Cell.fitTo type high)
  | present column => !Cell.isAbsent (row.cell column)
  | other _ => false

end Predicate

/-- The rows that meet all conditions. -/
def selectRows (types : ColumnTypes) (predicates : List Predicate) (rows : List Row) : List Row :=
  rows.filter fun row => predicates.all (Predicate.holds types row)

/-! ### Groups -/

/-- The keys of a list without those that are the same as an earlier one. -/
def distinctKeys : List (List Value) → List (List Value)
  | [] => []
  | key :: rest => key :: (distinctKeys rest).filter fun other => !Cell.sameKey key other

/-- The groups of rows with the same key, in the order of their keys. -/
def groupRows (directions : List Direction) (columns : List String) (rows : List Row) :
    List (List Row) :=
  let keys := (distinctKeys (rows.map (Row.key columns))).mergeSort
    fun a b => !Cell.lessKey directions b a
  keys.map fun key => rows.filter fun row => Cell.sameKey key (row.key columns)

/-! ### Aggregates -/

/-- A sum that is being made: exact as long as all numbers are whole, and from then on a double with
what its roundings have lost so far. -/
inductive RunningSum
  | exact (sum : Int)
  | rounded (sum lost : Float)

namespace RunningSum

/-- The double nearest to a number; an integer beyond all doubles is infinite. -/
def floatOf (n : Number) : Float :=
  match n.toFloat with
  | .ok x => x
  | .error _ => 1.0 / 0.0

/-- Adds to a double. The smaller one of two doubles is the one that loses digits. -/
def addFloat (sum lost x : Float) : RunningSum :=
  let next := sum + x
  if sum.abs > x.abs then .rounded next (lost + ((sum - next) + x))
  else .rounded next (lost + ((x - next) + sum))

def add : RunningSum → Number → RunningSum
  | exact sum, .int i => exact (sum + i)
  | exact sum, .float x => addFloat (floatOf (.int sum)) 0.0 x
  | rounded sum lost, n => addFloat sum lost (floatOf n)

def toFloat : RunningSum → Float
  | exact sum => floatOf (.int sum)
  | rounded sum lost => if lost.isFinite then sum + lost else sum

def value : RunningSum → Value
  | exact sum => .int sum
  | rounded sum lost => .float (rounded sum lost).toFloat

end RunningSum

namespace Aggregator

/-- The number that a value counts as. A text that is no numeral counts as the numeral it begins
with, or as a zero. -/
def summand (value : Value) : Number :=
  match value with
  | .text s => (Numeral.read? s).getD (.float (Numeral.leading s))
  | value => (Number.of? value).getD (.float 0.0)

/-- The sum of values. -/
def total (values : List Value) : RunningSum :=
  (values.map summand).foldl RunningSum.add (.exact 0)

/-- The mean of values as a double. -/
def mean (values : List Value) : Value :=
  .float ((total values).toFloat / Float.ofNat values.length)

/-- Whether one value goes before another in the choice of an extreme one. -/
def prefers (function : Aggregator) (a b : Value) : Bool :=
  match function with
  | max => Cell.less b a
  | _ => Cell.less a b

/-- The least value, or by another order the greatest. -/
def extreme (before : Value → Value → Bool) : List Value → Value
  | [] => .null
  | value :: rest => rest.foldl (fun best value => if before value best then value else best) value

/-- The aggregate of values, none of which is absent. -/
def ofPresent (function : Aggregator) (values : List Value) : Value :=
  match function with
  | count => .int values.length
  | sum => if values.isEmpty then .null else (total values).value
  | avg => if values.isEmpty then .null else mean values
  | min | max => extreme function.prefers values

/-- The aggregate of values, absent ones left out. -/
def ofValues (function : Aggregator) (values : List Value) : Value :=
  function.ofPresent (values.filter (!Cell.isAbsent ·))

end Aggregator

namespace Expression

/-- The value of an expression for a group of rows, one of which stands for the group. An aggregate
without a column is about as many ones as there are rows. -/
def ofGroup (rows : List Row) (standing : Option Row) : Expression → Value
  | column name => (standing.map (Row.cell · name)).getD .null
  | aggregate function (some name) => function.ofValues (rows.map (Row.cell · name))
  | aggregate function none => function.ofValues (rows.map fun _ => .int 1)

/-- The column and the direction of an extreme value. -/
def extreme? : Expression → Option (Aggregator × String)
  | aggregate .min (some name) => some (.min, name)
  | aggregate .max (some name) => some (.max, name)
  | _ => none

end Expression

/-! ### Queries -/

namespace Layer

/-- Directions in which the keys of groups come: those of the order, when it has as many terms as
there are columns to group by. -/
def groupDirections (layer : Layer) : List Direction :=
  if layer.orderBy.length = layer.groupBy.length then layer.orderBy.map (·.direction) else []

/-- The groups that make one row of the outcome each. -/
def groups (layer : Layer) (rows : List Row) : List (List Row) :=
  if !layer.groupBy.isEmpty then groupRows layer.groupDirections layer.groupBy rows
  else if layer.projections.any (·.expression.isAggregate) then [rows]
  else rows.map ([·])

/-- The extreme value that is asked for last. -/
def lastExtreme? (layer : Layer) : Option (Aggregator × String) :=
  ((layer.projections.map (·.expression)).eraseDups.filterMap Expression.extreme?).getLast?

/-- The first row with an extreme value in a column, or the last row when the column has none. -/
def extremeRow? (function : Aggregator) (column : String) (group : List Row) : Option Row :=
  match group.filter fun row => !Cell.isAbsent (row.cell column) with
  | [] => group.getLast?
  | row :: rest =>
    some (rest.foldl (fun best row =>
      if function.prefers (row.cell column) (best.cell column) then row else best) row)

/-- The row that stands for a group where a single value is asked for: one with the extreme value
when there is one, and else the first. -/
def standing? (layer : Layer) (group : List Row) : Option Row :=
  match layer.lastExtreme? with
  | some (function, column) => extremeRow? function column group
  | none => group.head?

/-- The row of the outcome that a group makes; without a selection it has all columns. -/
def project (layer : Layer) (group : List Row) : Row :=
  if layer.projections.isEmpty then group.head?.getD []
  else
    let standing := layer.standing? group
    layer.projections.map fun p => (p.name, p.expression.ofGroup group standing)

/-- The value that a row of the outcome is ordered by. Over a table the name of a selected column
goes before the name of a column of the table; over another query a name is a column of that
query. -/
def orderValue (layer : Layer) (derived : Bool) (group : List Row) (column : String) : Value :=
  let standing := layer.standing? group
  match (if derived then none else layer.projections.find? (·.name == column)) with
  | some p => p.expression.ofGroup group standing
  | none => (Expression.column column).ofGroup group standing

/-- Whether the first values put one row before another: each column counts only when those
before it are the same. -/
def before : List (Direction × Value × Value) → Bool
  | [] => false
  | (direction, a, b) :: rest =>
    match direction with
    | .asc => Cell.less a b || (Cell.same a b && before rest)
    | .desc => Cell.less b a || (Cell.same a b && before rest)

/-- Whether one group comes strictly before another. -/
def precedes (layer : Layer) (derived : Bool) (a b : List Row) : Bool :=
  before (layer.orderBy.map fun order =>
    (order.direction, layer.orderValue derived a order.column,
      layer.orderValue derived b order.column))

/-- The part of a list that is kept: a negative limit is none, and a negative offset is zero. -/
def page {β : Type} (limit offset : Option Int) (items : List β) : List β :=
  let rest := items.drop (offset.getD 0).toNat
  match limit with
  | none => rest
  | some count => if count < 0 then rest else rest.take count.toNat

/-- The outcome of a layer of work on rows. -/
def apply (layer : Layer) (derived : Bool) (types : ColumnTypes) (rows : List Row) : List Row :=
  let found := layer.groups (selectRows types layer.predicates rows)
  let ordered := found.mergeSort fun a b => !layer.precedes derived b a
  (page layer.limit layer.offset ordered).map layer.project

/-- The types of the columns of the outcome. -/
def outcomeTypes (layer : Layer) (types : ColumnTypes) : ColumnTypes :=
  if layer.projections.isEmpty then types
  else
    layer.projections.filterMap fun p =>
      match p.expression with
      | .column name => (Record.get? types name).map fun type => (p.name, type)
      | .aggregate .. => none

/-- Whether what is made of rows may depend on how they came: sums and means do, and so does an
outcome without an order of its own. -/
def heedsOrder (layer : Layer) : Bool :=
  layer.orderBy.isEmpty || layer.projections.any fun p =>
    p.expression.function? == some .sum || p.expression.function? == some .avg

/-- A layer without its order, unless the order decides which rows are cut out or how groups come. -/
def withoutOrder (layer : Layer) : Layer :=
  if layer.limit.isNone && layer.offset.isNone && layer.groupBy.isEmpty then
    { layer with orderBy := [] }
  else layer

end Layer

/-- A query without the orders that do not count, from the outside in: those of a query inside
another that does not heed them. -/
def Query.settled (isHeeded : Bool) : Query → Query
  | .scan table layer => .scan table (if isHeeded then layer else layer.withoutOrder)
  | .derived source layer =>
    let layer := if isHeeded then layer else layer.withoutOrder
    .derived (settled layer.heedsOrder source) layer

/-- A layer that groups keeps its order. -/
theorem Layer.withoutOrder_of_groups {layer : Layer} (grouped : layer.groupBy ≠ []) :
    layer.withoutOrder = layer := by
  have filled : layer.groupBy.isEmpty = false := by
    cases columns : layer.groupBy with
    | nil => exact absurd columns grouped
    | cons => rfl
  rw [withoutOrder, filled, Bool.and_false, if_neg Bool.false_ne_true]

theorem Layer.page_all {β : Type} (items : List β) : Layer.page none none items = items := rfl

theorem Query.settled_scan (table : String) (layer : Layer) :
    (Query.scan table layer).settled true = .scan table layer := rfl

/-- A finite table. -/
structure Table where
  name : String
  columns : ColumnTypes
  rows : List Row
deriving Inhabited

/-- Finitely many tables, told apart by name. -/
abbrev Database := List Table

namespace Database

def table? (db : Database) (name : String) : Option Table := db.find? (·.name == name)

/-- The types and rows of the answer to a query, unless it is about a table that is not there. -/
def evaluate? (db : Database) : Query → Option (ColumnTypes × List Row)
  | .scan name layer =>
    (db.table? name).map fun table =>
      (layer.outcomeTypes table.columns, layer.apply false table.columns table.rows)
  | .derived source layer =>
    (db.evaluate? source).map fun (types, rows) =>
      (layer.outcomeTypes types, layer.apply true types rows)

/-- The answer to a query. -/
def answer? (db : Database) (q : Query) : Option (List Row) :=
  (db.evaluate? (q.settled true)).map (·.2)

/-- Puts a table into a database; rows of a table that is there already come first. -/
def add : Database → Table → Database
  | [], table => [table]
  | known :: rest, table =>
    if known.name = table.name then { known with rows := known.rows ++ table.rows } :: rest
    else known :: add rest table

end Database

/-! ### Filling tables -/

namespace Table

/-- The row of a list of values, one for each column. -/
def rowOf (columns : ColumnTypes) (values : List Value) : Row :=
  (columns.zip values).map fun (column, value) => (column.1, Cell.hold column.2 value)

/-- A table with the given columns and rows. -/
def make (name : String) (columns : ColumnTypes) (rows : List (List Value)) : Table :=
  { name, columns, rows := rows.map (rowOf columns) }

/-- A column as a pair of its name and its type. -/
def columnOf (column : Value) : String × ColumnType :=
  match column with
  | .list (.text name :: .text type :: _) => (name, .ofName type)
  | _ => ("", .integer)

def itemsUnder (fields : Row) (key : String) : List Value :=
  match Record.get? fields key with
  | some (.list items) => items
  | _ => []

/-- The table that a record with a name, columns and rows describes. -/
def ofRecord (fields : Row) : Table :=
  make (((Record.get? fields "name").bind (·.text?)).getD "")
    ((itemsUnder fields "columns").map columnOf)
    ((itemsUnder fields "rows").map fun row =>
      match row with
      | .list values => values
      | _ => [])

end Table

end Olap
