/-
Options of queries: which field orders the rows, in which direction, and which page of them is
wanted. An aggregation also has the operators that are applied, the levels the rows are drilled
down to, and a limit that keeps the rows ranked highest by one aggregation.

Here are the options as accepted and what they mean. Texts are kept as they were given, so that
accepted options can be shown and given again, together with the names of the options given.
-/

import Olap.Number
import Olap.Text.Case

namespace Olap

/-- An aggregation operator and the name of the function that a database has for it. -/
def aggregationOperators : List (String × String) :=
  [("sum", "sum"), ("count", "count"), ("average", "avg"), ("min", "min"), ("max", "max")]

/-- Words for the direction of an order. -/
def orderWords : List (String × Direction) :=
  [("asc", .asc), ("ascending", .asc), ("desc", .desc), ("descending", .desc)]

/-- Words for the direction of a limit. -/
def limitWords : List (String × Direction) :=
  [("asc", .asc), ("ascending", .asc), ("bottom", .asc),
    ("desc", .desc), ("descending", .desc), ("top", .desc)]

/-- Options that all queries have. -/
structure QueryOptions where
  orderBy : Option String
  orderDirection : Option String
  page : Option Int
  pageSize : Option Int
  /-- The options that were given, even if as nothing. -/
  given : List String
deriving DecidableEq, Repr, Inhabited

/-- Options of an aggregation. -/
structure AggregateOptions extends QueryOptions where
  rowDimension : Option String
  rowLevels : Option (List String)
  aggregations : Option (List String)
  limit : Option String
  limitValue : Option Int
  limitSort : Option String
  limitAggregation : Option String
deriving DecidableEq, Repr, Inhabited

/-- A text option, if it is set. -/
def textOption (key : String) (value : Option String) : Row :=
  value.elim [] fun value => [(key, .text value)]

def intOption (key : String) (value : Option Int) : Row :=
  value.elim [] fun value => [(key, .int value)]

def namesOption (key : String) (value : Option (List String)) : Row :=
  value.elim [] fun names => [(key, .list (names.map .text))]

/-- Whether an option is set to something: an empty text is not. -/
def isSet (value : Option String) : Bool := value.any (!·.isEmpty)

/-- The direction that a word means, whatever its case; without a word it is ascending. -/
def directionOf (words : List (String × Direction)) (word : Option String) : Direction :=
  match word with
  | none => .asc
  | some word => ((words.find? (·.1 == Text.lower word)).map (·.2)).getD .asc

namespace QueryOptions

/-- No options at all. -/
def unset : QueryOptions := ⟨none, none, none, none, []⟩

def direction (o : QueryOptions) : Direction := directionOf orderWords o.orderDirection

/-- Rows before the wanted page. -/
def offset (o : QueryOptions) : Option Int :=
  o.page.map fun page => page * o.pageSize.getD 0

/-- Rows of a page; without a page there is no bound. -/
def limitRows (o : QueryOptions) : Option Int :=
  o.page.bind fun _ => o.pageSize

/-- The options that are set. -/
def toRecord (o : QueryOptions) : Row :=
  textOption "order_by" o.orderBy ++ textOption "order_direction" o.orderDirection ++
    intOption "page" o.page ++ intOption "page_size" o.pageSize

/-- All options with their values, those not set as nothing. -/
def all (o : QueryOptions) : Row :=
  [("order_by", .ofOption o.orderBy), ("order_direction", .ofOption o.orderDirection),
    ("page", o.page.elim .null .int), ("page_size", o.pageSize.elim .null .int)]

/-- The options that were given. -/
def givenRecord (o : QueryOptions) : Row := o.all.filter fun field => o.given.contains field.1

end QueryOptions

namespace AggregateOptions

def unset : AggregateOptions :=
  { QueryOptions.unset with
    rowDimension := none, rowLevels := none, aggregations := none, limit := none
    limitValue := none, limitSort := none, limitAggregation := none }

/-- The operators that are applied; without a choice it is the sum. -/
def operators (o : AggregateOptions) : List String := o.aggregations.getD ["sum"]

def levels (o : AggregateOptions) : List String := o.rowLevels.getD []

/-- Rows are wanted besides the summary. -/
def isDrillDown (o : AggregateOptions) : Bool := !o.levels.isEmpty

def hasLimit (o : AggregateOptions) : Bool := isSet o.limit

/-- The aggregation by which rows are ranked. -/
def rankedBy (o : AggregateOptions) : String :=
  match o.limitAggregation with
  | some aggregation => if aggregation.isEmpty then "sum" else aggregation
  | none => "sum"

def isTopTen (o : AggregateOptions) : Bool := o.limit == some "top_10"

/-- How many rows the limit keeps. -/
def limitRank (o : AggregateOptions) : Option Int := if o.isTopTen then some 10 else o.limitValue

/-- Which end of the ranking the limit keeps: descending keeps the highest. -/
def limitDirection (o : AggregateOptions) : Direction :=
  if o.isTopTen then .desc else directionOf limitWords o.limitSort

def toRecord (o : AggregateOptions) : Row :=
  o.toQueryOptions.toRecord ++ textOption "row_dimension" o.rowDimension ++
    namesOption "row_levels" o.rowLevels ++ namesOption "aggregations" o.aggregations ++
    textOption "limit" o.limit ++ intOption "limit_value" o.limitValue ++
    textOption "limit_sort" o.limitSort ++ textOption "limit_aggregation" o.limitAggregation

def all (o : AggregateOptions) : Row :=
  o.toQueryOptions.all ++
    [("row_dimension", .ofOption o.rowDimension),
      ("row_levels", o.rowLevels.elim .null fun names => .list (names.map .text)),
      ("aggregations", o.aggregations.elim .null fun names => .list (names.map .text)),
      ("limit", .ofOption o.limit), ("limit_value", o.limitValue.elim .null .int),
      ("limit_sort", .ofOption o.limitSort),
      ("limit_aggregation", .ofOption o.limitAggregation)]

def givenRecord (o : AggregateOptions) : Row :=
  o.all.filter fun field => o.given.contains field.1

end AggregateOptions

end Olap
