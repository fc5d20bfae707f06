/-
Queries as data. A query reads a table, or the rows of another query, and applies one layer of
work to what it reads: it keeps the rows that meet all conditions, groups them, computes the
selected columns, orders the outcome and cuts out a part of it. Columns are physical columns of
what is read; the selected columns are given the names that the rows of the answer are keyed by.

Nothing here knows how a query is written as text or carried out.
-/

import Olap.Number
import Olap.Options.Basic

namespace Olap

/-- The functions that turn a group of rows into one value. -/
inductive Aggregator
  | sum
  | count
  | avg
  | min
  | max
deriving DecidableEq, Repr, Inhabited

namespace Aggregator

def all : List Aggregator := [sum, count, avg, min, max]

def name : Aggregator → String
  | sum => "sum"
  | count => "count"
  | avg => "avg"
  | min => "min"
  | max => "max"

def ofName? (name : String) : Option Aggregator := all.find? (·.name == name)

end Aggregator

/-- What is selected: a column, or an aggregate of a column or of whole rows. -/
inductive Expression
  | column (name : String)
  | aggregate (function : Aggregator) (column : Option String)
deriving DecidableEq, Repr, Inhabited

namespace Expression

def isAggregate : Expression → Bool
  | column _ => false
  | aggregate .. => true

/-- The column that the expression reads. -/
def column? : Expression → Option String
  | column name => some name
  | aggregate _ name => name

/-- The aggregate function, if there is one. -/
def function? : Expression → Option Aggregator
  | column _ => none
  | aggregate function _ => some function

end Expression

/-- A selected expression and the name it gets. -/
structure Projection where
  expression : Expression
  name : String
deriving DecidableEq, Repr, Inhabited

/-- A condition on rows. -/
inductive Predicate
  | equals (column : String) (value : Value)
  /-- Both bounds belong to the range. -/
  | between (column : String) (low high : Value)
  | present (column : String)
  /-- A condition of a kind that nothing is known about. -/
  | other (column : String)
deriving Inhabited

namespace Predicate

def column : Predicate → String
  | equals column _ | between column .. | present column | other column => column

/-- Equality of conditions, values compared by size. -/
def alike : Predicate → Predicate → Bool
  | equals c v, equals d w => c == d && v.alike w
  | between c low high, between d low' high' => c == d && low.alike low' && high.alike high'
  | present c, present d => c == d
  | other c, other d => c == d
  | _, _ => false

end Predicate

/-- A column by which rows are ordered. -/
structure RowOrder where
  column : String
  direction : Direction
deriving DecidableEq, Repr, Inhabited

/-- The work that a query applies to what it reads. Without projections all columns are kept. -/
structure Layer where
  projections : List Projection
  predicates : List Predicate
  groupBy : List String
  orderBy : List RowOrder
  limit : Option Int
  offset : Option Int
  /-- What the query is for; it has no bearing on the answer. -/
  label : String
deriving Inhabited

/-- A layer that keeps everything. -/
def Layer.whole : Layer :=
  { projections := [], predicates := [], groupBy := [], orderBy := [], limit := none
    offset := none, label := "" }

/-- Equality of layers, whatever they are for. -/
def Layer.alike (a b : Layer) : Bool :=
  a.projections == b.projections && a.predicates.length == b.predicates.length &&
    (a.predicates.zip b.predicates).all (fun pair => pair.1.alike pair.2) &&
    a.groupBy == b.groupBy && a.orderBy == b.orderBy && a.limit == b.limit &&
    a.offset == b.offset

/-- A query over a table, or over the rows of another query. -/
inductive Query
  | scan (table : String) (layer : Layer)
  | derived (source : Query) (layer : Layer)
deriving Inhabited

namespace Query

/-- The outermost layer. -/
def layer : Query → Layer
  | scan _ layer | derived _ layer => layer

def isDerived : Query → Bool
  | scan .. => false
  | derived .. => true

def label (q : Query) : String := q.layer.label

/-- What a query is called in messages. -/
def title (q : Query) : String := if q.label.isEmpty then "query" else q.label

def withLabel (label : String) : Query → Query
  | scan table layer => scan table { layer with label }
  | derived source layer => derived source { layer with label }

/-- The keys of the rows of the answer, as far as the query names them. -/
def aliases : Query → List String
  | scan _ layer => layer.projections.map (·.name)
  | derived source layer =>
    if layer.projections.isEmpty then source.aliases else layer.projections.map (·.name)

/-- Equality of queries, whatever they are for. -/
def alike : Query → Query → Bool
  | scan t a, scan u b => t == u && a.alike b
  | derived p a, derived q b => p.alike q && a.alike b
  | _, _ => false

end Query

end Olap
