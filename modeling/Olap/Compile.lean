/-
Compiling questions about a cube into queries. Logical references become physical columns, the cuts
of a slice become conditions, and options become grouping, order and pages. Selected columns are
named by the references, aggregates by measure and operator, so that rows are read without knowing
anything physical. Every compiled query is about the facts that all cuts agree on.
-/

import Olap.Cut
import Olap.Options.Described
import Olap.Query

namespace Olap

/-- The name of the field that counts records. -/
def recordCount : String := "record_count"

/-- The name of the field of an aggregated measure. -/
def aggregatedName (measure operator : String) : String := measure ++ "_" ++ operator

/-- The name of an aggregated field for an operator that has to be known. -/
def aggregatedFieldName (measure operator : Description) : Result String :=
  match operator.lookupKey with
  | .error fault => .error fault
  | .ok key =>
    match key.filter (Record.contains aggregationOperators) with
    | some name => .ok (aggregatedName measure.shown name)
    | none => fail (.unknownOperator operator.shown)

/-- Compiles questions about one cube, whose facts are in one table. -/
structure Compiler where
  cube : Cube
  table : String
deriving Inhabited

/-- The table of the facts: the given one, or the cube's own, or the one of the cube's name. -/
def Compiler.of (cube : Cube) (table : Option String) : Compiler :=
  { cube
    table := ((table.filter (!·.isEmpty)).or (cube.factTable.filter (!·.isEmpty))).getD cube.name }

namespace Compiler

def column (c : Compiler) (a : Attribute) : String := c.cube.columnName a.refText

/-- The column of an attribute under the attribute's reference. -/
def projection (c : Compiler) (a : Attribute) : Projection :=
  { expression := .column (c.column a), name := a.refText }

/-! ### Cuts -/

/-- One condition for each value of a path; the wildcard makes none. -/
def pathConditions (c : Compiler) : List Level → List Value → Result (List Predicate)
  | level :: levels, value :: path =>
    match value with
    | .wildcard => pathConditions c levels path
    | value => do
      let key ← level.keyAttribute
      let rest ← pathConditions c levels path
      return .equals (c.column key) value :: rest
  | _, _ => .ok []

/-- The conditions of a path, which must not be longer than its hierarchy. -/
def pathPredicates (c : Compiler) (h : Hierarchy) (path : List Value) :
    Result (List Predicate) := do
  let levels ← h.levelsForPath path false
  c.pathConditions levels path

/-- The column of the key field of a dimension, which ranges need. -/
def keyFieldColumn (c : Compiler) (d : Dimension) : Result String :=
  match d.keyField with
  | some field =>
    if field.isEmpty then fail (.noKeyField d.name)
    else .ok (c.cube.columnName (d.name ++ "." ++ field))
  | none => fail (.noKeyField d.name)

/-- The conditions of a cut. -/
def cutPredicates (c : Compiler) (cut : Cut) : Result (List Predicate) :=
  match cut with
  | .point _ _ path => do
    let (_, h) ← cut.resolve c.cube
    c.pathPredicates h path
  | .range dimension _ low high => do
    let d ← c.cube.dimension dimension
    let column ← c.keyFieldColumn d
    return [.between column low high]
  | .set dimension .. => fail (.setCut dimension)
  | .bare .. => fail (.unknownCut cut.typeText)

/-- The conditions of all cuts together. -/
def predicates (c : Compiler) : List Cut → Result (List Predicate)
  | [] => .ok []
  | cut :: rest => do
    let first ← c.cutPredicates cut
    let others ← predicates c rest
    return first ++ others

/-! ### Order and pages -/

/-- The column to order by: a field the query makes as it is, any other name as the reference of
an attribute. -/
def orderColumn (c : Compiler) (name : String) (generated : List String) : Result String :=
  if generated.contains name then .ok name
  else
    match c.cube.attributeWithRef name with
    | .ok a => .ok (c.column a)
    | .error (.problem p) =>
      if p.kind = .noSuchAttribute then fail (.unknownOrder name c.cube.name)
      else .error (.problem p)
    | .error fault => .error fault

/-- The order that is asked for, or else the usual one. -/
def orderings (c : Compiler) (o : QueryOptions) (generated usual : List String) :
    Result (List RowOrder) :=
  match o.orderBy.filter (!·.isEmpty) with
  | some name => (c.orderColumn name generated).map fun column => [⟨column, o.direction⟩]
  | none => .ok (usual.map (⟨·, o.direction⟩))

/-! ### Aggregations -/

/-- The aggregate of a column by an operator; what is no operator aggregates nothing. -/
def aggregate? (operator : String) : Option Aggregator :=
  (Record.get? aggregationOperators operator).bind Aggregator.ofName?

/-- One selected aggregate for each operator, and the number of records. -/
def aggregateProjections (c : Compiler) (measure : Attribute) (operators : List String) :
    List Projection :=
  (operators.filterMap fun operator =>
    (aggregate? operator).map fun function =>
      { expression := .aggregate function (some (c.column measure))
        name := aggregatedName (shownName measure.name) operator }) ++
    [{ expression := .aggregate .count none, name := recordCount }]

/-- The attributes of several levels of a dimension. -/
def levelAttributes (d : Dimension) : List String → Result (List Attribute)
  | [] => .ok []
  | name :: rest => do
    let level ← d.level (.text name)
    let others ← levelAttributes d rest
    return level.attributes ++ others

/-- The attributes of all levels that rows are drilled down to. -/
def rowAttributes (c : Compiler) (o : AggregateOptions) : Result (List Attribute) :=
  if !o.isDrillDown then .ok []
  else do
    let d ← c.cube.dimension (o.rowDimension.getD "")
    levelAttributes d o.levels

/-- The aggregates of all facts that meet some conditions. -/
def summaryLayer (c : Compiler) (measure : Attribute) (operators : List String)
    (conditions : List Predicate) : Layer :=
  { Layer.whole with
    projections := c.aggregateProjections measure operators
    predicates := conditions, label := "summary" }

/-- The aggregate of the whole slice. -/
def summary (c : Compiler) (cuts : List Cut) (measure : Description) (o : AggregateOptions) :
    Result Query := do
  let measure ← c.cube.measure measure
  let conditions ← c.predicates cuts
  return .scan c.table (c.summaryLayer measure o.operators conditions)

/-- The rows ranked highest, or lowest, by one of the aggregates. -/
def rankLimit (measure : Attribute) (o : AggregateOptions) (rows : Query) : Query :=
  .derived rows
    { Layer.whole with
      orderBy := [⟨aggregatedName (shownName measure.name) o.rankedBy, o.limitDirection⟩]
      limit := o.limitRank, label := "drill" }

/-- The aggregates of the facts that meet some conditions, grouped by attributes. -/
def groupedLayer (c : Compiler) (measure : Attribute) (o : AggregateOptions)
    (attributes : List Attribute) (conditions : List Predicate) (order : List RowOrder) : Layer :=
  { projections := c.aggregateProjections measure o.operators ++ attributes.map c.projection
    predicates := conditions, groupBy := attributes.map c.column
    orderBy := order, limit := o.limitRows, offset := o.offset, label := "drill" }

/-- The aggregates grouped by the levels that are drilled down to, without a limit. -/
def grouped (c : Compiler) (cuts : List Cut) (measure : Attribute) (o : AggregateOptions) :
    Result Query := do
  let aggregates := c.aggregateProjections measure o.operators
  let attributes ← c.rowAttributes o
  let conditions ← c.predicates cuts
  let order ← c.orderings o.toQueryOptions (aggregates.map (·.name)) (attributes.map c.column)
  return .scan c.table (c.groupedLayer measure o attributes conditions order)

/-- The rows of a drill-down, if one is asked for. -/
def drill (c : Compiler) (cuts : List Cut) (measure : Description) (o : AggregateOptions) :
    Result (Option Query) :=
  if !o.isDrillDown then .ok none
  else do
    let measure ← c.cube.measure measure
    let rows ← c.grouped cuts measure o
    return some (if o.hasLimit then rankLimit measure o rows else rows)

/-! ### Facts -/

/-- What a fact is told by: its key and all attributes. -/
def factProjections (c : Compiler) : List Projection :=
  { expression := .column c.cube.keyField, name := c.cube.keyField } ::
    c.cube.factAttributes.map c.projection

/-- The facts of a slice. -/
def facts (c : Compiler) (cuts : List Cut) (o : QueryOptions) : Result Query := do
  let conditions ← c.predicates cuts
  let order ← c.orderings o [] []
  return .scan c.table
    { projections := c.factProjections, predicates := conditions, groupBy := []
      orderBy := order, limit := o.limitRows, offset := o.offset, label := "facts" }

/-- The fact of a key. -/
def fact (c : Compiler) (key : Value) : Query :=
  .scan c.table
    { Layer.whole with
      projections := c.factProjections, predicates := [.equals c.cube.keyField key]
      limit := some 1, label := "fact" }

/-! ### Members of dimensions -/

/-- The place of the first wildcard of a path, or the length of a path without any. -/
def firstOpen (path : List Value) : Nat :=
  (path.takeWhile fun value => match value with
    | .wildcard => false
    | _ => true).length

/-- The distinct values of the level after a path; levels from the first wildcard of the path on
are listed as well. -/
def values (c : Compiler) (dimension : Description) (path : Value) (cuts : List Cut)
    (o : QueryOptions) (hierarchy : Description) : Result Query := do
  let d ← c.cube.dimensionOf dimension
  let h ← d.hierarchy hierarchy
  let path ← normalizePath path
  let some next := ← h.nextLevel path | fail (.basePath path h.name d.name)
  let conditions ← c.predicates cuts
  let pathConditions ← c.pathPredicates h path
  let nextKey := c.column (← next.keyAttribute)
  let levels := (h.levels.take (path.length + 1)).drop (firstOpen path)
  let attributes := levels.flatMap (·.attributes)
  let groups := attributes.map c.column
  let order ← c.orderings o [] [nextKey]
  return .scan c.table
    { projections := attributes.map c.projection
      predicates := conditions ++ pathConditions ++ [.present nextKey], groupBy := groups
      orderBy := order, limit := o.limitRows, offset := o.offset, label := "dimension_values" }

/-- What is known about the member at a path, from one of its facts. -/
def detail (c : Compiler) (dimension : Description) (path : Value) (cuts : List Cut)
    (hierarchy : Description) : Result Query := do
  let d ← c.cube.dimensionOf dimension
  let h ← d.hierarchy hierarchy
  let path ← normalizePath path
  let conditions ← c.predicates cuts
  let pathConditions ← c.pathPredicates h path
  return .scan c.table
    { Layer.whole with
      projections := h.attributes.map c.projection
      predicates := conditions ++ pathConditions, limit := some 1
      label := "dimension_detail" }

end Compiler

end Olap
