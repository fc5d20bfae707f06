/-
Results of aggregations. A result has the summary of its slice and, if levels were drilled down to,
one row for each of their members; with a limit it also has the remainder, which is what the rows
leave out of the summary. Summaries and remainders are keyed by operators, rows by references and
by the names of aggregated fields.
-/

import Olap.Compile

namespace Olap

/-- The result of an aggregation. -/
structure Aggregation where
  cube : Option Cube
  measure : Option String
  summary : Row
  options : AggregateOptions
  cuts : List Cut
  rows : List Row
  remainder : Row

/-- A row of a result as a row of a table about one dimension. -/
structure TableRow where
  key : Value
  label : Value
  path : List Value
  /-- There is no level below. -/
  isBase : Bool
  record : Row

namespace Aggregation

/-- A result of nothing. -/
def unbound : Aggregation :=
  { cube := none, measure := none, summary := [], options := .unset, cuts := [], rows := []
    remainder := [] }

def toRecord (a : Aggregation) : Row :=
  (a.measure.elim [] fun measure => [("measure", .text measure)]) ++
    [("summary", .record a.summary)] ++
    (if a.remainder.isEmpty then [] else [("remainder", .record a.remainder)]) ++
    [("rows", .list (a.rows.map .record)), ("options", .record a.options.toRecord),
      ("cuts", .list (a.cuts.map fun c => .record c.toRecord))]

def quoted (a : Aggregation) : String :=
  "<AggregationResult(measure='" ++ shownName a.measure ++ "', summary=" ++
    (Datum.record a.summary : Value).quoted ++ ", rows=" ++ toString a.rows.length ++ ")>"

/-! ### Rows of tables -/

/-- The path of the last cut of a list by a point of a dimension. -/
def cutPath (dimension : String) (cuts : List Cut) : List Value :=
  cuts.foldl (fun path cut =>
    match cut with
    | .point name _ other => if name == dimension then other else path
    | _ => path) []

/-- The path of a row: the row's own keys, keys of a cut where the row has none, and the wildcard
where neither is known. -/
def rowPath (record : Row) : List String → List Value → List Value
  | [], _ => []
  | key :: keys, cut =>
    ((Record.get? record key).getD (cut.headD .wildcard)) :: rowPath record keys cut.tail

/-- The rows of a result that is drilled down by a dimension, told by the last level that was asked
for. -/
def tableRows (a : Aggregation) (dimension hierarchy : Description) : Result (List TableRow) := do
  let some cube := a.cube | fail .unboundResult
  let d ← cube.dimensionOf dimension
  let h ← d.hierarchy hierarchy
  let some last := a.options.levels.getLast? | fail (.notDrilledBy d.name)
  if a.options.rowDimension != some d.name then fail (.notDrilledBy d.name)
  let level ← h.level (.text last)
  let depth ← h.levelIndex (.text last)
  let keys ← h.keys (some (depth + 1))
  let key ← level.keyAttribute
  let label ← level.labelAttributeOf
  let path := cutPath d.name a.cuts
  return a.rows.map fun record =>
    { key := (Record.get? record key.refText).getD .null
      label := (Record.get? record label.refText).getD .null
      path := rowPath record (keys.map shownName) path
      isBase := depth + 1 == h.levels.length
      record }

end Aggregation

end Olap
