/-
Slices. A slice is a cube restricted by an ordered list of cuts, together with the summaries that
have been computed for it. A summary is found again by what the cuts are told apart by, the measure
and the operators; nothing else has a bearing on it. Changing the cuts of a slice forgets its
summaries, and a new slice starts without any.
-/

import Olap.Cut

namespace Olap

/-- What a summary depends on. -/
structure SummaryKey where
  fingerprint : List Value
  measure : Option String
  operators : List String

namespace SummaryKey

/-- Keys are the same when all three parts are; the fingerprints are compared by size. -/
def same (a b : SummaryKey) : Bool :=
  Datum.alikeItems true a.fingerprint b.fingerprint && a.measure == b.measure &&
    a.operators == b.operators

end SummaryKey

/-- Summaries that have been computed. -/
abbrev Summaries := List (SummaryKey × Row)

namespace Summaries

def find? (all : Summaries) (key : SummaryKey) : Option Row :=
  (List.find? (fun entry => entry.1.same key) all).map (·.2)

/-- Stores a summary; a known key keeps its place. -/
def put : Summaries → SummaryKey → Row → Summaries
  | [], key, summary => [(key, summary)]
  | entry :: rest, key, summary =>
    if entry.1.same key then (entry.1, summary) :: rest else entry :: put rest key summary

end Summaries

/-- What is given where a cut is expected: a cut, or a value of some other type. -/
inductive CutArgument
  | cut (c : Cut)
  | other (typeText : String)

def CutArgument.expect : CutArgument → Result Cut
  | cut c => .ok c
  | other typeText => fail (.cutExpected typeText)

/-- A cube restricted by cuts. -/
structure Slice where
  cube : Cube
  cuts : List Cut
  summaries : Summaries

namespace Slice

/-- The slice of some cuts. -/
def ofCuts (cube : Cube) (cuts : List Cut) : Slice := ⟨cube, cuts, []⟩

/-- The slice of the whole cube. -/
def full (cube : Cube) : Slice := ofCuts cube []

/-- The slice of what is given for cuts. -/
def ofArguments (cube : Cube) (arguments : List CutArgument) : Result Slice :=
  (allOf CutArgument.expect arguments).map (ofCuts cube)

/-- A slice of the same cuts. -/
def copy (s : Slice) : Slice := ofCuts s.cube s.cuts

/-- A new slice with one more cut. -/
def cutBy (s : Slice) (argument : CutArgument) : Result Slice :=
  argument.expect.map fun c => ofCuts s.cube (s.cuts ++ [c])

def cutByPoint (s : Slice) (dimension path hierarchy : Description) : Result Slice :=
  (Cut.byPoint dimension path hierarchy).map fun c => ofCuts s.cube (s.cuts ++ [c])

def cutByRange (s : Slice) (dimension low high : Description) : Result Slice :=
  (Cut.byRange dimension low high).map fun c => ofCuts s.cube (s.cuts ++ [c])

def cutBySet (s : Slice) (dimension paths hierarchy : Description) : Result Slice :=
  (Cut.bySet dimension paths hierarchy).map fun c => ofCuts s.cube (s.cuts ++ [c])

/-- The same slice with one more cut. -/
def addCut (s : Slice) (argument : CutArgument) : Result Slice :=
  argument.expect.map fun c => { s with cuts := s.cuts ++ [c], summaries := [] }

/-- Whether a cut is along a dimension that is asked for by name. -/
def isAlong (dimension : Description) (c : Cut) : Bool :=
  dimension.dimensionName.text? == some c.dimension

/-- The same slice without the cuts along a dimension. -/
def removeCuts (s : Slice) (dimension : Description) : Slice :=
  { s with cuts := s.cuts.filter (!isAlong dimension ·), summaries := [] }

def cutsAlong (s : Slice) (dimension : Description) : List Cut := s.cuts.filter (isAlong dimension)

/-- What slices are told apart by. -/
def fingerprint (s : Slice) : Result (List Value) := allOf Cut.fingerprint s.cuts

/-- Whether the fingerprint can be used as a key. -/
def isHashable (s : Slice) : Bool := s.cuts.all Cut.isHashable

/-- The key of a summary of the slice. -/
def summaryKey (s : Slice) (measure : Option String) (operators : List String) :
    Result SummaryKey := do
  let fingerprint ← s.fingerprint
  if !s.isHashable then .error (.outside .wrongType)
  else return { fingerprint, measure, operators }

/-- Whether a summary has been computed and not been forgotten. -/
def isCached (s : Slice) (measure : Option String) (operators : List String) : Result Bool :=
  (s.summaryKey measure operators).map fun key => (s.summaries.find? key).isSome

def toRecord (s : Slice) : Row :=
  [("cube", .text s.cube.name), ("cuts", .list (s.cuts.map fun c => .record c.toRecord))]

def quoted (s : Slice) : String :=
  "<Slice(cube='" ++ s.cube.name ++ "', cuts='" ++ "; ".intercalate (s.cuts.map Cut.shown) ++
    "')>"

end Slice

end Olap
