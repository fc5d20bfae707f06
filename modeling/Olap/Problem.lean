/-
What can go wrong. A problem is a cause with its details; its kind, its message and the name it
concerns follow from it by one function each. Faults of single fields are collected and reported
together. Besides its own problems an operation can end in a failure from outside: a value of a
type that cannot be used as asked, a missing file, a statement that the database refuses.
-/

import Olap.Error
import Olap.Text.Case

namespace Olap

/-- What is wrong with the value of one field. -/
inductive FieldFault
  | stringType
  | intType
  | intParsing
  | intParsingSize
  | intFromFloat
  | finiteNumber
  | boolType
  | boolParsing
  | floatType
  | floatParsing
  | greaterThan
  | extraForbidden
  | missing
  | valueError
  | tooShort
  | dictType
  | listType
  | tupleType
  | modelType
  | frozen
  | noSuchField
deriving DecidableEq, Repr

def FieldFault.code : FieldFault → String
  | stringType => "string_type"
  | intType => "int_type"
  | intParsing => "int_parsing"
  | intParsingSize => "int_parsing_size"
  | intFromFloat => "int_from_float"
  | finiteNumber => "finite_number"
  | boolType => "bool_type"
  | boolParsing => "bool_parsing"
  | floatType => "float_type"
  | floatParsing => "float_parsing"
  | greaterThan => "greater_than"
  | extraForbidden => "extra_forbidden"
  | missing => "missing"
  | valueError => "value_error"
  | tooShort => "too_short"
  | dictType => "dict_type"
  | listType => "list_type"
  | tupleType => "tuple_type"
  | modelType => "model_type"
  | frozen => "frozen_instance"
  | noSuchField => "no_such_attribute"

/-- One step on the way from a description to the faulty value in it. -/
inductive Step
  | field (name : String)
  | index (i : Nat)
deriving DecidableEq, Repr

/-- A fault and where it is. -/
structure Detail where
  location : List Step
  fault : FieldFault
deriving DecidableEq, Repr

/-- The detail seen from one level further out. -/
def Detail.under (step : Step) (detail : Detail) : Detail :=
  { detail with location := step :: detail.location }

/-- Failures that do not come from the library's own rules. -/
inductive Outside
  /-- A value of a type that does not support what is asked of it. -/
  | wrongType
  | missingKey
  | badValue
  | missingMember
  | divisionByZero
  | overflow
  | notImplemented
  /-- Filling in defaults never comes to an end. -/
  | endless
  | missingFile
  | isDirectory
  | malformedJson
  | iniWithoutSection
  | iniMalformed
  | iniRepeatedSection
  | iniRepeatedOption
  | interpolationSyntax
  | interpolationMissing
  | interpolationDepth
  /-- A store failed with a message of its own. -/
  | store (message : String)
  /-- A value has no literal form in SQL. -/
  | sqlLiteral
  /-- Columns of a derived table share a name. -/
  | sqlAmbiguous
  | sqlOperational
  | sqlProgramming
  | sqlInterface
  /-- A number that is no count stands where a count is needed. -/
  | sqlMismatch
  | sqlUnknownDialect
  | sqlAddress
  /-- The database is known, but nothing is there to talk to it. -/
  | missingDriver
deriving DecidableEq, Repr

/-- Failures in words of the layer between stores and databases, which are the ones that it reports
when it can not do something or when a database refuses a statement. -/
def Outside.isOfSql : Outside → Bool
  | sqlLiteral | sqlAmbiguous | sqlOperational | sqlProgramming | sqlInterface | sqlMismatch
  | sqlUnknownDialect | sqlAddress => true
  | _ => false

/-- Why an object could not be made from its description, or a statement not be executed. -/
inductive Reason
  | invalid (details : List Detail)
  | outside (failure : Outside)
deriving DecidableEq, Repr

/-- The causes of errors. -/
inductive Problem
  -- descriptions of objects
  | metadataType (type : String)
  | notCreated (what : String) (reason : Reason)
  | entryNotRecord (kind key type : String)
  | notCollection (kind type : String)
  | attributeEntry (what type : String)
  | attributesInvalid (details : List Detail)
  | levelNeedsAttribute
  | repeatedAttribute (level : Option String)
  | levelAttributeMissing (role wanted : String) (level : Option String)
  | levelEntry (type : String)
  | hierarchyEntry (type : String)
  | hierarchyNeedsLevel (hierarchy : Option String)
  | repeatedLevelInHierarchy (hierarchy : Option String)
  | undefinedLevel (hierarchy level : Option String) (dimension : String)
  | dimensionNeedsName
  | repeatedLevel (dimension : String)
  | repeatedHierarchy (dimension : String)
  | mappingsType (type : String)
  | cubeNeedsName
  | repeatedMeasure (cube : String)
  | detailsConflict (names : List (Option String)) (cube : String)
  | cubeDescriptionNeedsName
  | cubeDescriptionType (type : String)
  | unreadableModel (path : String) (failure : Outside)
  | malformedModel (path : Option String)
  | modelDescriptionType (type : String)
  -- look-ups in dimensions and hierarchies
  | attributeNotInLevel (name : Value) (level : Option String)
  | levelNotInHierarchy (name : Value) (hierarchy : Option String)
  | levelIndexOutside (hierarchy : Option String) (count : Nat) (index : Int)
  | levelNotInDimension (name : Value) (dimension : String)
  | hierarchyNotInDimension (name : Value) (dimension : String)
  | attributeNotInDimension (name : Value) (dimension : String)
  | ambiguousHierarchy (dimension : String) (count : Nat)
  | noHierarchyForLevels (dimension : String)
  | noLevelsForHierarchy (dimension : String)
  | negativeDepth
  | depthTooDeep (depth : Int) (levels : List (Option String)) (hierarchy : Option String)
  | pathTooDeep (path : List Value) (levels : List (Option String)) (hierarchy : Option String)
  | rollupTooDeep (level path : String)
  -- dimensions and fields of cubes and models
  | dimensionType (type : String)
  | dimensionUnregistered (dimension : Option String) (cube : String) (model : Option String)
  | dimensionNotOwn (dimension : String) (model : Option String)
  | cubeUnattached (dimension cube : String)
  | dimensionRepeated (dimension cube : String)
  | dimensionNotHeld (dimension : Value) (cube : String)
  | dimensionUnnamed (cube : String)
  | cubeLacksDimension (name : Value) (cube : String) (suggestion : Option String)
      (available : List String)
  | cubeLacksMeasure (name : Value) (cube : String) (suggestion : Option String)
      (available : List String)
  | cubeLacksDetail (name : Value) (cube : String)
  | cubeLacksAttribute (name : Value) (cube : String)
  | dimensionExists (dimension : String) (model : Option String)
  | modelLacksDimension (name : Value) (model : Option String)
  | dimensionUsed (dimension : String) (cubes : List String)
  | cubeExists (cube : String) (model : Option String)
  | modelLacksCube (name : Value) (model : Option String)
  -- cuts
  | cutNeedsDimension
  | pathNotSequence (value : String)
  | unknownCutType (type : Value)
  -- options
  | unknownDirection (what : String) (value : String)
  | negativePage
  | pageSizeNotPositive
  | pageWithoutSize
  | optionsType (type : String)
  | optionsInvalid (details : List Detail)
  | unknownOperator (operator : String)
  | limitUnsupported (limit : String)
  | unknownLimit (limit : String)
  | levelsWithoutDimension
  | limitWithoutDrill
  | rankWithoutValue
  | negativeLimit
  | limitNotSelected (aggregation : String) (operators : List String)
  -- compiling and writing queries
  | noKeyField (dimension : String)
  | setCut (dimension : String)
  | unknownOrder (field cube : String)
  | basePath (path : List Value) (hierarchy : Option String) (dimension : String)
  | unknownCut (type : String)
  | unknownColumn (name : String)
  | unknownPredicate (type : String)
  -- browsing
  | noStore (cube : String)
  | computedNotRecord
  | computedNotFunction (name : String)
  | noFact (cube key : String) (name : String)
  | noMember (path : List Value) (dimension : String)
  | cutExpected (type : String)
  | unboundResult
  | notDrilledBy (dimension : String)
  -- stores
  | noEngine
  | fetchSize
  | wasCancelled (statement : String)
  | expired (statement : String)
  | statementFailed (label : String) (reason : Reason) (statement : String)
  /-- An error that a store reports itself. -/
  | reported (kind : ErrorKind) (message : String)
  -- configuration and workspaces
  | configUnreadable (path : String) (failure : Outside)
  | configMissing (path : String)
  | configType (type : String)
  | unknownSections (names : List String)
  | configInvalid (details : List Detail)
  | noModel
  | noWorkspaceStore
deriving BEq

/-- How an operation can fail. -/
inductive Fault
  | problem (p : Problem)
  /-- Fields of a description are invalid. -/
  | invalid (details : List Detail)
  | outside (failure : Outside)
deriving BEq

namespace Problem

/-- Names inside brackets; an absent one is written like an absent value. -/
def bracketed (names : List (Option String)) : String :=
  "[" ++ Text.commas (names.map fun name => name.elim "None" Text.quoted) ++ "]"

/-- Values inside brackets. -/
def bracketedPath (path : List Value) : String := (Datum.list path).quoted

/-- The hint at a similar name. -/
def hint (suggestion : Option String) : String :=
  suggestion.elim "" fun name => " Did you mean '" ++ name ++ "'?"

def listed (names : List String) : String :=
  if names.isEmpty then "none" else Text.commas names

/-- A name in single quotes. -/
def named (name : String) : String := "'" ++ name ++ "'"

def namedOr (name : Option String) : String := named (shownName name)

def kind : Problem → ErrorKind
  | metadataType _ | negativeDepth | dimensionType _ | cutNeedsDimension | pathNotSequence _
  | unknownCutType _ | optionsType _ | optionsInvalid _ | computedNotRecord
  | computedNotFunction _ | cutExpected _ | unboundResult | notDrilledBy _ | noEngine
  | fetchSize => .argument
  | notCreated .. | entryNotRecord .. | notCollection .. | attributeEntry ..
  | attributesInvalid _ | levelNeedsAttribute | repeatedAttribute _ | levelAttributeMissing ..
  | levelEntry _ | hierarchyEntry _ | hierarchyNeedsLevel _ | repeatedLevelInHierarchy _
  | undefinedLevel .. | dimensionNeedsName | repeatedLevel _ | repeatedHierarchy _
  | mappingsType _ | cubeNeedsName | repeatedMeasure _ | detailsConflict ..
  | cubeDescriptionNeedsName | cubeDescriptionType _ | unreadableModel .. | malformedModel _
  | modelDescriptionType _ | dimensionRepeated .. | dimensionExists .. | dimensionUsed ..
  | cubeExists .. => .model
  | attributeNotInLevel .. | attributeNotInDimension .. | cubeLacksMeasure ..
  | cubeLacksDetail .. | cubeLacksAttribute .. => .noSuchAttribute
  | levelNotInHierarchy .. | levelNotInDimension .. => .noSuchLevel
  | hierarchyNotInDimension .. => .noSuchHierarchy
  | dimensionUnregistered .. | dimensionNotOwn .. | cubeUnattached .. | dimensionNotHeld ..
  | dimensionUnnamed _ | cubeLacksDimension .. | modelLacksDimension .. => .noSuchDimension
  | modelLacksCube .. => .noSuchCube
  | levelIndexOutside .. | depthTooDeep .. | pathTooDeep .. | rollupTooDeep .. | basePath .. => .depth
  | ambiguousHierarchy .. | noHierarchyForLevels _ | noLevelsForHierarchy _ | noKeyField _
  | noStore _ | configUnreadable .. | configMissing _ | configType _ | unknownSections _
  | configInvalid _ | noModel | noWorkspaceStore => .configuration
  | unknownDirection .. | negativePage | pageSizeNotPositive | pageWithoutSize | unknownLimit _
  | levelsWithoutDimension | limitWithoutDrill | rankWithoutValue | negativeLimit
  | limitNotSelected .. | unknownOrder .. | unknownCut _ | unknownColumn _
  | unknownPredicate _ => .query
  | unknownOperator _ => .unknownOperator
  | limitUnsupported _ | setCut _ => .unsupported
  | noFact .. | noMember .. => .notFound
  | wasCancelled _ | expired _ => .cancelled
  | statementFailed .. => .execution
  | reported kind _ => kind

/-- The message; of a failure from outside it holds nothing but a message of the store itself. -/
def message : Problem → String
  | metadataType type => "Invalid metadata type: " ++ type
  | notCreated what _ => "Failed to create " ++ what
  | entryNotRecord kind key type =>
    "Description of " ++ kind ++ " " ++ named key ++ " should be a dictionary, got " ++ type
  | notCollection kind type =>
    Text.capitalize kind ++ "s must be a list or a mapping, got " ++ type
  | attributeEntry what type =>
    what ++ " must be a string, dict or " ++ what ++ " object, got " ++ type
  | attributesInvalid _ => ""
  | levelNeedsAttribute => "Level must have at least one attribute or a name"
  | repeatedAttribute level => "Level " ++ namedOr level ++ " has duplicate attribute names"
  | levelAttributeMissing role wanted level =>
    role ++ " attribute " ++ named wanted ++ " not found in level " ++ namedOr level ++
      " attributes"
  | levelEntry type => "Levels must be strings, dicts, or Level objects, got " ++ type
  | hierarchyEntry type => "Hierarchies must be dicts or Hierarchy objects, got " ++ type
  | hierarchyNeedsLevel hierarchy =>
    "Hierarchy " ++ namedOr hierarchy ++ " must have at least one level"
  | repeatedLevelInHierarchy hierarchy =>
    "Hierarchy " ++ namedOr hierarchy ++ " has duplicate level names"
  | undefinedLevel hierarchy level dimension =>
    "Hierarchy " ++ namedOr hierarchy ++ " references level " ++ namedOr level ++
      " which is not defined in dimension " ++ named dimension
  | dimensionNeedsName => "Dimension name is required"
  | repeatedLevel dimension => "Dimension " ++ named dimension ++ " has duplicate level names"
  | repeatedHierarchy dimension =>
    "Dimension " ++ named dimension ++ " has duplicate hierarchy names"
  | mappingsType type => "Cube mappings should be a dictionary, got " ++ type
  | cubeNeedsName => "Cube name is required"
  | repeatedMeasure cube => "Cube " ++ named cube ++ " has duplicate measure names"
  | detailsConflict names cube =>
    "Detail attributes have conflicting names with measures: " ++ bracketed names ++
      " in cube " ++ named cube
  | cubeDescriptionNeedsName => "Cube description has no name"
  | cubeDescriptionType type => "Invalid cube description type: " ++ type
  | unreadableModel path _ => "Can not read model description " ++ named path
  | malformedModel path =>
    "Malformed model description" ++ path.elim "" fun path => " " ++ named path
  | modelDescriptionType type => "Model description should be a dictionary, got " ++ type
  | attributeNotInLevel name level =>
    "Attribute " ++ named name.shown ++ " not found in level " ++ namedOr level
  | levelNotInHierarchy name hierarchy =>
    "No level " ++ named name.shown ++ " in hierarchy " ++ namedOr hierarchy
  | levelIndexOutside hierarchy count index =>
    "Hierarchy " ++ namedOr hierarchy ++ " has only " ++ toString count ++
      " levels, asking for level at index " ++ toString index
  | levelNotInDimension name dimension =>
    "No level " ++ named name.shown ++ " in dimension " ++ named dimension
  | hierarchyNotInDimension name dimension =>
    "Hierarchy " ++ named name.shown ++ " not found in dimension " ++ named dimension
  | attributeNotInDimension name dimension =>
    "Unknown attribute " ++ named name.shown ++ " in dimension " ++ named dimension
  | ambiguousHierarchy dimension count =>
    "No default hierarchy specified in dimension " ++ named dimension ++ " and there is more (" ++
      toString count ++ ") than one hierarchy defined"
  | noHierarchyForLevels dimension =>
    "There are no hierarchies in dimension " ++ named dimension ++
      " and there are more than one level"
  | noLevelsForHierarchy dimension =>
    "There are no hierarchies in dimension " ++ named dimension ++
      " and there are no levels to make hierarchy from"
  | negativeDepth => "Depth cannot be negative."
  | depthTooDeep depth levels hierarchy =>
    "Depth " ++ toString depth ++ " is longer than hierarchy levels " ++ bracketed levels ++
      " of hierarchy " ++ namedOr hierarchy
  | pathTooDeep path levels hierarchy =>
    "Path " ++ bracketedPath path ++ " is longer than hierarchy levels " ++ bracketed levels ++
      " of hierarchy " ++ namedOr hierarchy
  | rollupTooDeep level path =>
    "Can not roll-up: level " ++ named level ++ " is deeper than deepest element of path " ++ path
  | dimensionType type => "Invalid dimension type: " ++ type
  | dimensionUnregistered dimension cube model =>
    "There is no dimension " ++ namedOr dimension ++ " for cube " ++ named cube ++ " in model " ++
      namedOr model
  | dimensionNotOwn dimension model =>
    "Dimension " ++ named dimension ++ " is not the one registered in model " ++ namedOr model
  | cubeUnattached dimension cube =>
    "Can not resolve dimension " ++ named dimension ++ ": cube " ++ named cube ++
      " is not attached to a model"
  | dimensionRepeated dimension cube =>
    "Dimension " ++ named dimension ++ " already exists in cube " ++ named cube
  | dimensionNotHeld dimension cube =>
    "Dimension " ++ named dimension.shown ++ " not found in cube " ++ named cube
  | dimensionUnnamed cube =>
    "Requested dimension should not be none (cube " ++ named cube ++ ")"
  | cubeLacksDimension name cube suggestion available =>
    "Cube " ++ named cube ++ " has no dimension " ++ named name.shown ++ "." ++ hint suggestion ++
      " Available dimensions: " ++ listed available
  | cubeLacksMeasure name cube suggestion available =>
    "Cube " ++ named cube ++ " has no measure " ++ named name.shown ++ "." ++ hint suggestion ++
      " Available measures: " ++ listed available
  | cubeLacksDetail name cube =>
    "Cube " ++ named cube ++ " has no detail attribute " ++ named name.shown
  | cubeLacksAttribute name cube =>
    "Cube " ++ named cube ++ " has no attribute " ++ named name.shown
  | dimensionExists dimension model =>
    "Dimension " ++ named dimension ++ " already exists in model " ++ namedOr model
  | modelLacksDimension name model =>
    "Model " ++ namedOr model ++ " has no dimension " ++ named name.shown
  | dimensionUsed dimension cubes =>
    "Dimension " ++ named dimension ++ " is used by cubes " ++ Text.quotedList cubes ++
      " and can not be removed"
  | cubeExists cube model =>
    "Cube " ++ named cube ++ " already exists in model " ++ namedOr model
  | modelLacksCube name model => "Model " ++ namedOr model ++ " has no cube " ++ named name.shown
  | cutNeedsDimension => "Cut requires a dimension"
  | pathNotSequence value => "Path should be a sequence of values, got " ++ value
  | unknownCutType type => "Unknown cut type " ++ named type.shown
  | unknownDirection what value => "Unknown " ++ what ++ " " ++ named value
  | negativePage => "Page must not be negative"
  | pageSizeNotPositive => "Page size must be positive"
  | pageWithoutSize => "page_size is required when page is specified"
  | optionsType type => "Invalid query options type: " ++ type
  | optionsInvalid _ => "Invalid query options"
  | unknownOperator operator => "Unknown aggregation operator " ++ named operator
  | limitUnsupported limit => "Limit by " ++ limit ++ " is not supported"
  | unknownLimit limit => "Unknown limit type " ++ named limit
  | levelsWithoutDimension => "row_levels require row_dimension"
  | limitWithoutDrill => "Limit requires a drill-down (row_levels)"
  | rankWithoutValue => "Limit value for aggregation rank limit not provided"
  | negativeLimit => "Limit value must not be negative"
  | limitNotSelected aggregation operators =>
    "Invalid aggregation " ++ named aggregation ++
      " to limit, it is not one of the selected aggregations " ++ Text.quotedList operators
  | noKeyField dimension =>
    "Dimension " ++ named dimension ++ " has no key field (required for range cuts)"
  | setCut dimension => "Set cuts are not supported (dimension " ++ named dimension ++ ")"
  | unknownOrder field cube =>
    "Unknown field " ++ named field ++ " to order by in cube " ++ named cube
  | basePath path hierarchy dimension =>
    "Path " ++ bracketedPath path ++ " is a base path of hierarchy " ++ namedOr hierarchy ++
      " of dimension " ++ named dimension ++ ", there are no more levels"
  | unknownCut type => "Unknown cut type " ++ type
  | unknownColumn name => "Derived query has no column " ++ named name
  | unknownPredicate type => "Unknown predicate type " ++ type
  | noStore cube => "No data store configured for browser of cube " ++ named cube
  | computedNotRecord =>
    "Computed fields should be a dictionary of field names and functions"
  | computedNotFunction name => "Computed field " ++ named name ++ " is not callable"
  | noFact cube key _ => "Cube " ++ named cube ++ " has no fact with key " ++ key
  | noMember path dimension =>
    "No member at path " ++ bracketedPath path ++ " of dimension " ++ named dimension
  | cutExpected type => "Cut expected, got " ++ type
  | unboundResult => "Aggregation result is not bound to a cube"
  | notDrilledBy dimension => "Result is not drilled down by dimension " ++ named dimension
  | noEngine => "SQL store requires a database URL or an engine"
  | fetchSize => "fetch_size must be positive"
  | wasCancelled _ => "Query was cancelled"
  | expired _ => "Query timeout expired"
  | statementFailed label reason _ =>
    "Execution of " ++ label ++ " failed" ++
      (match reason with
        | .outside (.store message) => ": " ++ message
        | _ => "")
  | reported _ message => message
  | configUnreadable path _ => "Unable to load config " ++ path ++ ". Reason"
  | configMissing path => "Unable to load config " ++ path ++ ": file not found"
  | configType type => "Unknown configuration source type " ++ type
  | unknownSections names => "Unknown configuration sections: " ++ Text.commas names
  | configInvalid _ => "Invalid configuration"
  | noModel => "No model specified for the workspace"
  | noWorkspaceStore => "No store configured for the workspace"

/-- The name that a look-up was for. -/
def subject : Problem → Value
  | attributeNotInLevel name _ | levelNotInHierarchy name _ | levelNotInDimension name _
  | hierarchyNotInDimension name _ | attributeNotInDimension name _ | dimensionNotHeld name _
  | cubeLacksDimension name .. | cubeLacksMeasure name .. | cubeLacksDetail name _
  | cubeLacksAttribute name _ | modelLacksDimension name _ | modelLacksCube name _ => name
  | dimensionUnregistered dimension _ _ => .ofOption dimension
  | dimensionNotOwn dimension _ | cubeUnattached dimension _ => .text dimension
  | noFact _ _ name => .text name
  | noMember _ dimension => .text dimension
  | _ => .null

/-- The statement that failed. -/
def statement? : Problem → Option String
  | wasCancelled statement | expired statement | statementFailed _ _ statement => some statement
  | _ => none

/-- The faults of fields that caused a problem. -/
def details? : Problem → Option (List Detail)
  | notCreated _ (.invalid details) | attributesInvalid details | optionsInvalid details
  | statementFailed _ (.invalid details) _ | configInvalid details => some details
  | _ => none

/-- The failure from outside that caused a problem. -/
def cause? : Problem → Option Outside
  | notCreated _ (.outside failure) | unreadableModel _ failure
  | statementFailed _ (.outside failure) _ | configUnreadable _ failure => some failure
  | malformedModel _ => some .malformedJson
  | _ => none

end Problem

/-- A result, or how it failed. -/
abbrev Result (β : Type) := Except Fault β

/-- Fails with a problem of the library's own. -/
def fail {β : Type} (p : Problem) : Result β := .error (.problem p)

end Olap
