/-
Kinds of errors. Every error of the library is of one kind, the kinds form families, and a kind
decides what else an error carries: the name that was looked up in vain, or the statement that
failed. An error also has a message and a context, a record that callers may add to.
-/

import Olap.Datum

namespace Olap

/-- The kinds of errors. -/
inductive ErrorKind
  /-- Any error of the library. -/
  | general
  /-- Caused by the user of a query. -/
  | user
  /-- Caused by configuration, model or store. -/
  | internal
  | configuration
  | model
  | notFound
  | noSuchCube
  | noSuchDimension
  | noSuchLevel
  | noSuchHierarchy
  | noSuchAttribute
  | query
  | argument
  /-- A path that goes deeper than its hierarchy. -/
  | depth
  /-- An operator that is not known: a bad query when asked for, a bad configuration when used to
  name a field. -/
  | unknownOperator
  /-- Recognised and not implemented. -/
  | unsupported
  | execution
  | cancelled
deriving DecidableEq, Repr

namespace ErrorKind

def all : List ErrorKind :=
  [general, user, internal, configuration, model, notFound, noSuchCube, noSuchDimension,
    noSuchLevel, noSuchHierarchy, noSuchAttribute, query, argument, depth, unknownOperator,
    unsupported, execution, cancelled]

/-- The kind and all kinds it is a special case of, the most special first. -/
def families : ErrorKind → List ErrorKind
  | general => [general]
  | user => [user, general]
  | internal => [internal, general]
  | configuration => [configuration, internal, general]
  | model => [model, configuration, internal, general]
  | notFound => [notFound, configuration, internal, general]
  | noSuchCube => [noSuchCube, notFound, configuration, internal, general]
  | noSuchDimension => [noSuchDimension, notFound, configuration, internal, general]
  | noSuchLevel => [noSuchLevel, notFound, configuration, internal, general]
  | noSuchHierarchy => [noSuchHierarchy, notFound, configuration, internal, general]
  | noSuchAttribute => [noSuchAttribute, notFound, configuration, internal, general]
  | query => [query, user, general]
  | argument => [argument, query, user, general]
  | depth => [depth, query, user, general]
  | unknownOperator => [unknownOperator, query, user, configuration, internal, general]
  | unsupported => [unsupported, general]
  | execution => [execution, internal, general]
  | cancelled => [cancelled, execution, internal, general]

/-- The code that a kind gives to itself and, unless they have their own, to its special cases. -/
def ownCode? : ErrorKind → Option String
  | user => some "unknown_user_error"
  | internal => some "internal_error"
  | notFound => some "missing_object"
  | query => some "query"
  | depth => some "hierarchy"
  | unsupported => some "unsupported"
  | _ => none

/-- The code under which an error is reported. -/
def code? (kind : ErrorKind) : Option String := kind.families.findSome? ownCode?

/-- What was looked up in vain. -/
def objectType? : ErrorKind → Option String
  | noSuchCube => some "cube"
  | noSuchDimension => some "dimension"
  | noSuchLevel => some "level"
  | noSuchHierarchy => some "hierarchy"
  | noSuchAttribute => some "attribute"
  | _ => none

/-- Errors of a failed look-up carry the name. -/
def isNotFound (kind : ErrorKind) : Bool := kind.families.contains notFound

/-- Errors of a failed statement carry the statement. -/
def isExecution (kind : ErrorKind) : Bool := kind.families.contains execution

end ErrorKind

/-- An error with all that it carries. -/
structure Error where
  kind : ErrorKind
  message : Value
  context : Row
  name : Value
  statement : Value

namespace Error

/-- An error of a failed look-up without a message takes the name for it. -/
def make (kind : ErrorKind) (message name statement : Value) (context : Row) : Error :=
  let message :=
    if kind.isNotFound && !message.isTruthy then
      (if name.isTruthy then name else .text "")
    else message
  { kind, message, context, name, statement }

/-- The error of a kind with the message, the name, the statement and the context of a record. Only
errors of a failed look-up have a name, and only those of a failed statement a statement. -/
def ofRecord? (kind : ErrorKind) (fields : Row) : Option Error :=
  let field (key : String) : Value := (Record.get? fields key).getD .null
  if (Record.contains fields "name" && !kind.isNotFound) ||
      (Record.contains fields "statement" && !kind.isExecution) then none
  else
    let message := (Record.get? fields "message").getD (.text "")
    let context :=
      match field "context" with
      | .record context => context
      | _ => []
    some (make kind message (field "name") (field "statement") context)

def addContext (error : Error) (key : String) (value : Value) : Error :=
  { error with context := Record.set error.context key value }

/-- The message, followed by the context when there is one. -/
def text (error : Error) : String :=
  if error.context.isEmpty then error.message.shown
  else
    let pairs := error.context.map fun field => field.1 ++ "=" ++ field.2.shown
    error.message.shown ++ " (context: " ++ Text.commas pairs ++ ")"

/-- The report on a failed look-up. -/
def report (error : Error) : Row :=
  [("object", error.name), ("message", error.message)] ++
    (match error.kind.objectType? with
      | some type => [("object_type", .text type)]
      | none => [])

end Error

end Olap
