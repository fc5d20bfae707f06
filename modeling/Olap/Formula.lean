/-
Computed fields. Every row of an answer can be given fields that are computed from the fields it
has, one after the other, so that a field may use those before it. How a field is computed is any
function of the row; formulas are the functions that can be written down.
-/

import Olap.Part

namespace Olap

/-- A field that is computed from the other fields of a row. -/
structure ComputedField where
  name : String
  compute : Row → Result Value

namespace ComputedField

/-- Computes the fields of a row one after the other. -/
def extend : List ComputedField → Row → Result Row
  | [], row => .ok row
  | field :: rest, row =>
    match field.compute row with
    | .error fault => .error fault
    | .ok value => extend rest (Record.set row field.name value)

/-- Computes the fields of every row. -/
def extendAll (fields : List ComputedField) : List Row → Result (List Row)
  | [] => .ok []
  | row :: rest =>
    match extend fields row with
    | .error fault => .error fault
    | .ok row => (extendAll fields rest).map (row :: ·)

end ComputedField

namespace Number

/-- The result of a calculation on data, which have to be numbers. -/
def calculate (operation : Number → Number → Except Failure Number) (a b : Value) :
    Result Value :=
  match of? a, of? b with
  | some m, some n =>
    match operation m n with
    | .ok result => .ok result.value
    | .error failure => .error (.outside failure.outside)
  | _, _ => .error (.outside .wrongType)

end Number

namespace Datum

/-- The sum of numbers; of texts or lists it is the one after the other. -/
def plus (a b : Value) : Result Value :=
  match a, b with
  | .list xs, .list ys => .ok (.list (xs ++ ys))
  | a, b =>
    match a.text?, b.text? with
    | some s, some t => .ok (.text (s ++ t))
    | _, _ => Number.calculate Number.add a b

def minus : Value → Value → Result Value := Number.calculate Number.sub

def dividedBy : Value → Value → Result Value := Number.calculate Number.div

end Datum

/-- A function of a row that is written down. Names stand for fields of the row. -/
inductive Formula
  | field (name : String)
  | constant (value : Value)
  | sum (left right : String)
  | difference (left right : String)
  | quotient (left right : String)
  /-- How many fields the row has. -/
  | fieldCount

namespace Formula

/-- The value of a field that has to be there. -/
def valueOf (row : Row) (name : String) : Result Value :=
  match Record.get? row name with
  | some value => .ok value
  | none => .error (.outside .missingKey)

/-- Combines two fields. -/
def combine (operation : Value → Value → Result Value) (row : Row) (left right : String) :
    Result Value := do
  let a ← valueOf row left
  let b ← valueOf row right
  operation a b

def eval (formula : Formula) (row : Row) : Result Value :=
  match formula with
  | field name => valueOf row name
  | constant value => .ok value
  | sum left right => combine Datum.plus row left right
  | difference left right => combine Datum.minus row left right
  | quotient left right => combine Datum.dividedBy row left right
  | fieldCount => .ok (.int row.length)

/-- The formula that a function word and its arguments stand for. -/
def ofCall? (function : String) (arguments : List Description) : Option Formula :=
  match function, arguments with
  | "get", [name] => name.text?.map field
  | "const", [value] => some (constant (Description.toValue value))
  | "add", [left, right] => left.text?.bind fun l => right.text?.map (sum l)
  | "sub", [left, right] => left.text?.bind fun l => right.text?.map (difference l)
  | "div", [left, right] => left.text?.bind fun l => right.text?.map (quotient l)
  | "count", _ => some fieldCount
  | _, _ => none

/-- The formula of a record with a function word and a list of arguments. -/
def ofDescription? (d : Description) : Option Formula :=
  match d with
  | .record fields =>
    match (Record.get? fields "fn").bind Datum.text?, Record.get? fields "args" with
    | some function, some (.list arguments) => ofCall? function arguments
    | some function, none => ofCall? function []
    | _, _ => none
  | _ => none

end Formula

namespace ComputedField

/-- The computed fields of a record, each of which has to be a formula. -/
def ofFields : Fields Part → Result (List ComputedField)
  | [] => .ok []
  | (name, d) :: rest =>
    match Formula.ofDescription? d with
    | some formula => (ofFields rest).map (⟨name, formula.eval⟩ :: ·)
    | none => fail (.computedNotFunction name)

/-- The computed fields that a description gives; whatever counts as false gives none. -/
def ofDescription (d : Description) : Result (List ComputedField) :=
  if !d.isTruthy then .ok []
  else
    match d with
    | .record fields => ofFields fields
    | _ => fail .computedNotRecord

end ComputedField

end Olap
