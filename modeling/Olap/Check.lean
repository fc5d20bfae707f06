/-
Checking the fields of a description. All fields are checked and the faults of all of them are
reported together, in the order of the fields; but a problem of the library's own, or a failure
from outside, ends the check at once and wins over faults collected before it. A check is
therefore not a sequence of steps in which a later one may depend on an earlier one's value: it
is combined from the checks of its fields.
-/

import Olap.Problem

namespace Olap

/-- The outcome of checking a part of a description. -/
structure Check (β : Type) where
  outcome : Result (Except (List Detail) β)

namespace Check

variable {α β γ : Type}

def accept (b : β) : Check β := ⟨.ok (.ok b)⟩

def refuse (details : List Detail) : Check β := ⟨.ok (.error details)⟩

/-- A single fault of the value itself. -/
def flaw (fault : FieldFault) : Check β := refuse [⟨[], fault⟩]

/-- A failure that ends the check. -/
def abort (fault : Fault) : Check β := ⟨.error fault⟩

def map (f : β → γ) (check : Check β) : Check γ := ⟨check.outcome.map (·.map f)⟩

/-- Both checks together: a failure of the first ends the check, else the second is made as well
and the faults of both are kept. -/
def both (first : Check (β → γ)) (second : Unit → Check β) : Check γ :=
  ⟨match first.outcome with
    | .error fault => .error fault
    | .ok f =>
      match (second ()).outcome with
      | .error fault => .error fault
      | .ok b =>
        match f, b with
        | .ok f, .ok b => .ok (.ok (f b))
        | .error details, .ok _ => .ok (.error details)
        | .ok _, .error more => .ok (.error more)
        | .error details, .error more => .ok (.error (details ++ more))⟩

instance : Applicative Check where
  pure := accept
  map := map
  seq := both

/-- A check that needs a checked value to go on. -/
def thenCheck (check : Check β) (next : β → Check γ) : Check γ :=
  match check.outcome with
  | .error fault => abort fault
  | .ok (.error details) => refuse details
  | .ok (.ok b) => next b

/-- The faults as seen from one level further out. -/
def under (step : Step) (check : Check β) : Check β :=
  ⟨check.outcome.map fun
    | .ok b => .ok b
    | .error details => .error (details.map (Detail.under step))⟩

/-- A finished attempt as a part of a larger check: its faults are collected like others. -/
def ofResult : Result β → Check β
  | .ok b => accept b
  | .error (.invalid details) => refuse details
  | .error fault => abort fault

/-- The result of a whole check. -/
def result (check : Check β) : Result β :=
  match check.outcome with
  | .error fault => .error fault
  | .ok (.error details) => .error (.invalid details)
  | .ok (.ok b) => .ok b

/-- Checks every item, each fault located by the item's index. -/
def eachFrom (f : α → Check β) : Nat → List α → Check (List β)
  | _, [] => accept []
  | i, item :: rest => List.cons <$> (f item).under (.index i) <*> eachFrom f (i + 1) rest

def each (f : α → Check β) (items : List α) : Check (List β) := eachFrom f 0 items

/-- Checks every field of a record, each fault located by its key. -/
def eachField (f : α → Check β) : List (String × α) → Check (List (String × β))
  | [] => accept []
  | (key, value) :: rest =>
    (fun b more => (key, b) :: more) <$> (f value).under (.field key) <*> eachField f rest

end Check

/-- The spelling of a field that a description uses: the first of the allowed ones it has. -/
def usedKey? {β : Type} (spellings : List String) (fields : List (String × β)) : Option String :=
  spellings.find? (Record.contains fields)

/-- Checks one field of a description; an absent field has its default, which is not checked. -/
def checkField {α β : Type} (fields : Fields α) (spellings : List String) (default : β)
    (check : Datum α → Check β) : Check β :=
  match usedKey? spellings fields with
  | none => .accept default
  | some key =>
    match Record.get? fields key with
    | none => .accept default
    | some datum => (check datum).under (.field key)

/-- Checks one field that must be there; it is missing under its first spelling. -/
def requireField {α β : Type} (fields : Fields α) (spellings : List String)
    (check : Datum α → Check β) : Check β :=
  match usedKey? spellings fields with
  | none => .refuse [⟨[.field (spellings.headD "")], .missing⟩]
  | some key =>
    match Record.get? fields key with
    | none => .refuse [⟨[.field key], .missing⟩]
    | some datum => (check datum).under (.field key)

/-- The fields that no known field uses. -/
def leftOver {β : Type} (known : List (List String)) (fields : List (String × β)) :
    List (String × β) :=
  let used := known.filterMap (usedKey? · fields)
  fields.filter fun field => !used.contains field.1

/-- Refuses every unknown field. -/
def refuseExtra {β : Type} (known : List (List String)) (fields : List (String × β)) :
    Check Unit :=
  match leftOver known fields with
  | [] => .accept ()
  | extra => .refuse (extra.map fun field => ⟨[.field field.1], .extraForbidden⟩)

end Olap
