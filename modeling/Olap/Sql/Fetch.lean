/-
Fetching an answer in batches. Before the statement is executed, and before every batch, the caller
is looked at: a request that was called off, or has waited too long, ends there, and what has been
fetched so far is dropped. The last batch is an empty one, so an answer is only complete when the
caller was looked at once more after all of its rows had come. How many rows a batch has is up to
the driver of the database.
-/

import Olap.Problem

namespace Olap.Sql

/-! ### Callers -/

/-- Why a caller does not go on. -/
inductive Interruption
  | cancelled
  | expired
deriving DecidableEq, Repr, Inhabited

/-- The caller at one moment: whether it has called off its request, and whether the time that it
will wait is over. -/
structure Moment where
  isCancelled : Bool
  isLate : Bool
deriving DecidableEq, Repr, Inhabited

/-- A request that was called off is not said to be late. -/
def Moment.interruption? (moment : Moment) : Option Interruption :=
  if moment.isCancelled then some .cancelled
  else if moment.isLate then some .expired
  else none

/-- The caller at the first look, at the second look, and so on. -/
abbrev Schedule := Nat → Moment

/-! ### Drivers -/

/-- How a driver hands over the rows of an answer: of the rows that are left, any number up to the
one that it is asked for, but none only when no rows are left. -/
structure Driver where
  /-- The largest number of rows that it can be asked for, if there is one. -/
  most : Option Nat
  /-- The number of rows that are handed over after some looks at the caller, when it is asked for
  a number of them and some are left. -/
  handed : (looks size left : Nat) → Nat
  handed_le : ∀ looks size left, handed looks size left ≤ size
  handed_pos : ∀ looks size left, 0 < size → 0 < left → 0 < handed looks size left

namespace Driver

/-- A driver that hands over as many rows as it is asked for. -/
def prompt (most : Option Nat) : Driver where
  most
  handed _ size _ := size
  handed_le _ size _ := Nat.le_refl size
  handed_pos _ _ _ positive _ := positive

/-- Whether a driver can be asked for a number of rows. -/
def takes (driver : Driver) (size : Nat) : Bool := driver.most.all (size ≤ ·)

end Driver

/-! ### Batches -/

/-- Why an answer does not come, or not all of it. -/
inductive Stop
  | interrupted (interruption : Interruption)
  | failed (failure : Outside)
deriving DecidableEq, Repr

variable {α β : Type}

/-- Fetches all rows, at most `size` at a time, and converts the rows of each batch. There were some
looks at the caller before. -/
def fetch (driver : Driver) (size : Nat) (positive : 0 < size) (schedule : Schedule)
    (convert : α → Except Outside β) (looks : Nat) (rows : List α) : Except Stop (List β) :=
  match (schedule looks).interruption? with
  | some interruption => .error (.interrupted interruption)
  | none =>
    if driver.takes size then
      match rows with
      | [] => .ok []
      | row :: rest =>
        let count := driver.handed looks size (row :: rest).length
        match ((row :: rest).take count).mapM convert with
        | .error failure => .error (.failed failure)
        | .ok batch =>
          (fetch driver size positive schedule convert (looks + 1)
            ((row :: rest).drop count)).map (batch ++ ·)
    else .error (.failed .overflow)
termination_by rows.length
decreasing_by
  have := driver.handed_pos looks size (row :: rest).length positive (Nat.succ_pos _)
  simp only [List.length_drop, List.length_cons] at this ⊢
  omega

end Olap.Sql
