/-
Stores. A store executes queries: asked with a query, it answers with rows or fails. A store may
have a state, which every request may change, whether it succeeds or not; nothing else is assumed
of a store, so what holds for every store holds for one that fails whenever it likes. A request
also says how long the caller will wait and whether the caller has called it off already.
-/

import Olap.Problem
import Olap.Query

namespace Olap

/-- How important a line of the log is. -/
inductive LogLevel
  | debug
  | info
  | warning
  | error
  | critical
deriving DecidableEq, Repr, Inhabited

namespace LogLevel

def name : LogLevel → String
  | debug => "DEBUG"
  | info => "INFO"
  | warning => "WARNING"
  | error => "ERROR"
  | critical => "CRITICAL"

/-- Lines of a lower rank than the wanted level are left out. -/
def rank : LogLevel → Nat
  | debug => 10
  | info => 20
  | warning => 30
  | error => 40
  | critical => 50

/-- The level from which on lines are kept unless something else is wanted. -/
def usual : LogLevel := warning

/-- The level that a word in capitals stands for; one of them stands for the usual level. -/
def ofWord? : String → Option LogLevel
  | "CRITICAL" | "FATAL" => some critical
  | "ERROR" => some error
  | "WARNING" | "WARN" => some warning
  | "INFO" => some info
  | "DEBUG" => some debug
  | "NOTSET" => some usual
  | _ => none

end LogLevel

/-- A line of the log. -/
structure LogLine where
  level : LogLevel
  message : String
deriving DecidableEq, Repr, Inhabited

/-- The lines that are kept when a level is wanted. -/
def LogLine.keep (level : LogLevel) (lines : List LogLine) : List LogLine :=
  lines.filter fun line => level.rank ≤ line.level.rank

/-- What a store is asked for. -/
structure Request where
  query : Query
  /-- Seconds that the caller will wait; nothing is for ever. -/
  timeout : Value
  /-- Whether the caller, if it can call off the request, has done so. -/
  cancel : Option Bool

/-- What a store gives back. -/
structure Reply where
  outcome : Result (List Row)
  log : List LogLine

/-- A store with states of type `σ`. -/
structure Store (σ : Type) where
  execute : Request → σ → Reply × σ

namespace Store

variable {σ τ : Type}

/-- A store that remembers what it was asked for. -/
def recorded (store : Store σ) : Store (σ × List Request) where
  execute request state :=
    let (reply, after) := store.execute request state.1
    (reply, (after, state.2 ++ [request]))

/-- A store with a state beside its own that it does not touch. -/
def onFirst (store : Store σ) : Store (σ × τ) where
  execute request state :=
    let (reply, after) := store.execute request state.1
    (reply, (after, state.2))

def onSecond (store : Store τ) : Store (σ × τ) where
  execute request state :=
    let (reply, after) := store.execute request state.2
    (reply, (state.1, after))

end Store

/-- An answer that is fixed in advance. -/
abbrev Scripted := Result (List Row)

namespace Scripted

/-- A store that gives the answers of a list one after the other, whatever it is asked for, and
then no rows. -/
def store : Store (List Scripted) where
  execute _ script :=
    match script with
    | [] => (⟨.ok [], []⟩, [])
    | answer :: rest => (⟨answer, []⟩, rest)

/-- A failure that a store reports: of one of the known kinds, or of any other. -/
def failure (kind : Option ErrorKind) (message : String) : Fault :=
  match kind with
  | some kind => .problem (.reported kind message)
  | none => .outside (.store message)

end Scripted

end Olap
