/-
Workspaces. A workspace holds a model, and a store if there is one: a store that was handed to it, or
a database of its own, as the configuration says. It hands out browsers of the cubes of the model.
Browsers that are asked for without options are shared by the name of the cube until the workspace
is closed; a browser that is asked for with options is always a new one.
-/

import Olap.Browser
import Olap.Config
import Olap.Metadata.Load

namespace Olap

/-- Where the browsers of a workspace get their rows from. -/
inductive Backend (σ : Type)
  | none
  /-- A store that was handed to the workspace. -/
  | given (store : Store σ)
  /-- A database that the workspace has opened. -/
  | own (connection : Sql.Connection)

namespace Backend

variable {σ : Type}

/-- The store as one with a state for either kind. -/
def store? : Backend σ → Option (Store (σ × Database))
  | none => .none
  | given store => some store.onFirst
  | own connection => some connection.store.onSecond

end Backend

/-- A browser that was handed out. No two of them have the same number. -/
structure OpenBrowser (σ : Type) where
  number : Nat
  browser : Browser (σ × Database)

/-- A workspace in use. -/
structure Workspace (σ : Type) where
  config : Config
  model : Model
  logLevel : LogLevel
  backend : Backend σ
  /-- What the store has come to. -/
  state : σ × Database
  /-- Shared browsers by the names of their cubes. -/
  shared : List (String × OpenBrowser σ)
  /-- How many browsers have been handed out. -/
  made : Nat
  log : List LogLine

/-- How a cube is asked for. -/
inductive CubeChoice
  | named (name : Description)
  | finished (cube : Cube)

namespace Workspace

variable {σ : Type}

/-! ### Opening -/

/-- The level of the log. A word for it has to be a known one, and a file for it one that can be
written. -/
def logLevelOf (files : Files) (settings : WorkspaceSettings) : Except Outside LogLevel :=
  match settings.log.elim (.ok ()) files.checkWritable with
  | .error failure => .error failure
  | .ok () =>
    match settings.logLevel with
    | none => .ok .usual
    | some word =>
      match LogLevel.ofWord? (Text.upper word) with
      | some level => .ok level
      | none => .error .badValue

/-- The line of the log before a model is read. -/
def readingLine (shown : String) : LogLine := ⟨.debug, "loading model from " ++ shown⟩

/-- The model of a workspace, with the lines of the log about it: the one that is given by a record
or by the path of a file, or else the one that the configuration names. -/
def openModel (files : Files) (config : Config) (d : Description) :
    Result (Model × List LogLine) :=
  match d with
  | .null =>
    match config.model with
    | none => fail .noModel
    | some settings =>
      let path := config.resolvePath settings.path
      (Model.ofFile files path path).map fun model =>
        (model, [⟨.debug, "Loading model from " ++ path⟩, readingLine path])
  | d =>
    (Model.ofSource files d).map fun model =>
      (model, if d.text?.isSome then [readingLine d.shown] else [])

/-- The store of a workspace. -/
def openBackend (config : Config) (given : Option (Store σ)) : Result (Backend σ) :=
  match given, config.store with
  | some store, _ => .ok (.given store)
  | none, none => .ok .none
  | none, some settings =>
    (Sql.Connection.toAddress (.text settings.url)
      ⟨.bool settings.renderLiterals, .int settings.fetchSize⟩).map .own

/-- Opens a workspace: its configuration is read first, then its model, and its store is opened
last. -/
def create (files : Files) (source : Config.Source) (model : Description)
    (given : Option (Store σ)) (start : σ) : Result (Workspace σ) :=
  match Config.read files source with
  | .error fault => .error fault
  | .ok config =>
    match logLevelOf files config.workspace with
    | .error failure => .error (.outside failure)
    | .ok logLevel =>
      match openModel files config model with
      | .error fault => .error fault
      | .ok (model, log) =>
        (openBackend config given).map fun backend =>
          { config, model, logLevel, backend, state := (start, []), shared := [], made := 0, log }

/-! ### Browsers -/

/-- The cube that is meant. -/
def cube (w : Workspace σ) : CubeChoice → Result Cube
  | .named name => w.model.cube name
  | .finished cube => .ok cube

/-- An option, unless it is given, has a default. -/
def withDefault (options : Row) (key : String) (value : Value) : Row :=
  if Record.contains options key then options else Record.set options key value

/-- The options that the settings of a store give to a browser of a cube. -/
def withStoreSettings (settings : StoreSettings) (cube : Cube) (options : Row) : Row :=
  let options :=
    match settings.viewPrefix with
    | some word =>
      if word.isEmpty then options
      else withDefault options "view_name" (.text (word ++ cube.name))
    | none => options
  withDefault options "timeout" (.ofFloat? settings.timeout)

/-- The options of a browser of a cube: those that are given go before those of the
configuration. -/
def browserOptions (config : Config) (cube : Cube) (options : Row) : BrowserOptions :=
  let options :=
    match config.store with
    | some settings => withStoreSettings settings cube options
    | none => options
  .ofRecord (withDefault options "debug" (.bool config.workspace.debug))

/-- A new browser of a cube, shared when no options were given. -/
def newBrowser (w : Workspace σ) (store : Store (σ × Database)) (cube : Cube) (options : Row) :
    OpenBrowser σ × Workspace σ :=
  let opened : OpenBrowser σ :=
    ⟨w.made, ⟨cube, some store, browserOptions w.config cube options⟩⟩
  (opened,
    { w with
      shared := if options.isEmpty then Record.set w.shared cube.name opened else w.shared
      made := w.made + 1
      log := w.log ++ [⟨.debug, "Created browser for cube '" ++ cube.name ++ "'"⟩] })

/-- The shared browser of a cube, if the options allow for it and there is one. -/
def sharedBrowser? (w : Workspace σ) (cube : Cube) (options : Row) : Option (OpenBrowser σ) :=
  if options.isEmpty then Record.get? w.shared cube.name else none

/-- Hands out a browser of a cube. -/
def browser (w : Workspace σ) (choice : CubeChoice) (options : Row) :
    Result (OpenBrowser σ × Workspace σ) :=
  match w.cube choice with
  | .error fault => .error fault
  | .ok cube =>
    match w.backend.store? with
    | none => fail .noWorkspaceStore
    | some store =>
      match w.sharedBrowser? cube options with
      | some opened => .ok (opened, w)
      | none => .ok (w.newBrowser store cube options)

/-! ### Its store -/

/-- Puts a table into the workspace's own database. -/
def seed (w : Workspace σ) (table : Table) : Result (Workspace σ) :=
  match w.backend with
  | .own _ => .ok { w with state := (w.state.1, w.state.2.add table) }
  | .none | .given _ => .error (.outside .missingMember)

/-- The tables that are left when a database is closed. -/
def afterClose (backend : Backend σ) (db : Database) : Database :=
  match backend with
  | .own connection => if Sql.isTransient connection.address then [] else db
  | .none | .given _ => db

/-- Closes a workspace: no browser is shared any longer, and the workspace's own database is left. It
can be used again. -/
def close (w : Workspace σ) : Workspace σ :=
  { w with shared := [], state := (w.state.1, afterClose w.backend w.state.2) }

/-- The lines of the log that are kept. -/
def keptLog (w : Workspace σ) : List LogLine := LogLine.keep w.logLevel w.log

end Workspace

end Olap
