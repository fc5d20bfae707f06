/-
Configuration of a workspace. It has three sections: settings of the workspace itself, which are
always there, and settings of a store and of a model, which may be missing. Configuration is read
from a document of sections, from a file with such a document, or from a record of records, and can
be written as a document again.

Settings are written as texts as a rule, so a text is looked at before it is taken for the value of
a setting: blanks around it do not count, of blanks alone nothing is left, and certain words are
truth values.
-/

import Olap.Files
import Olap.Ini.Text
import Olap.Part
import Olap.Sql.Store

namespace Olap

/-! ### Settings -/

structure WorkspaceSettings where
  /-- File for the log. -/
  log : Option String
  /-- Importance below which lines are left out of the log. -/
  logLevel : Option String
  /-- Directory that other paths start from. -/
  rootDirectory : Option String
  /-- Statements are logged as information. -/
  debug : Bool
deriving BEq, Inhabited

structure StoreSettings where
  /-- Address of the database. -/
  url : String
  /-- Statements are sent with their values in them. -/
  renderLiterals : Bool
  /-- Rows that are fetched at a time. -/
  fetchSize : Nat
  fetchSize_pos : 0 < fetchSize
  /-- Seconds to wait for a statement. -/
  timeout : Option Float
  /-- Statements are shown as they are sent. -/
  echo : Bool
  /-- Views of facts are named by this and the name of the cube. -/
  viewPrefix : Option String
deriving BEq

structure ModelSettings where
  /-- Path of the description of the model. -/
  path : String
deriving BEq, Inhabited

/-- Configuration of a workspace. -/
structure Config where
  workspace : WorkspaceSettings
  store : Option StoreSettings
  model : Option ModelSettings
deriving BEq

/-! ### Values of settings -/

namespace Setting

def trueWords : List String := ["yes", "true", "on"]

def falseWords : List String := ["no", "false", "off"]

/-- The truth value that a word stands for. -/
def truthOf? (word : String) : Option Bool :=
  let word := Text.lower word
  if trueWords.contains word then some true
  else if falseWords.contains word then some false
  else none

/-- A word for a truth value is replaced by it. -/
def interpretWord {α : Type} (d : Datum α) : Datum α :=
  match d with
  | .text s => (truthOf? s).elim (.text s) .bool
  | d => d

/-- What a text means as the value of a setting. -/
def ofText {α : Type} (s : String) : Datum α :=
  let s := Text.strip s
  if s.isEmpty then .null else interpretWord (.text s)

/-- What a datum means as the value of a setting. -/
def interpret {α : Type} (d : Datum α) : Datum α :=
  match d.text? with
  | some s => ofText s
  | none => d

def text (d : Description) : Check String := Coerce.text (interpret d)

def optionalText (d : Description) : Check (Option String) :=
  Coerce.optional Coerce.text (interpret d)

def bool (d : Description) : Check Bool := Coerce.bool (interpret d)

/-- A positive whole number. -/
def positive (d : Description) : Check { n : Nat // 0 < n } :=
  (Coerce.int (interpret d)).thenCheck fun i =>
    if positive : 0 < i then .accept ⟨i.toNat, Coerce.toNat_pos positive⟩ else .flaw .greaterThan

/-- A positive number of seconds. -/
def seconds (d : Description) : Check Float :=
  (Coerce.float d).thenCheck fun x =>
    if (Number.int 0).less (.float x) then .accept x else .flaw .greaterThan

def optionalSeconds (d : Description) : Check (Option Float) :=
  Coerce.optional seconds (interpret d)

/-- The value of a setting as it is written; nothing is written for nothing. -/
def written? : Value → Option String
  | .null => none
  | .bool b => some (if b then "yes" else "no")
  | value => some value.shown

end Setting

/-! ### Sections -/

/-- The value of an optional number. -/
def Datum.ofFloat? {α : Type} (x : Option Float) : Datum α := x.elim .null .float

namespace WorkspaceSettings

def usual : WorkspaceSettings := ⟨none, none, none, false⟩

def keys : List (List String) := [["log"], ["log_level"], ["root_directory"], ["debug"]]

def check (fields : Fields Part) : Check WorkspaceSettings :=
  (fun log logLevel rootDirectory debug _ => ⟨log, logLevel, rootDirectory, debug⟩) <$>
    checkField fields ["log"] usual.log Setting.optionalText <*>
    checkField fields ["log_level"] usual.logLevel Setting.optionalText <*>
    checkField fields ["root_directory"] usual.rootDirectory Setting.optionalText <*>
    checkField fields ["debug"] usual.debug Setting.bool <*>
    refuseExtra keys fields

def toRecord (s : WorkspaceSettings) : Row :=
  [("log", .ofOption s.log), ("log_level", .ofOption s.logLevel),
    ("root_directory", .ofOption s.rootDirectory), ("debug", .bool s.debug)]

end WorkspaceSettings

namespace StoreSettings

/-- The settings of a store at an address. -/
def usual (url : String) : StoreSettings :=
  { url, renderLiterals := false, fetchSize := Sql.defaultFetchSize
    fetchSize_pos := by decide, timeout := none, echo := false, viewPrefix := none }

def keys : List (List String) :=
  [["url"], ["render_literals"], ["fetch_size"], ["timeout"], ["echo"], ["view_prefix"]]

def check (fields : Fields Part) : Check StoreSettings :=
  (fun url renderLiterals size timeout echo viewPrefix _ =>
      { url, renderLiterals, fetchSize := size.val, fetchSize_pos := size.property, timeout
        echo, viewPrefix }) <$>
    requireField fields ["url"] Setting.text <*>
    checkField fields ["render_literals"] false Setting.bool <*>
    checkField fields ["fetch_size"] ⟨Sql.defaultFetchSize, by decide⟩ Setting.positive <*>
    checkField fields ["timeout"] none Setting.optionalSeconds <*>
    checkField fields ["echo"] false Setting.bool <*>
    checkField fields ["view_prefix"] none Setting.optionalText <*>
    refuseExtra keys fields

def toRecord (s : StoreSettings) : Row :=
  [("url", .text s.url), ("render_literals", .bool s.renderLiterals),
    ("fetch_size", .int s.fetchSize), ("timeout", .ofFloat? s.timeout), ("echo", .bool s.echo),
    ("view_prefix", .ofOption s.viewPrefix)]

end StoreSettings

namespace ModelSettings

def check (fields : Fields Part) : Check ModelSettings :=
  (fun path _ => ⟨path⟩) <$> requireField fields ["path"] Setting.text <*>
    refuseExtra [["path"]] fields

def toRecord (s : ModelSettings) : Row := [("path", .text s.path)]

end ModelSettings

namespace Config

/-- A section is described by a record. -/
def checkSection {β : Type} (check : Fields Part → Check β) (d : Description) : Check β :=
  match d with
  | .record fields => check fields
  | _ => .flaw .modelType

def sectionNames : List String := ["workspace", "store", "model"]

/-! ### Reading -/

def check (sections : Fields Part) : Check Config :=
  Config.mk <$>
    checkField sections ["workspace"] .usual (checkSection WorkspaceSettings.check) <*>
    checkField sections ["store"] none (Coerce.optional (checkSection StoreSettings.check)) <*>
    checkField sections ["model"] none (Coerce.optional (checkSection ModelSettings.check))

/-- Names in the order of their characters. -/
def sortNames (names : List String) : List String := names.mergeSort fun a b => a ≤ b

/-- The configuration that a record of sections describes. -/
def ofSections (sections : Fields Part) : Result Config :=
  match sortNames ((Record.keys sections).filter (!sectionNames.contains ·)) with
  | [] =>
    match (check sections).result with
    | .error (.invalid details) => fail (.configInvalid details)
    | result => result
  | unknown => fail (.unknownSections unknown)

def sectionsOf (sections : List (String × List (String × String))) : Fields Part :=
  sections.map fun (name, options) =>
    (name, .record (options.map fun (key, value) => (key, .text value)))

/-- The configuration in a document. That the references in it can not be replaced is a failure of
the document. -/
def ofIni (document : Ini) : Result Config :=
  match document.allOptions document.sections with
  | .error failure => .error (.outside failure)
  | .ok sections => ofSections (sectionsOf sections)

/-- The configuration in a file. What can not be the path of a file is a failure of its own. -/
def ofFile (files : Files) (path shown : String) : Result Config :=
  match files.read path with
  | .error .badValue => .error (.outside .badValue)
  | .error _ => fail (.configMissing shown)
  | .ok text =>
    match Ini.ofText text with
    | .error failure => fail (.configUnreadable shown failure)
    | .ok document => ofIni document

/-- What a configuration is read from. -/
inductive Source
  /-- Configuration that has been read already. -/
  | finished (config : Config)
  | document (document : Ini)
  /-- Nothing, the path of a file, or a record of sections. -/
  | described (d : Description)

def read (files : Files) : Source → Result Config
  | .finished config => .ok config
  | .document document => ofIni document
  | .described .null => ofSections []
  | .described (.record sections) => ofSections sections
  | .described d =>
    match d.text? with
    | some path => ofFile files path d.shown
    | none => fail (.configType d.typeText)

/-! ### Writing -/

/-- The sections that are there, as records of their settings. -/
def sections (c : Config) : List (String × Row) :=
  [("workspace", c.workspace.toRecord)] ++
    (c.store.map fun s => ("store", s.toRecord)).toList ++
    (c.model.map fun s => ("model", s.toRecord)).toList

def toRecord (c : Config) : Row :=
  sectionNames.map fun name =>
    (name, ((Record.get? c.sections name).map .record).getD .null)

/-- The settings of a section that are written, with their texts. -/
def writtenSettings (settings : Row) : List (String × String) :=
  settings.filterMap fun (key, value) => (Setting.written? value).map fun text => (key, text)

/-- Numbers of more digits than are read can not be written. -/
def hasWritableNumbers (c : Config) : Bool :=
  c.store.all fun s => (Decimal.digitsOf s.fetchSize).length ≤ Coerce.maxIntegerDigits

/-- The configuration as a document. A setting with a stray percent sign can not be written. -/
def toIni (c : Config) : Except Outside Ini :=
  if c.hasWritableNumbers then
    Ini.ofTexts (c.sections.map fun (name, settings) => (name, writtenSettings settings))
  else .error .badValue

/-- Whether reading what is written gives the configuration back. -/
def roundTrip (c : Config) : Result Bool :=
  match c.toIni with
  | .error failure => .error (.outside failure)
  | .ok document =>
    match ofIni document with
    | .error fault => .error fault
    | .ok other => .ok (other == c)

/-! ### Paths -/

/-- A path below a directory. -/
def joinPath (directory path : String) : String :=
  if directory.endsWith "/" then directory ++ path else directory ++ "/" ++ path

/-- A path as seen from the root directory; one that begins at the top stays what it is. -/
def resolvePath (c : Config) (path : String) : String :=
  match c.workspace.rootDirectory with
  | none => path
  | some root => if root.isEmpty || path.startsWith "/" then path else joinPath root path

end Config

end Olap
