/-
Files. What is read from files is given as a list of the paths that lead somewhere. Single dots and
repeated slashes in a path make no difference.
-/

import Olap.Problem

namespace Olap

/-- What a path leads to. -/
inductive FileEntry
  | text (content : String)
  | directory
deriving DecidableEq, Repr, Inhabited

/-- Paths and what they lead to. -/
abbrev Files := List (String × FileEntry)

namespace Files

/-- The names on the way along a path, and whether the way begins at the root. -/
def way (path : String) : Bool × List String :=
  (path.startsWith "/", (path.splitOn "/").filter fun name => !name.isEmpty && name != ".")

def entry? (files : Files) (path : String) : Option FileEntry :=
  if path.isEmpty then none else (files.find? fun file => way file.1 == way path).map (·.2)

/-- A text with all ends of lines written in one way. -/
def unifyLineEnds : List Char → List Char
  | '\r' :: '\n' :: rest => '\n' :: unifyLineEnds rest
  | '\r' :: rest => '\n' :: unifyLineEnds rest
  | c :: rest => c :: unifyLineEnds rest
  | [] => []

/-- The text of a file. A path can not hold the character of code zero. -/
def read (files : Files) (path : String) : Except Outside String :=
  if path.toList.contains '\x00' then .error .badValue
  else
    match files.entry? path with
    | none => .error .missingFile
    | some .directory => .error .isDirectory
    | some (.text content) => .ok (String.ofList (unifyLineEnds content.toList))

/-- The path of the directory that a path leads into. -/
def parent (path : String) : String :=
  let names := (path.splitOn "/").dropLast
  if names.isEmpty then "." else if names == [""] then "/" else "/".intercalate names

/-- Whether a file can be written at a path: its directory has to be there. -/
def checkWritable (files : Files) (path : String) : Except Outside Unit :=
  match files.read path with
  | .error .missingFile =>
    if files.entry? (parent path) == some .directory then .ok () else .error .missingFile
  | .error failure => .error failure
  | .ok _ => .ok ()

end Files

end Olap
