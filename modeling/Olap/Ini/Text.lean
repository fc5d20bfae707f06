/-
Reading documents of sections. A line is a comment, a header in brackets, or an option: a name and a
value with an equals sign or a colon between them. A line that is indented deeper than the one that
began an option goes on with its value, and so do blank lines. Names are the same in upper and
lower case.

A line that is none of these makes the document malformed, but that is only told when all lines
have been read; a repeated name and an option before the first header are told at once.
-/

import Olap.Ini.Basic

namespace Olap.Ini

/-! ### Lines -/

/-- A line by what is in it. -/
inductive Line
  | blank
  | comment
  /-- A text, blanks around it cut off, and how far it is indented. -/
  | content (indent : Nat) (text : List Char)
deriving DecidableEq, Repr

/-- A character that begins a comment. -/
def isCommentMark (c : Char) : Bool := c == '#' || c == ';'

def Line.ofChars (line : List Char) : Line :=
  match Text.trimBy Text.isBlank line with
  | [] => .blank
  | c :: rest =>
    if isCommentMark c then .comment
    else .content (line.takeWhile Text.isBlank).length (c :: rest)

/-- The lines of a text. -/
def splitLines : List Char → List (List Char)
  | [] => [[]]
  | '\n' :: rest => [] :: splitLines rest
  | c :: rest =>
    match splitLines rest with
    | line :: lines => (c :: line) :: lines
    | [] => [[c]]

/-- What a text says that does not go on with a value. -/
inductive Entry
  | header (name : String)
  | option (name value : String)
  | neither
deriving DecidableEq, Repr

/-- The name between an opening bracket and the last closing one. -/
def headerName? : List Char → Option String
  | '[' :: rest =>
    match rest.reverse.dropWhile (· != ']') with
    | ']' :: name => if name.isEmpty then none else some (String.ofList name.reverse)
    | _ => none
  | _ => none

/-- A character between the name and the value of an option. -/
def isDelimiter (c : Char) : Bool := c == '=' || c == ':'

def Entry.ofChars (text : List Char) : Entry :=
  match headerName? text with
  | some name => .header name
  | none =>
    match text.dropWhile (!isDelimiter ·) with
    | [] => .neither
    | _ :: value =>
      let name := Text.trimBy Text.isBlank (text.takeWhile (!isDelimiter ·))
      .option (Text.lower (String.ofList name)) (Text.strip (String.ofList value))

/-! ### Reading line by line -/

/-- A document that is being read. Values are kept as lists of lines. -/
structure Draft where
  blocks : List (String × List (String × List String))
  /-- The section that has begun last. -/
  block : Option String
  /-- The option that has begun last in it. -/
  option : Option String
  /-- How far the line that began it is indented. -/
  indent : Nat
  isMalformed : Bool
deriving DecidableEq, Repr

namespace Draft

def empty : Draft := ⟨[], none, none, 0, false⟩

/-- The options of a section that have been read. -/
def optionsOf (draft : Draft) (block : String) : List (String × List String) :=
  (Record.get? draft.blocks block).getD []

/-- The option whose value a line may go on with; an option without a name is none. -/
def open? (draft : Draft) : Option (String × String) :=
  match draft.block, draft.option with
  | some block, some option => if option.isEmpty then none else some (block, option)
  | _, _ => none

def setLines (draft : Draft) (block option : String) (lines : List String) : Draft :=
  { draft with
    blocks := Record.set draft.blocks block (Record.set (draft.optionsOf block) option lines) }

/-- Goes on with the value of the last option, if there is one to go on with. -/
def extend (draft : Draft) (line : String) : Draft :=
  match draft.open? with
  | none => draft
  | some (block, option) =>
    draft.setLines block option
      (((Record.get? (draft.optionsOf block) option).getD []) ++ [line])

/-- Begins a section. Only the one of the defaults may begin again. -/
def begin (draft : Draft) (name : String) : Except Outside Draft :=
  if Record.contains draft.blocks name then
    if name == defaultName then .ok { draft with block := some name, option := none }
    else .error .iniRepeatedSection
  else
    .ok { draft with blocks := draft.blocks ++ [(name, [])], block := some name, option := none }

/-- Begins an option of a section. -/
def beginOption (draft : Draft) (block name value : String) : Except Outside Draft :=
  if Record.contains (draft.optionsOf block) name then .error .iniRepeatedOption
  else
    let draft := draft.setLines block name [value]
    .ok { draft with option := some name, isMalformed := draft.isMalformed || name.isEmpty }

/-- Takes in what a line says that goes on with nothing. -/
def enter (draft : Draft) : Entry → Except Outside Draft
  | .header name => draft.begin name
  | .option name value =>
    match draft.block with
    | none => .error .iniWithoutSection
    | some block => draft.beginOption block name value
  | .neither =>
    match draft.block with
    | none => .error .iniWithoutSection
    | some _ => .ok { draft with isMalformed := true }

/-- Takes in a line. -/
def step (draft : Draft) : Line → Except Outside Draft
  | .comment => .ok draft
  | .blank => .ok (draft.extend "")
  | .content indent text =>
    if draft.open?.isSome && draft.indent < indent then .ok (draft.extend (String.ofList text))
    else { draft with indent }.enter (Entry.ofChars text)

def steps : Draft → List Line → Except Outside Draft
  | draft, [] => .ok draft
  | draft, line :: rest =>
    match draft.step line with
    | .error failure => .error failure
    | .ok draft => draft.steps rest

/-- The value of an option from its lines, without blanks at the end. -/
def joinLines (lines : List String) : String :=
  let text := ("\n".intercalate lines).toList
  String.ofList (text.reverse.dropWhile Text.isBlank).reverse

def finishBlock (options : List (String × List String)) : List (String × String) :=
  options.map fun (name, lines) => (name, joinLines lines)

/-- The document that has been read. -/
def finish (draft : Draft) : Except Outside Ini :=
  if draft.isMalformed then .error .iniMalformed
  else
    let own := draft.blocks.filter (·.1 != defaultName)
    .ok
      { defaults := finishBlock (draft.optionsOf defaultName)
        sections := own.map fun (name, options) => (name, finishBlock options) }

end Draft

/-- The document that a text holds. -/
def ofText (text : String) : Except Outside Ini :=
  match Draft.empty.steps ((splitLines text.toList).map Line.ofChars) with
  | .error failure => .error failure
  | .ok draft => draft.finish

end Olap.Ini
