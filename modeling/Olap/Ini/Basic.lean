/-
Documents of sections. A document has named sections of options, and defaults: options that every
section has unless it has its own. Values are kept as they are written; only asking for the options
of a section expands the references in them.
-/

import Olap.Datum
import Olap.Ini.Template

namespace Olap

/-- A document of sections of options. -/
structure Ini where
  defaults : List (String × String)
  sections : List (String × List (String × String))
deriving DecidableEq, Repr, Inhabited

namespace Ini

/-- The section that holds the defaults. -/
def defaultName : String := "DEFAULT"

/-- A document without defaults. -/
def ofSections (sections : List (String × List (String × String))) : Ini := ⟨[], sections⟩

/-- The options of a section as they are written, the defaults first. -/
def written (document : Ini) (own : List (String × String)) : List (String × String) :=
  Record.update document.defaults own

/-- Options with the references among them replaced. -/
def expandAll (values : List (String × String)) :
    List (String × String) → Except Outside (List (String × String))
  | [] => .ok []
  | (name, template) :: rest =>
    match Template.expand (Record.get? values) template with
    | .error failure => .error failure
    | .ok value => (expandAll values rest).map ((name, value) :: ·)

/-- The options of a section as they are meant. -/
def options (document : Ini) (own : List (String × String)) :
    Except Outside (List (String × String)) :=
  let all := document.written own
  expandAll all all

/-- The options of all sections. -/
def allOptions (document : Ini) :
    List (String × List (String × String)) →
      Except Outside (List (String × List (String × String)))
  | [] => .ok []
  | (name, own) :: rest =>
    match document.options own with
    | .error failure => .error failure
    | .ok found => (allOptions document rest).map ((name, found) :: ·)

/-- The document as a record of its sections, each a record of texts as they are written. -/
def toRecord (document : Ini) : Row :=
  document.sections.map fun (name, own) =>
    (name, .record ((document.written own).map fun (key, value) => (key, .text value)))

/-- Puts together a document from sections of texts. A text that is not accepted as a template is
refused. -/
def ofTexts (sections : List (String × List (String × String))) : Except Outside Ini :=
  if sections.all fun (_, own) => own.all fun (_, value) => Template.isAccepted value then
    .ok (ofSections sections)
  else .error .badValue

end Ini

end Olap
