/-
Models from files. The file of a model holds the text of a document that describes it.
-/

import Olap.Files
import Olap.Metadata.Model

namespace Olap.Model

/-- The model that the file at a path describes. Messages show the path in its own way. -/
def ofFile (files : Files) (path shown : String) : Result Model :=
  match files.read path with
  | .error .badValue => .error (.outside .badValue)
  | .error failure => fail (.unreadableModel shown failure)
  | .ok text => ofText (some shown) text

/-- The model that is given by its description or by the path of a file. -/
def ofSource (files : Files) (d : Description) : Result Model :=
  match d with
  | .record fields => ofRecord (.record fields)
  | d =>
    match d.text? with
    | some path => ofFile files path d.shown
    | none => .error (.outside .missingMember)

end Olap.Model
