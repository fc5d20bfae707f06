/-
Templates. The value of an option is a template: a name in parentheses between a percent sign and
the letter s refers to the value of another option, and a percent sign that stands for itself is
written twice. What an option refers to may refer to further options, to a bounded depth, so that
options that refer to each other in a circle are found out.
-/

import Olap.Problem

namespace Olap.Template

/-- A part of a template. -/
inductive Piece
  | char (c : Char)
  | reference (name : String)
  /-- A percent sign that is neither doubled nor the start of a reference. -/
  | stray
deriving DecidableEq, Repr

/-- The parts of a template: outside a reference, or inside one whose name has begun. Nothing is
read after a stray percent sign. -/
def scan : (name : Option (List Char)) → List Char → List Piece
  | none, [] => []
  | none, '%' :: '%' :: rest => .char '%' :: scan none rest
  | none, '%' :: '(' :: rest => scan (some []) rest
  | none, '%' :: _ => [.stray]
  | none, c :: rest => .char c :: scan none rest
  | some name, ')' :: 's' :: rest =>
    if name.isEmpty then [.stray] else .reference (String.ofList name) :: scan none rest
  | some _, ')' :: _ => [.stray]
  | some name, c :: rest => scan (some (name ++ [c])) rest
  | some _, [] => [.stray]

def pieces (template : List Char) : List Piece := scan none template

/-! ### Expansion -/

/-- The text of the parts of a template, given what names refer to. -/
def fill (refer : String → Except Outside (List Char)) : List Piece → Except Outside (List Char)
  | [] => .ok []
  | .char c :: rest =>
    match fill refer rest with
    | .error failure => .error failure
    | .ok text => .ok (c :: text)
  | .reference name :: rest =>
    match refer name with
    | .error failure => .error failure
    | .ok value =>
      match fill refer rest with
      | .error failure => .error failure
      | .ok text => .ok (value ++ text)
  | .stray :: _ => .error .interpolationSyntax

/-- A template with its references replaced, to a depth. Names are looked up in lower case, and a
value that refers to nothing further does not count for the depth. -/
def expandTo (values : String → Option String) :
    (depth : Nat) → List Char → Except Outside (List Char)
  | 0, _ => .error .interpolationDepth
  | depth + 1, template =>
    fill
      (fun name =>
        match values (Text.lower name) with
        | none => .error .interpolationMissing
        | some value =>
          if value.toList.contains '%' then expandTo values depth value.toList
          else .ok value.toList)
      (pieces template)

/-- How deep references go. -/
def maxDepth : Nat := 10

/-- A template with its references replaced by the values of options. -/
def expand (values : String → Option String) (template : String) : Except Outside String :=
  (expandTo values maxDepth template.toList).map String.ofList

/-! ### Acceptance -/

/-- A text without its doubled percent signs. -/
def dropDoubled : List Char → List Char
  | '%' :: '%' :: rest => dropDoubled rest
  | c :: rest => c :: dropDoubled rest
  | [] => []

/-- A text is accepted as a template when every percent sign that is left after the doubled ones are
gone starts a reference. -/
def isAccepted (template : String) : Bool :=
  (pieces (dropDoubled template.toList)).all (· != .stray)

/-! ### Texts without percent signs -/

theorem pieces_plain {text : List Char} (plain : '%' ∉ text) :
    pieces text = text.map Piece.char := by
  induction text with
  | nil => rfl
  | cons c rest hypothesis =>
    have here : c ≠ '%' := fun equal => plain (equal ▸ List.mem_cons_self)
    have later : '%' ∉ rest := fun member => plain (List.mem_cons_of_mem c member)
    rw [pieces, scan, ← pieces, hypothesis later, List.map_cons]
    all_goals simp_all

theorem fill_chars (refer : String → Except Outside (List Char)) (text : List Char) :
    fill refer (text.map Piece.char) = .ok text := by
  induction text with
  | nil => rfl
  | cons c rest hypothesis => rw [List.map_cons, fill, hypothesis]

/-- A template without percent signs stands for itself. -/
theorem expand_plain (values : String → Option String) {template : String}
    (plain : '%' ∉ template.toList) : expand values template = .ok template := by
  rw [expand, maxDepth, expandTo, pieces_plain plain, fill_chars]
  exact congrArg Except.ok (String.ofList_toList)

end Olap.Template
