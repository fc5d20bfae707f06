/-
Which of some known names a mistyped name may have meant. Two texts are compared by the letters
they share in order: the longest common block is taken, the earliest one if several are longest,
and then the parts left of it and right of it are compared in the same way. A known name is close
when at least three fifths of all letters of both texts are shared, and the closest name is
offered; of equally close names the one that comes last in the alphabet.
-/

namespace Olap.Text

/-- A block that two texts have in common: where it starts in each, and its length. -/
structure Block where
  left : Nat
  right : Nat
  size : Nat

/-- Lengths of the common blocks that end at a letter, for each place of the other text; the
lengths for the letter before it are given. -/
def blockLengths (c : Char) : (before : Nat) → List Nat → List Char → List Nat
  | _, _, [] => []
  | before, lengths, d :: rest =>
    (if c = d then before + 1 else 0) :: blockLengths c (lengths.headD 0) lengths.tail rest

/-- The best of the blocks found so far and those that end at place `i` and from place `j` on. -/
def betterBlock (i : Nat) : (j : Nat) → Block → List Nat → Block
  | _, best, [] => best
  | j, best, size :: rest =>
    betterBlock i (j + 1)
      (if best.size < size then ⟨i + 1 - size, j + 1 - size, size⟩ else best) rest

/-- The longest common block, the earliest of several. -/
def longestBlock (left right : List Char) : Block :=
  let step := fun (state : Block × List Nat × Nat) (c : Char) =>
    let lengths := blockLengths c 0 state.2.1 right
    (betterBlock state.2.2 0 state.1 lengths, lengths, state.2.2 + 1)
  (left.foldl step (⟨0, 0, 0⟩, [], 0)).1

/-- How many letters two texts share in order. Each split takes at least one letter away, so the
length of a text bounds their number. -/
def sharedLetters : Nat → List Char → List Char → Nat
  | 0, _, _ => 0
  | fuel + 1, left, right =>
    let block := longestBlock left right
    if block.size = 0 then 0
    else
      sharedLetters fuel (left.take block.left) (right.take block.right) + block.size +
        sharedLetters fuel (left.drop (block.left + block.size))
          (right.drop (block.right + block.size))

/-- A known name with the number of letters it shares and the number of letters of both texts. -/
structure Candidate where
  name : String
  shared : Nat
  total : Nat

def Candidate.of (name known : String) : Candidate :=
  { name := known
    shared := sharedLetters (known.length + 1) known.toList name.toList
    total := known.length + name.length }

/-- At least three fifths of the letters are shared. -/
def Candidate.isClose (c : Candidate) : Bool := 3 * c.total ≤ 10 * c.shared

/-- The second candidate is to be preferred to the first. -/
def Candidate.worse (a b : Candidate) : Bool :=
  let x := a.shared * b.total
  let y := b.shared * a.total
  x < y || (x == y && a.name < b.name)

/-- The known name that a mistyped name is closest to, if any is close. -/
def closest? (name : String) (known : List String) : Option String :=
  let close := (known.map (Candidate.of name)).filter Candidate.isClose
  match close with
  | [] => none
  | first :: rest =>
    some (rest.foldl (fun best c => if best.worse c then c else best) first).name

end Olap.Text
