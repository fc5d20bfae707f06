/-
SQL text as a reader of SQL takes it apart. A reader goes through the text character by character: a
quote opens a name or a string and the next single quote of the same kind closes it, where two of them
in a row stand for one; two hyphens open a comment up to the end of the line; words and numbers end
where something else begins. The mark of a place for a value is a question mark, or a colon and what a
column name leaves of itself: everything but the reserved characters, less line breaks at the end.

What stands in a text is read the same way wherever it stands, as long as what comes after it does not
continue it. This is shown for each kind of text that statements are made of.
-/

import Mathlib
import Olap.Sql.Text

namespace Olap.Sql

/-- What a reader of SQL takes in at once. -/
inductive Token
  | word (letters : List Char)
  | mark (c : Char)
  | number (i : Int)
  /-- What stands between double quotes. -/
  | name (text : String)
  /-- What stands between single quotes. -/
  | string (text : String)
  /-- A place for a value that travels beside the text. -/
  | place (sign : String)
deriving DecidableEq, Repr

namespace Token

/-- Keywords, punctuation and plain numbers. -/
def isBare : Token → Bool
  | .word _ | .mark _ | .number _ => true
  | .name _ | .string _ | .place _ => false

def name? : Token → Option String
  | .name text => some text
  | _ => none

def place? : Token → Option String
  | .place sign => some sign
  | _ => none

end Token

/-- Where a reader is: between two tokens, or in a token of which the given letters have been read. -/
inductive Scan
  | between
  | word (letters : List Char)
  | minus
  | number (negative : Bool) (digits : List Char)
  | comment
  | quoted (quote : Char) (letters : List Char)
  /-- Behind a quote that may be the first of two. -/
  | closing (quote : Char) (letters : List Char)
  | place (letters : List Char)
deriving DecidableEq, Repr

def isWordLetter (c : Char) : Bool := c.isAlpha || c == '_'

/-- A number from its sign and digits. -/
def signed (negative : Bool) (digits : List Char) : Int :=
  if negative then -(Nat.ofDigitChars 10 digits 0 : Int) else Nat.ofDigitChars 10 digits 0

namespace Scan

/-- The token that ends here, if one does. -/
def held : Scan → List Token
  | between | comment | quoted .. => []
  | word letters => [.word letters]
  | minus => [.mark '-']
  | number negative digits => [.number (signed negative digits)]
  | closing quote letters =>
    [if quote = '"' then .name (String.ofList letters) else .string (String.ofList letters)]
  | place letters => [.place (String.ofList (letters.rdropWhile (· == '\n')))]

/-- The token goes on with the character. -/
def continues? : Scan → Char → Option Scan
  | between, _ => none
  | word letters, c =>
    if isWordLetter c || c.isDigit then some (.word (letters ++ [c])) else none
  | minus, c =>
    if c.isDigit then some (.number true [c]) else if c = '-' then some .comment else none
  | number negative digits, c => if c.isDigit then some (.number negative (digits ++ [c])) else none
  | comment, c => some (if c = '\n' then .between else .comment)
  | quoted quote letters, c =>
    some (if c = quote then .closing quote letters else .quoted quote (letters ++ [c]))
  | closing quote letters, c => if c = quote then some (.quoted quote (letters ++ [c])) else none
  | place letters, c => if isReserved c then none else some (.place (letters ++ [c]))

/-- A character on which a token begins. -/
def start (c : Char) : List Token × Scan :=
  if c.isDigit then ([], .number false [c])
  else if isWordLetter c then ([], .word [c])
  else if c = ' ' ∨ c = '\n' then ([], .between)
  else if c = '"' ∨ c = '\'' then ([], .quoted c [])
  else if c = '-' then ([], .minus)
  else if c = ':' then ([], .place [c])
  else if c = '?' then ([.place "?"], .between)
  else ([.mark c], .between)

/-- One character more: the tokens that are complete by now, and where the reader is then. -/
def step (scan : Scan) (c : Char) : List Token × Scan :=
  match scan.continues? c with
  | some next => ([], next)
  | none => (scan.held ++ (start c).1, (start c).2)

def run : Scan → List Char → List Token × Scan
  | scan, [] => ([], scan)
  | scan, c :: rest => ((scan.step c).1 ++ (run (scan.step c).2 rest).1, (run (scan.step c).2 rest).2)

/-- The tokens up to the end of the text, if it does not end between quotes. -/
def read (scan : Scan) (letters : List Char) : Option (List Token) :=
  match (scan.run letters).2 with
  | quoted .. => none
  | last => some ((scan.run letters).1 ++ last.held)

end Scan

/-- The tokens of a text. A text that ends between quotes has none. -/
def tokens? (text : String) : Option (List Token) := Scan.between.read text.toList

/-! ### Reading on -/

namespace Scan

variable {scan next : Scan} {letters more rest : List Char} {c : Char}

theorem step_of_some (goesOn : scan.continues? c = some next) : scan.step c = ([], next) := by
  rw [step, goesOn]

theorem step_of_none (ends : scan.continues? c = none) :
    scan.step c = (scan.held ++ (start c).1, (start c).2) := by
  rw [step, ends]

theorem run_append (scan : Scan) (letters rest : List Char) :
    scan.run (letters ++ rest) =
      ((scan.run letters).1 ++ ((scan.run letters).2.run rest).1,
        ((scan.run letters).2.run rest).2) := by
  induction letters generalizing scan with
  | nil => rfl
  | cons c letters inductionHypothesis =>
    rw [List.cons_append, run, run, inductionHypothesis, List.append_assoc]

theorem read_append (scan : Scan) (letters rest : List Char) :
    scan.read (letters ++ rest) =
      ((scan.run letters).2.read rest).map ((scan.run letters).1 ++ ·) := by
  unfold read
  rw [run_append]
  dsimp only
  split <;> simp

theorem read_cons (scan : Scan) (c : Char) (rest : List Char) :
    scan.read (c :: rest) = ((scan.step c).2.read rest).map ((scan.step c).1 ++ ·) := by
  have single : scan.run [c] = scan.step c := by simp [run]
  rw [← List.singleton_append, read_append, single]

/-- What continues a token is read as part of it. -/
theorem read_cons_of_some (goesOn : scan.continues? c = some next) :
    scan.read (c :: rest) = next.read rest := by
  rw [read_cons, step_of_some goesOn]
  simp

/-- What does not continue a token is read as if it stood alone. -/
theorem read_of_none (complete : scan.read [] = some scan.held)
    (ends : ∀ c ∈ rest.head?, scan.continues? c = none) :
    scan.read rest = (between.read rest).map (scan.held ++ ·) := by
  cases rest with
  | nil => rw [complete]; simp [read, run, held]
  | cons c rest =>
    rw [read_cons, read_cons between, step_of_none (ends c rfl), step_of_none rfl, Option.map_map]
    congr 1
    funext tokens
    simp [held]

end Scan

/-! ### What is read the same way in front of anything that does not continue it -/

/-- A character that continues no name, string, word or number. -/
def isApart (c : Char) : Bool := [' ', ')', ',', '\n'].contains c

/-- Text in front of which names, strings, words and numbers end. -/
def Opens (letters : List Char) : Prop := letters.head?.all isApart = true

/-- Text in front of which places end, too. A comma goes on with a place, and a line break does not end
it by itself. -/
def OpensWide (letters : List Char) : Prop :=
  letters = [] ∨ letters.head? = some ' ' ∨ letters.head? = some ')' ∨
    letters.take 2 = ['\n', ' ']

instance (letters : List Char) : Decidable (Opens letters) :=
  inferInstanceAs (Decidable (_ = true))

instance (letters : List Char) : Decidable (OpensWide letters) :=
  inferInstanceAs (Decidable (letters = [] ∨ letters.head? = some ' ' ∨ letters.head? = some ')' ∨
    letters.take 2 = ['\n', ' ']))

/-- Letters that stand for the tokens in front of the rest. -/
def Reads (letters : List Char) (tokens : List Token) (rest : List Char) : Prop :=
  Scan.between.read (letters ++ rest) = (Scan.between.read rest).map (tokens ++ ·)

variable {letters more rest : List Char} {c : Char}

theorem exists_of_take_two {c d : Char} (taken : rest.take 2 = [c, d]) :
    ∃ more, rest = c :: d :: more :=
  ⟨rest.drop 2, by rw [← List.take_append_drop 2 rest, taken]; simp⟩

theorem OpensWide.opens (wide : OpensWide rest) : Opens rest := by
  rcases wide with rfl | blank | bracket | broken
  · rfl
  · rw [Opens, blank]; rfl
  · rw [Opens, bracket]; rfl
  · obtain ⟨more, rfl⟩ := exists_of_take_two broken
    rfl

theorem opens_nil : Opens [] := rfl

theorem Opens.append (opens : Opens letters) (filled : letters ≠ []) : Opens (letters ++ more) := by
  obtain ⟨c, letters, rfl⟩ := List.exists_cons_of_ne_nil filled
  exact opens

theorem OpensWide.append (wide : OpensWide letters) (filled : letters ≠ []) :
    OpensWide (letters ++ more) := by
  obtain ⟨c, letters, rfl⟩ := List.exists_cons_of_ne_nil filled
  rcases wide with empty | blank | bracket | broken
  · cases empty
  · exact .inr (.inl blank)
  · exact .inr (.inr (.inl bracket))
  · obtain ⟨_, same⟩ := exists_of_take_two broken
    rw [same]
    exact .inr (.inr (.inr rfl))

theorem Reads.read {tokens others : List Token} (reads : Reads letters tokens rest)
    (onwards : Scan.between.read rest = some others) :
    Scan.between.read (letters ++ rest) = some (tokens ++ others) := by
  rw [reads, onwards]
  rfl

namespace Scan

/-- The token ends in front of all that is apart. -/
def endsApart : Scan → Bool
  | between | word _ | number .. => true
  | closing quote _ => quote == '"' || quote == '\''
  | minus | comment | quoted .. | place _ => false

theorem continues?_of_isApart {scan : Scan} (ends : scan.endsApart = true) (apart : isApart c = true) :
    scan.continues? c = none := by
  simp only [isApart, List.contains_iff_mem, List.mem_cons, List.not_mem_nil, or_false] at apart
  cases scan with
  | between => rfl
  | word letters => rcases apart with rfl | rfl | rfl | rfl <;> rfl
  | number negative digits => rcases apart with rfl | rfl | rfl | rfl <;> rfl
  | closing quote letters =>
    simp only [endsApart, Bool.or_eq_true, beq_iff_eq] at ends
    rcases ends with rfl | rfl <;> rcases apart with rfl | rfl | rfl | rfl <;> rfl
  | _ => cases ends

theorem read_of_opens {scan : Scan} (ends : scan.endsApart = true) (opens : Opens rest) :
    scan.read rest = (between.read rest).map (scan.held ++ ·) :=
  read_of_none (by cases scan <;> first | rfl | cases ends) fun c first => by
    rw [Opens, Option.mem_def.mp first] at opens
    exact continues?_of_isApart ends opens

end Scan

/-- Letters after which the reader holds a token that ends in front of what is apart. -/
theorem reads_of_read {scan : Scan}
    (taken : Scan.between.read (letters ++ rest) = scan.read rest)
    (ends : scan.endsApart = true) (opens : Opens rest) : Reads letters scan.held rest :=
  taken.trans (Scan.read_of_opens ends opens)

/-- The first of the letters opens a token. -/
theorem Scan.read_between_cons {next : Scan} (begins : Scan.start c = ([], next)) :
    Scan.between.read (c :: rest) = next.read rest := by
  rw [Scan.read_cons, Scan.step_of_none rfl, begins]
  simp [Scan.held]

/-! ### Keywords and punctuation -/

/-- The tokens of a text of keywords and punctuation. -/
def bareTokens (text : String) : List Token :=
  (Scan.between.run text.toList).1 ++ (Scan.between.run text.toList).2.held

/-- A text that is complete, whatever comes after it. -/
def isFirm (text : String) : Bool := (Scan.between.run text.toList).2 == .between

/-- Nothing but keywords, punctuation and plain numbers. -/
def isBare (text : String) : Bool :=
  (Scan.between.run text.toList).2.endsApart && (bareTokens text).all Token.isBare

theorem reads_bare {text : String} (bare : isBare text = true)
    (ends : isFirm text = true ∨ Opens rest) : Reads text.toList (bareTokens text) rest := by
  have onwards : (Scan.between.run text.toList).2.read rest =
      (Scan.between.read rest).map ((Scan.between.run text.toList).2.held ++ ·) := by
    rcases ends with firm | opens
    · rw [eq_of_beq firm]
      simp [Scan.held]
    · exact Scan.read_of_opens (Bool.and_eq_true_iff.mp bare).1 opens
  unfold Reads bareTokens
  rw [Scan.read_append, onwards, Option.map_map]
  congr 1
  funext tokens
  simp

theorem isBare_of_mem_bareTokens {text : String} (bare : isBare text = true) {token : Token}
    (member : token ∈ bareTokens text) : token.isBare = true :=
  List.all_eq_true.mp (Bool.and_eq_true_iff.mp bare).2 token member

/-! ### Names and strings -/

/-- The token of a text between quotes. -/
def quotedToken (quote : Char) (text : String) : Token :=
  if quote = '"' then .name text else .string text

/-- Between quotes nothing is taken for anything else: a quote in the text is written twice and read
as one, and only the quote behind the text closes it. -/
theorem read_quoted (quote : Char) (seen text rest : List Char) :
    (Scan.quoted quote seen).read
        (text.flatMap (fun c => if c = quote then [c, c] else [c]) ++ quote :: rest) =
      (Scan.closing quote (seen ++ text)).read rest := by
  induction text generalizing seen with
  | nil =>
    rw [List.flatMap_nil, List.nil_append, List.append_nil]
    exact Scan.read_cons_of_some (by simp [Scan.continues?])
  | cons c text inductionHypothesis =>
    have onwards := inductionHypothesis (seen ++ [c])
    rw [List.append_assoc, List.singleton_append] at onwards
    rw [List.flatMap_cons, List.append_assoc, ← onwards]
    by_cases same : c = quote
    · have opened : (Scan.quoted quote seen).continues? c = some (.closing quote seen) := by
        simp [Scan.continues?, same]
      rw [if_pos same, List.cons_append, Scan.read_cons_of_some opened, List.singleton_append]
      exact Scan.read_cons_of_some (by simp [Scan.continues?, same])
    · rw [if_neg same, List.singleton_append]
      exact Scan.read_cons_of_some (by simp [Scan.continues?, same])

theorem reads_quotedBy {quote : Char} (known : quote = '"' ∨ quote = '\'') (text : String)
    (opens : Opens rest) : Reads (quotedBy quote text).toList [quotedToken quote text] rest := by
  have begins : Scan.start quote = ([], .quoted quote []) := by rcases known with rfl | rfl <;> rfl
  have ends : (Scan.closing quote text.toList).endsApart = true := by
    rcases known with rfl | rfl <;> rfl
  have taken : Scan.between.read ((quotedBy quote text).toList ++ rest) =
      (Scan.closing quote text.toList).read rest := by
    rw [quotedBy, String.toList_ofList, List.cons_append, List.cons_append, List.append_assoc,
      List.singleton_append, Scan.read_between_cons begins, read_quoted, List.nil_append]
  have token : (Scan.closing quote text.toList).held = [quotedToken quote text] := by
    rw [Scan.held, String.ofList_toList, quotedToken]
  exact token ▸ reads_of_read taken ends opens

theorem reads_identifier (name : String) (opens : Opens rest) :
    Reads (identifier name).toList [.name name] rest :=
  reads_quotedBy (.inl rfl) name opens

/-! ### Numbers -/

theorem start_digit (digit : c.isDigit = true) : Scan.start c = ([], .number false [c]) := by
  rw [Scan.start, if_pos digit]

theorem read_number (negative : Bool) (seen : List Char) {digits : List Char}
    (all : ∀ c ∈ digits, c.isDigit = true) :
    (Scan.number negative seen).read (digits ++ rest) =
      (Scan.number negative (seen ++ digits)).read rest := by
  induction digits generalizing seen with
  | nil => rw [List.nil_append, List.append_nil]
  | cons c digits inductionHypothesis =>
    have onwards := inductionHypothesis (seen ++ [c]) fun d member =>
      all d (List.mem_cons_of_mem _ member)
    rw [List.append_assoc, List.singleton_append] at onwards
    rw [List.cons_append, ← onwards]
    exact Scan.read_cons_of_some (if_pos (all c List.mem_cons_self))

/-- The digits of a number, and what they amount to. -/
theorem exists_digits (n : Nat) : ∃ first digits, n.repr.toList = first :: digits ∧
    (∀ c ∈ first :: digits, c.isDigit = true) ∧ Nat.ofDigitChars 10 (first :: digits) 0 = n := by
  obtain ⟨first, digits, made⟩ := List.exists_cons_of_ne_nil (Nat.toDigits_ne_nil (n := n) (b := 10))
  refine ⟨first, digits, by rw [Nat.toList_repr, made], fun c member => ?_, ?_⟩
  · exact Nat.isDigit_of_mem_toDigits (by decide) (by decide) (made ▸ member)
  · rw [← made, Nat.ofDigitChars_toDigits (by decide) (by decide)]

theorem reads_int (i : Int) (opens : Opens rest) : Reads (toString i).toList [.number i] rest := by
  cases i with
  | ofNat n =>
    obtain ⟨first, digits, made, all, amount⟩ := exists_digits n
    have taken : Scan.between.read ((toString (Int.ofNat n)).toList ++ rest) =
        (Scan.number false (first :: digits)).read rest := by
      have shown : (toString (Int.ofNat n)).toList = first :: digits := made
      rw [shown, List.cons_append,
        Scan.read_between_cons (start_digit (all first List.mem_cons_self)),
        read_number false _ fun c member => all c (List.mem_cons_of_mem _ member),
        List.singleton_append]
    have token : (Scan.number false (first :: digits)).held = [.number (Int.ofNat n)] := by
      simp [Scan.held, signed, amount]
    exact token ▸ reads_of_read taken rfl opens
  | negSucc n =>
    obtain ⟨first, digits, made, all, amount⟩ := exists_digits n.succ
    have taken : Scan.between.read ((toString (Int.negSucc n)).toList ++ rest) =
        (Scan.number true (first :: digits)).read rest := by
      have shown : (toString (Int.negSucc n)).toList = '-' :: first :: digits := by
        rw [← made]
        exact String.toList_append
      have minus : Scan.start '-' = ([], .minus) := rfl
      have goesOn : Scan.minus.continues? first = some (.number true [first]) :=
        if_pos (all first List.mem_cons_self)
      rw [shown, List.cons_append, List.cons_append, Scan.read_between_cons minus,
        Scan.read_cons_of_some goesOn,
        read_number true _ fun c member => all c (List.mem_cons_of_mem _ member),
        List.singleton_append]
    have token : (Scan.number true (first :: digits)).held = [.number (Int.negSucc n)] := by
      simp [Scan.held, signed, amount, Int.negSucc_eq]
    exact token ▸ reads_of_read taken rfl opens

/-! ### Places -/

theorem reads_question : Reads "?".toList [.place "?"] rest := by
  have shown : "?".toList = ['?'] := rfl
  unfold Reads
  rw [shown, List.singleton_append, Scan.read_cons, Scan.step_of_none rfl]
  rfl

theorem read_place (seen : List Char) {more : List Char}
    (free : ∀ c ∈ more, isReserved c = false) :
    (Scan.place seen).read (more ++ rest) = (Scan.place (seen ++ more)).read rest := by
  induction more generalizing seen with
  | nil => rw [List.nil_append, List.append_nil]
  | cons c more inductionHypothesis =>
    have onwards := inductionHypothesis (seen ++ [c]) fun d member =>
      free d (List.mem_cons_of_mem _ member)
    rw [List.append_assoc, List.singleton_append] at onwards
    have goesOn : isReserved c = false := free c List.mem_cons_self
    rw [List.cons_append, ← onwards]
    exact Scan.read_cons_of_some (by simp [Scan.continues?, goesOn])

/-- A place ends in front of a blank, and of a line break with a blank behind it. -/
theorem read_place_of_wide {seen : List Char} {last : Char} (solid : last ≠ '\n')
    (wide : OpensWide rest) :
    (Scan.place (seen ++ [last])).read rest =
      (Scan.between.read rest).map ([.place (String.ofList (seen ++ [last]))] ++ ·) := by
  have kept : (Scan.place (seen ++ [last])).held = [.place (String.ofList (seen ++ [last]))] := by
    rw [Scan.held, List.rdropWhile_concat_neg _ _ _ (by simpa using solid)]
  have apart {c : Char} {more : List Char} (reserved : isReserved c = true) :
      (Scan.place (seen ++ [last])).read (c :: more) =
        (Scan.between.read (c :: more)).map ((Scan.place (seen ++ [last])).held ++ ·) :=
    Scan.read_of_none rfl fun d first => by
      cases first
      simp [Scan.continues?, reserved]
  rw [← kept]
  rcases wide with rfl | blank | bracket | broken
  · exact Scan.read_of_none rfl fun c first => by cases first
  · obtain ⟨more, rfl⟩ := List.head?_eq_some_iff.mp blank
    exact apart rfl
  · obtain ⟨more, rfl⟩ := List.head?_eq_some_iff.mp bracket
    exact apart rfl
  · obtain ⟨more, rfl⟩ := exists_of_take_two broken
    have goesOn : (Scan.place (seen ++ [last])).continues? '\n' =
        some (.place (seen ++ [last] ++ ['\n'])) := rfl
    have same : (Scan.place (seen ++ [last] ++ ['\n'])).held =
        (Scan.place (seen ++ [last])).held := by
      rw [Scan.held, List.rdropWhile_concat_pos _ _ _ (by rfl), Scan.held]
    rw [Scan.read_cons_of_some goesOn,
      Scan.read_of_none rfl fun c first => by cases first; rfl, same]
    rfl

/-- A mark of letters that are not reserved, in front of what ends it. -/
theorem reads_colon {name : String} {seen : List Char} {last : Char}
    (shown : name.toList = seen ++ [last]) (free : ∀ c ∈ name.toList, isReserved c = false)
    (solid : last ≠ '\n') (wide : OpensWide rest) :
    Reads (":" ++ name).toList [.place (":" ++ name)] rest := by
  have letters : (":" ++ name).toList = ':' :: name.toList := String.toList_append
  have begins : Scan.start ':' = ([], .place [':']) := rfl
  unfold Reads
  rw [letters, List.cons_append, Scan.read_between_cons begins, read_place _ free, shown,
    ← List.append_assoc, read_place_of_wide solid wide]
  have token : String.ofList ([':'] ++ seen ++ [last]) = ":" ++ name := by
    rw [List.append_assoc, ← shown, List.singleton_append, ← letters, String.ofList_toList]
  rw [token]

end Olap.Sql
