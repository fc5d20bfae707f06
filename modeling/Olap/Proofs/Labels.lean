/-
Labels. The select list of a statement labels the columns of its answer: an item has the name that is
given to it, and a column that is given none has its own. Read off the text of a statement, the labels
are the names that the query says its rows have, through any number of queries inside one another, some
of which select columns and some of which keep all that they read.
-/

import Olap.Proofs.Placeholders

namespace Olap.Sql

/-! ### The labels of a statement -/

/-- What stands inside an item of a select list. -/
def Token.isInside (token : Token) : Bool :=
  token != .word ['F', 'R', 'O', 'M'] && token != .mark ','

/-- The labels of a select list up to the word behind it. The last name in an item labels it; the name
that has been seen last in the item that is being read is kept. -/
def labelsFrom (seen : Option String) : List Token → Option (List String)
  | [] => none
  | token :: rest =>
    if token = .word ['F', 'R', 'O', 'M'] then seen.map ([·])
    else if token = .mark ',' then
      seen.bind fun label => (labelsFrom none rest).map (label :: ·)
    else labelsFrom (token.name?.or seen) rest

/-- The labels of the columns that a statement selects, unless it selects some without naming them. -/
def labels? (statement : String) : Option (List String) :=
  labelsFrom none (Scan.between.run statement.toList).1

example : labels? "SELECT sum(\"amount\") AS \"amount_sum\", s.\"city\" \nFROM \"sales\"" =
    some ["amount_sum", "city"] := by decide +kernel

/-! ### Items of a select list -/

variable {seen : Option String} {label : String} {tokens rest : List Token}

theorem labelsFrom_of_inside (inside : ∀ token ∈ tokens, token.isInside = true) :
    labelsFrom seen (tokens ++ rest) =
      labelsFrom ((tokens.filterMap Token.name?).getLast?.or seen) rest := by
  induction tokens generalizing seen with
  | nil => rfl
  | cons token others inductionHypothesis =>
    obtain ⟨first, later⟩ := List.forall_mem_cons.mp inside
    rw [Token.isInside, Bool.and_eq_true, bne_iff_ne, bne_iff_ne] at first
    rw [List.cons_append, labelsFrom, if_neg first.1, if_neg first.2, inductionHypothesis later]
    congr 1
    cases named : token.name? with
    | none => rw [List.filterMap_cons_none named, Option.none_or]
    | some text =>
      rw [List.filterMap_cons_some named, List.getLast?_cons]
      cases (others.filterMap Token.name?).getLast? <;> rfl

/-- The tokens of an item that has a label. -/
structure IsItem (label : String) (tokens : List Token) : Prop where
  inside : ∀ token ∈ tokens, token.isInside = true
  last : (tokens.filterMap Token.name?).getLast? = some label

theorem IsItem.labelsFrom (item : IsItem label tokens) :
    labelsFrom seen (tokens ++ rest) = labelsFrom (some label) rest := by
  rw [labelsFrom_of_inside item.inside, item.last, Option.some_or]

/-- A name behind what stands inside an item. -/
theorem isItem_concat (inside : ∀ token ∈ tokens, token.isInside = true) (label : String) :
    IsItem label (tokens ++ [.name label]) where
  inside := List.forall_mem_append.mpr ⟨inside, List.forall_mem_singleton.mpr rfl⟩
  last := by rw [List.filterMap_append]; exact List.getLast?_concat

/-! ### The tokens of pieces -/

variable {pieces more : List Piece} {columns : Columns} {dialect : Dialect} {uses : Uses}

/-- The tokens of a piece without a value. -/
def tokensIn : Piece → List Token
  | .raw text => bareTokens text
  | .name text => [.name text]
  | .slot .. | .fixed _ => []

theorem boundTokens_of_valueless (free : pieces.flatMap valuesIn = []) :
    boundTokens dialect uses pieces = pieces.flatMap tokensIn := by
  induction pieces with
  | nil => rfl
  | cons piece rest inductionHypothesis =>
    rw [List.flatMap_cons, List.append_eq_nil_iff] at free
    rw [List.flatMap_cons, ← inductionHypothesis free.2]
    cases piece with
    | raw text => rfl
    | name text => rfl
    | slot label value => cases free.1
    | fixed value => cases free.1

theorem boundText_append (dialect : Dialect) (uses : Uses) (more : List Piece)
    (free : pieces.flatMap valuesIn = []) :
    (boundText dialect uses (pieces ++ more)).1 =
      (boundText dialect [] pieces).1 ++ (boundText dialect uses more).1 := by
  induction pieces with
  | nil => exact String.empty_append.symm
  | cons piece rest inductionHypothesis =>
    rw [List.flatMap_cons, List.append_eq_nil_iff] at free
    have later := inductionHypothesis free.2
    cases piece with
    | raw text => exact (congrArg (text ++ ·) later).trans String.append_assoc.symm
    | name text => exact (congrArg (identifier text ++ ·) later).trans String.append_assoc.symm
    | slot label value => cases free.1
    | fixed value => cases free.1

theorem literalText_append (dialect : Dialect) (more : List Piece) (free : pieces.flatMap valuesIn = []) :
    literalText dialect (pieces ++ more) =
      (literalText dialect more).map ((boundText dialect [] pieces).1 ++ ·) := by
  induction pieces with
  | nil => cases made : literalText dialect more <;> simp [made, boundText, Except.map]
  | cons piece rest inductionHypothesis =>
    rw [List.flatMap_cons, List.append_eq_nil_iff] at free
    have later := inductionHypothesis free.2
    cases piece with
    | raw text =>
      rw [List.cons_append, literalText, later]
      cases literalText dialect more <;> simp [boundText, Except.map, String.append_assoc]
    | name text =>
      rw [List.cons_append, literalText, later]
      cases literalText dialect more <;> simp [boundText, Except.map, String.append_assoc]
    | slot label value => cases free.1
    | fixed value => cases free.1

theorem exists_of_text {mode : Mode} {q : Query} {statement : String}
    (written : text dialect mode q = .ok statement) :
    ∃ pieces, queryPieces dialect false q = .ok pieces := by
  cases made : queryPieces dialect false q with
  | error fault => rw [text, made] at written; cases written
  | ok pieces => exact ⟨pieces, rfl⟩

/-- A statement begins with the text of pieces without values, whether values stand in it or not. -/
theorem exists_text_of_valueless {mode : Mode} {q : Query} {statement : String}
    (made : queryPieces dialect false q = .ok (pieces ++ more))
    (free : pieces.flatMap valuesIn = []) (written : text dialect mode q = .ok statement) :
    ∃ after, statement = (boundText dialect [] pieces).1 ++ after := by
  rw [text, made] at written
  cases mode with
  | bound =>
    cases written
    exact ⟨_, boundText_append dialect [] more free⟩
  | literal =>
    have split := literalText_append dialect more free
    obtain ⟨after, -, rfl⟩ := Result.map_ok.1 (split.symm.trans written)
    exact ⟨after, rfl⟩

/-! ### The select list of a query -/

/-- Nothing in the pieces ends an item of a select list. -/
def KeepsInside (pieces : List Piece) : Prop :=
  ∀ token ∈ pieces.flatMap tokensIn, token.isInside = true

theorem KeepsInside.append (first : KeepsInside pieces) (second : KeepsInside more) :
    KeepsInside (pieces ++ more) := by
  unfold KeepsInside
  rw [List.flatMap_append]
  exact List.forall_mem_append.mpr ⟨first, second⟩

theorem keepsInside_raw (text : String)
    (inside : (bareTokens text).all Token.isInside = true) : KeepsInside [.raw text] := by
  unfold KeepsInside
  rw [List.flatMap_singleton]
  exact List.all_eq_true.mp inside

theorem keepsInside_name (text : String) : KeepsInside [.name text] :=
  List.forall_mem_singleton.mpr rfl

theorem keepsInside_reference {name : String} (referred : columns.reference name = .ok pieces) :
    KeepsInside pieces := by
  unfold Columns.reference at referred
  split at referred
  · cases referred
    exact keepsInside_name name
  · split at referred
    · cases referred
      exact keepsInside_raw "s.*" (by decide)
    · cases referred
  · split at referred
    · cases referred
    · split at referred
      · cases referred
        exact (keepsInside_raw "s." (by decide)).append (keepsInside_name name)
      · cases referred

theorem keepsInside_expression {e : Expression} (written : expressionPieces columns e = .ok pieces) :
    KeepsInside pieces := by
  match e with
  | .column name => exact keepsInside_reference written
  | .aggregate function none =>
    cases written
    exact keepsInside_raw _ (by cases function <;> decide)
  | .aggregate function (some name) =>
    obtain ⟨referred, known, rfl⟩ := Result.map_ok.1 written
    exact ((keepsInside_raw _ (by cases function <;> decide)).append
      (keepsInside_reference known)).append (keepsInside_raw ")" (by decide))

/-- A name behind pieces that keep inside an item labels the item. -/
theorem KeepsInside.isItem (inside : KeepsInside pieces) (label : String) :
    IsItem label ((pieces ++ [Piece.name label]).flatMap tokensIn) := by
  rw [List.flatMap_append]
  exact isItem_concat inside label

theorem isItem_projection {p : Projection} (written : projectionPieces columns p = .ok pieces) :
    IsItem p.name (pieces.flatMap tokensIn) := by
  obtain ⟨expression, known, rfl⟩ := Result.map_ok.1 written
  have inside : KeepsInside (expression ++ [.raw " AS "]) :=
    (keepsInside_expression known).append (keepsInside_raw " AS " (by decide))
  have item := inside.isItem p.name
  rwa [List.append_assoc] at item

/-- A column of an inner query that is selected with all others. -/
theorem isItem_kept (inner : Bool) (name : String) :
    IsItem name (([Piece.raw "s.", .name name] ++
      (if inner then [Piece.raw " AS ", .name name] else [])).flatMap tokensIn) := by
  have own : KeepsInside [.raw "s."] := keepsInside_raw "s." (by decide)
  cases inner with
  | false => exact own.isItem name
  | true =>
    exact ((own.append (keepsInside_name name)).append
      (keepsInside_raw " AS " (by decide))).isItem name

/-- The labels of items between commas. -/
theorem labelsFrom_commas {items : List (List Piece)} {labels : List String}
    (each : List.Forall₂ (fun item label => IsItem label (item.flatMap tokensIn)) items labels)
    (filled : labels ≠ []) :
    labelsFrom seen ((commas items).flatMap tokensIn ++ .word ['F', 'R', 'O', 'M'] :: rest) =
      some labels := by
  induction each generalizing seen with
  | nil => exact absurd rfl filled
  | @cons item label others names first later inductionHypothesis =>
    cases later with
    | nil =>
      rw [commas, List.intercalate_singleton, first.labelsFrom]
      rfl
    | @cons other name others names second further =>
      have split : (commas (item :: other :: others)).flatMap tokensIn =
          item.flatMap tokensIn ++ .mark ',' :: (commas (other :: others)).flatMap tokensIn := by
        rw [commas, List.intercalate_cons_cons, List.flatMap_append, List.flatMap_append,
          List.append_assoc]
        rfl
      rw [split, List.append_assoc, first.labelsFrom, List.cons_append, labelsFrom,
        if_neg (by decide), if_pos rfl, inductionHypothesis (List.cons_ne_nil _ _)]
      rfl

/-- The names of columns, if they are known. -/
def Columns.names? : Columns → Option (List String)
  | table | starred => none
  | named names => some names

theorem table_names?_ne_nil : Columns.table.names? ≠ some [] := by simp [Columns.names?]

theorem names?_selected_ne_nil (q : Query) : (selected q).names? ≠ some [] := by
  have own (layer : Layer) (filled : ¬layer.projections.isEmpty) :
      (Columns.named (layer.projections.map (·.name))).names? ≠ some [] := by
    simpa [Columns.names?] using filled
  induction q with
  | scan table layer =>
    rw [selected]
    split
    · simp [Columns.names?]
    · exact own layer ‹_›
  | derived source layer inductionHypothesis =>
    rw [selected]
    split
    · exact inductionHypothesis
    · exact own layer ‹_›

/-- All columns of a source are labelled by their names, if the names are known. -/
theorem labelsFrom_everything {inner : Bool} (filled : columns.names? ≠ some [])
    (selected : columns.everything inner = .ok pieces) :
    labelsFrom none (pieces.flatMap tokensIn ++ .word ['F', 'R', 'O', 'M'] :: rest) =
      columns.names? := by
  unfold Columns.everything at selected
  split at selected
  · cases selected
    rfl
  · cases selected
    rfl
  · split at selected
    · cases selected
    · rename_i names _
      cases selected
      refine labelsFrom_commas ?_ fun empty => filled (congrArg some empty)
      rw [List.forall₂_map_left_iff, List.forall₂_same]
      exact fun name _ => isItem_kept inner name

/-- What a layer selects is labelled by the names it gives, or else by those of its source. -/
theorem labelsFrom_selection {inner : Bool} {layer : Layer} {projections : List (List Piece)}
    (filled : columns.names? ≠ some [])
    (projected : every (projectionPieces columns) layer.projections = .ok projections)
    (chosen : selectionPieces inner columns layer projections = .ok pieces) :
    labelsFrom none (pieces.flatMap tokensIn ++ .word ['F', 'R', 'O', 'M'] :: rest) =
      if layer.projections.isEmpty then columns.names?
      else some (layer.projections.map (·.name)) := by
  unfold selectionPieces at chosen
  split at chosen
  · rename_i empty
    rw [if_pos empty]
    exact labelsFrom_everything filled chosen
  · rename_i some
    rw [if_neg some]
    cases chosen
    refine labelsFrom_commas ?_ (by simpa using some)
    rw [List.forall₂_map_right_iff]
    exact (forall₂_of_every projected).flip.imp fun _ _ => isItem_projection

/-! ### The beginning of a statement -/

/-- Where a reader waits for a quote, it is one of the two that open names and strings. -/
def Scan.HasKnownQuote : Scan → Prop
  | quoted quote _ | closing quote _ => quote = '"' ∨ quote = '\''
  | _ => True

theorem Scan.HasKnownQuote.step {scan : Scan} (known : scan.HasKnownQuote) (c : Char) :
    (scan.step c).2.HasKnownQuote := by
  have begins : (start c).2.HasKnownQuote := by
    unfold start
    split_ifs <;> trivial
  unfold Scan.step
  cases goesOn : scan.continues? c with
  | none => exact begins
  | some next =>
    cases scan <;> unfold continues? at goesOn <;> grind [HasKnownQuote]

theorem Scan.hasKnownQuote_run {scan : Scan} (known : scan.HasKnownQuote) (letters : List Char) :
    (scan.run letters).2.HasKnownQuote := by
  induction letters generalizing scan with
  | nil => exact known
  | cons c rest inductionHypothesis => exact inductionHypothesis (known.step c)

/-- Nothing is held back behind a blank. -/
theorem Scan.held_of_blank (letters : List Char) :
    (Scan.between.run (letters ++ [' '])).2.held = [] := by
  have nothing : between.HasKnownQuote := trivial
  have known := hasKnownQuote_run nothing letters
  rw [run_append]
  show ((Scan.between.run letters).2.step ' ').2.held = []
  revert known
  cases (Scan.between.run letters).2 with
  | quoted quote seen => rintro (rfl | rfl) <;> rfl
  | closing quote seen => rintro (rfl | rfl) <;> rfl
  | _ => exact fun _ => rfl

/-- The beginning of a statement, up to what it reads. -/
def selectClause (selection : List Piece) : List Piece :=
  .raw "SELECT " :: (selection ++ [.raw " \nFROM "])

/-- Pieces that begin with a select list of the labels. -/
def Selects (labels : Option (List String)) (pieces : List Piece) : Prop :=
  ∃ selection after, pieces = selectClause selection ++ after ∧ Fits Opens selection ∧
    selection.flatMap valuesIn = [] ∧ ∀ rest,
      labelsFrom none (selection.flatMap tokensIn ++ .word ['F', 'R', 'O', 'M'] :: rest) = labels

theorem selects_layer {inner : Bool} {source : List Piece} {layer : Layer}
    (filled : columns.names? ≠ some [])
    (made : layerPieces dialect inner source columns layer = .ok pieces) :
    Selects (if layer.projections.isEmpty then columns.names?
      else some (layer.projections.map (·.name))) pieces := by
  obtain ⟨projections, conditions, groups, orders, selection, projected, -, -, -, chosen, rfl⟩ :=
    exists_of_layerPieces made
  refine ⟨selection, source ++ (clause " \nWHERE " " AND " conditions ++
    (clause " GROUP BY " ", " groups ++ (clause " ORDER BY " ", " orders ++
      limitPieces dialect layer.limit layer.offset))), ?_, fits_selection projected chosen,
    valueless_selection projected chosen, fun rest => labelsFrom_selection filled projected chosen⟩
  rw [selectClause, List.append_assoc, List.singleton_append, List.cons_append, List.append_assoc,
    List.singleton_append]

/-- The pieces of a query begin with a select list of the names of its columns. -/
theorem selects_query {inner : Bool} {q : Query} (made : queryPieces dialect inner q = .ok pieces) :
    Selects (selected q).names? pieces := by
  cases q with
  | scan table layer =>
    have selects := selects_layer table_names?_ne_nil made
    rw [selected]
    split at selects <;> rename_i empty
    · rwa [if_pos empty]
    · rwa [if_neg empty]
  | derived source layer =>
    obtain ⟨below, -, made⟩ := exists_of_derivedPieces made
    have selects := selects_layer (names?_selected_ne_nil source) made
    rw [selected]
    split at selects <;> rename_i empty
    · rwa [if_pos empty]
    · rwa [if_neg empty]

theorem spaced_selectClause {selection : List Piece} (fits : Fits Opens selection) :
    Spaced (selectClause selection) := by
  have whole : Fits OpensWide (selectClause selection) :=
    (fits.wide.linked (by decide) fits_nil).after (by decide) (by decide)
  have alone := whole [] trivial trivial
  rwa [List.append_nil] at alone

theorem tokensIn_selectClause (selection : List Piece) :
    (selectClause selection).flatMap tokensIn =
      .word "SELECT".toList :: (selection.flatMap tokensIn ++ [.word ['F', 'R', 'O', 'M']]) := by
  rw [selectClause, List.flatMap_cons, List.flatMap_append]
  rfl

/-- The beginning of a statement ends with a blank. -/
theorem exists_blank_behind (dialect : Dialect) {selection : List Piece}
    (free : selection.flatMap valuesIn = []) : ∃ letters,
      (boundText dialect [] (selectClause selection)).1.toList = letters ++ [' '] := by
  have valueless : (Piece.raw "SELECT " :: selection).flatMap valuesIn = [] := free
  have split := boundText_append dialect [] [.raw " \nFROM "] valueless
  refine ⟨(boundText dialect [] (.raw "SELECT " :: selection)).1.toList ++ " \nFROM".toList, ?_⟩
  have last : (boundText dialect [] [.raw " \nFROM "]).1.toList = " \nFROM".toList ++ [' '] := by
    cases dialect <;> decide
  rw [selectClause, ← List.cons_append, split, String.toList_append, last, List.append_assoc]

/-- The labels of a statement are the names of the columns that its query selects. -/
theorem labels?_of_text {mode : Mode} {q : Query} {statement : String}
    (written : text dialect mode q = .ok statement) : labels? statement = (selected q).names? := by
  obtain ⟨pieces, made⟩ := exists_of_text written
  obtain ⟨selection, after, rfl, fits, free, labelled⟩ := selects_query made
  have valueless : (selectClause selection).flatMap valuesIn = [] := by
    rw [selectClause, List.flatMap_cons, List.flatMap_append, free]
    rfl
  obtain ⟨behind, rfl⟩ := exists_text_of_valueless made valueless written
  -- The select list ends with a blank, so by then a reader holds none of its tokens back.
  obtain ⟨letters, ending⟩ := exists_blank_behind dialect free
  have whole : (Scan.between.run (letters ++ [' '])).1 = (selectClause selection).flatMap tokensIn := by
    have read : Scan.between.read (boundText dialect [] (selectClause selection)).1.toList = _ :=
      read_boundText [] (spaced_selectClause fits)
    rw [ending, Scan.read] at read
    split at read
    · cases read
    · rw [Scan.held_of_blank, List.append_nil, boundTokens_of_valueless valueless] at read
      exact Option.some.inj read
  rw [labels?, String.toList_append, ending, Scan.run_append]
  dsimp only
  rw [whole, tokensIn_selectClause, List.cons_append, labelsFrom, if_neg (by decide),
    if_neg (by decide), List.append_assoc]
  exact labelled _

end Olap.Sql
