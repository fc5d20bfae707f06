/-
Values in the text. Written with its values in it, a statement consists of the tokens of the statement
with places, and instead of each place there is one token, a number or a string, that reads as the value
that belongs in the place. So no value and no name ends its token early, whatever characters it holds:
nothing in them is ever taken for a part of the statement. One dialect fails this in one case: it sends
the number of rows that an offset without a limit implies beside the text even if values stand in it.
-/

import Olap.Proofs.Placeholders

namespace Olap.Sql

/-- A value that is written as one number or one string. -/
def IsPlain : Value → Prop
  | .int _ | .text _ => True
  | _ => False

/-- The token reads as the value. -/
def Token.Denotes : Token → Value → Prop
  | .number i, .int j => i = j
  | .string s, .text t => s = t
  | _, _ => False

/-- Tokens with places and tokens with values: each place is filled by one token that denotes the value
that is sent for this place, and everything else is the same. -/
inductive Fills (dialect : Dialect) : List (String × Value) → List Token → List Token → Prop
  | done : Fills dialect [] [] []
  | keep {token : Token} {values : List (String × Value)} {slotted filled : List Token} :
    token.place? = none → Fills dialect values slotted filled →
      Fills dialect values (token :: slotted) (token :: filled)
  | fill {name : String} {value : Value} {token : Token} {values : List (String × Value)}
    {slotted filled : List Token} :
    token.Denotes value → Fills dialect values slotted filled →
      Fills dialect ((name, value) :: values) (.place (placeMark dialect name) :: slotted)
        (token :: filled)

variable {dialect : Dialect} {values : List (String × Value)} {slotted filled : List Token}
  {letters : List Char} {pieces : List Piece}

theorem Fills.append_left {kept : List Token} (bare : ∀ token ∈ kept, token.isBare = true)
    (fills : Fills dialect values slotted filled) :
    Fills dialect values (kept ++ slotted) (kept ++ filled) := by
  induction kept with
  | nil => exact fills
  | cons token kept inductionHypothesis =>
    have plain := bare token List.mem_cons_self
    refine .keep ?_ (inductionHypothesis fun other member =>
      bare other (List.mem_cons_of_mem _ member))
    cases token <;> first | rfl | cases plain

theorem Token.Denotes.unnamed {token : Token} {value : Value} (denotes : token.Denotes value) :
    token.name? = none := by
  cases token <;> first | rfl | exact absurd denotes (by cases value <;> exact id)

/-- Filling places leaves the names as they are. -/
theorem Fills.names (fills : Fills dialect values slotted filled) :
    slotted.filterMap Token.name? = filled.filterMap Token.name? := by
  induction fills with
  | done => rfl
  | keep plain fills inductionHypothesis =>
    rw [List.filterMap_cons, List.filterMap_cons, inductionHypothesis]
  | fill denotes fills inductionHypothesis =>
    rw [List.filterMap_cons_none rfl, List.filterMap_cons_none denotes.unnamed,
      inductionHypothesis]

/-! ### Reading the text -/

/-- A plain value is read back from its literal. -/
theorem exists_literal (dialect : Dialect) {value : Value} (plain : IsPlain value) :
    ∃ shown token, literal? dialect value = some shown ∧ token.Denotes value ∧
      ∀ letters, Opens letters → Reads shown.toList [token] letters := by
  cases value with
  | int i => exact ⟨_, .number i, rfl, rfl, fun _ opens => reads_int i opens⟩
  | text s => exact ⟨_, .string s, rfl, rfl, fun _ opens => reads_quotedBy (.inr rfl) s opens⟩
  | _ => cases plain

/-- Nothing but plain values stands in the places, and none has to travel beside the text. -/
def IsInline : Piece → Prop
  | .raw _ | .name _ => True
  | .slot _ value => IsPlain value
  | .fixed _ => False

/-- A reader finds the pieces in the text with values, each value in its place. -/
theorem exists_literalText (uses : Uses) (spaced : Spaced pieces)
    (inline : ∀ piece ∈ pieces, IsInline piece) :
    ∃ literal filled, literalText dialect pieces = .ok literal ∧
      StartsWith literal.toList pieces ∧ Scan.between.read literal.toList = some filled ∧
      Fills dialect (boundText dialect uses pieces).2 (boundTokens dialect uses pieces) filled ∧
      filled.filterMap Token.name? = pieces.flatMap namesIn := by
  induction pieces generalizing uses with
  | nil => exact ⟨"", [], rfl, rfl, rfl, .done, rfl⟩
  | cons piece rest inductionHypothesis =>
    have later : ∀ piece ∈ rest, IsInline piece := fun other member =>
      inline other (List.mem_cons_of_mem _ member)
    cases piece with
    | raw text =>
      obtain ⟨bare, ends, spaced⟩ := spaced
      obtain ⟨literal, filled, written, starts, read, fills, named⟩ :=
        inductionHypothesis uses spaced later
      have unnamed : (bareTokens text).filterMap Token.name? = [] :=
        List.filterMap_eq_nil_iff.mpr fun token member => by
          have plain := isBare_of_mem_bareTokens bare member
          cases token <;> first | rfl | cases plain
      refine ⟨text ++ literal, bareTokens text ++ filled, by rw [literalText, written]; rfl,
        ⟨_, String.toList_append⟩, ?_, fills.append_left fun _ => isBare_of_mem_bareTokens bare, ?_⟩
      · rw [String.toList_append]
        exact (reads_bare bare (ends.imp_right fun begins => begins.opens_letters starts)).read read
      · rw [List.filterMap_append, unnamed, named]
        rfl
    | name text =>
      obtain ⟨begins, spaced⟩ := spaced
      obtain ⟨literal, filled, written, starts, read, fills, named⟩ :=
        inductionHypothesis uses spaced later
      refine ⟨identifier text ++ literal, .name text :: filled, by rw [literalText, written]; rfl,
        trivial, ?_, .keep rfl fills, congrArg (text :: ·) named⟩
      rw [String.toList_append]
      exact (reads_identifier text (begins.opens_letters starts)).read read
    | slot column value =>
      obtain ⟨begins, spaced⟩ := spaced
      obtain ⟨literal, filled, written, starts, read, fills, named⟩ :=
        inductionHypothesis (nextPlaceholder uses column).2 spaced later
      obtain ⟨shown, token, literally, denotes, reads⟩ :=
        exists_literal dialect (inline _ List.mem_cons_self)
      have filling : Fills dialect (boundText dialect uses (.slot column value :: rest)).2
          (boundTokens dialect uses (.slot column value :: rest)) (token :: filled) :=
        .fill denotes fills
      refine ⟨shown ++ literal, token :: filled, by rw [literalText, literally, written]; rfl,
        trivial, ?_, filling, ?_⟩
      · rw [String.toList_append]
        exact (reads _ (begins.wide_letters starts).opens).read read
      · rw [List.filterMap_cons_none denotes.unnamed, named]
        rfl
    | fixed value => exact (inline _ List.mem_cons_self).elim

/-! ### The pieces of a query with plain values -/

/-- The layers of a query, the innermost first. -/
def layers : Query → List Layer
  | .scan _ layer => [layer]
  | .derived source layer => layers source ++ [layer]

/-- The values in a piece that travel beside the text in any case. -/
def fixedIn : Piece → List Value
  | .fixed value => [value]
  | _ => []

theorem fixedIn_places (p : Predicate) : (places p).flatMap fixedIn = [] := by
  cases p with
  | equals name value => cases value <;> rfl
  | _ => rfl

theorem fixedless_layer {inner : Bool} {source : List Piece} {columns : Columns} {layer : Layer}
    (written : layerPieces dialect inner source columns layer = .ok pieces)
    (below : source.flatMap fixedIn = [])
    (complete : dialect = .sqlite → layer.offset ≠ none → layer.limit ≠ none) :
    pieces.flatMap fixedIn = [] := by
  have unnamed (names : List String) : (names.flatMap fun name => fixedIn (.name name)) = [] :=
    List.flatMap_eq_nil_iff.mpr fun _ _ => rfl
  have numbers : (limitPieces dialect layer.limit layer.offset).flatMap fixedIn = [] := by
    cases dialect <;> cases limited : layer.limit <;> cases skipped : layer.offset <;>
      first | rfl | exact absurd limited (complete rfl (by simp [skipped]))
  rw [flatMap_layer (fun _ => rfl) written]
  simp only [unnamed, below, fixedIn_places, numbers, List.append_nil, List.nil_append]
  exact List.flatMap_eq_nil_iff.mpr fun _ _ => rfl

theorem fixedless_query {inner : Bool} {q : Query}
    (written : queryPieces dialect inner q = .ok pieces)
    (complete : dialect = .sqlite → ∀ layer ∈ layers q, layer.offset ≠ none →
      layer.limit ≠ none) :
    pieces.flatMap fixedIn = [] := by
  induction q generalizing inner pieces with
  | scan table layer =>
    exact fixedless_layer written rfl fun lite => complete lite layer List.mem_cons_self
  | derived source layer inductionHypothesis =>
    obtain ⟨below, found, written⟩ := exists_of_derivedPieces written
    have free := inductionHypothesis found fun lite other member =>
      complete lite other (List.mem_append_left _ member)
    refine fixedless_layer written (by simp [free, fixedIn]) fun lite =>
      complete lite layer (List.mem_append_right _ List.mem_cons_self)

/-- What is sent along besides the given values are numbers. -/
theorem isPlain_of_mem_sentValues (dialect : Dialect) {q : Query}
    (plain : ∀ value ∈ givenValues q, IsPlain value) :
    ∀ value ∈ sentValues dialect q, IsPlain value := by
  have own (layer : Layer) (compared : ∀ value ∈ layer.predicates.flatMap comparedValues,
      IsPlain value) : ∀ value ∈ layerValues dialect layer, IsPlain value :=
    List.forall_mem_append.mpr ⟨compared, List.forall_mem_map.mpr fun _ _ => trivial⟩
  induction q with
  | scan table layer => exact own layer (List.forall_mem_append.mp plain).1
  | derived source layer inductionHypothesis =>
    obtain ⟨below, here⟩ := List.forall_mem_append.mp plain
    exact List.forall_mem_append.mpr
      ⟨inductionHypothesis below, own layer (List.forall_mem_append.mp here).1⟩

theorem inline_of_queryPieces {inner : Bool} {q : Query}
    (written : queryPieces dialect inner q = .ok pieces)
    (plain : ∀ value ∈ givenValues q, IsPlain value)
    (complete : dialect = .sqlite → ∀ layer ∈ layers q, layer.offset ≠ none →
      layer.limit ≠ none) :
    ∀ piece ∈ pieces, IsInline piece := by
  intro piece member
  cases piece with
  | raw text => trivial
  | name text => trivial
  | slot column value =>
    refine isPlain_of_mem_sentValues dialect plain value ?_
    rw [← values_of_queryPieces written]
    exact List.mem_flatMap.mpr ⟨_, member, List.mem_cons_self⟩
  | fixed value =>
    have none := List.flatMap_eq_nil_iff.mp (fixedless_query written complete) _ member
    cases none

/-- A statement with its values in it differs from the statement with places in nothing but the values.
Read by the rules for quoted names and strings, it has the tokens of the other, but for each place it has
one token, a number or a string, that reads as the value that is sent for the place; and what is read as
a name is a name of the query, in both. Where one dialect needs an offset to come with a limit, the query
gives both. -/
theorem literal_fills_bound (dialect : Dialect) {q : Query}
    (plain : ∀ value ∈ givenValues q, IsPlain value)
    (complete : dialect = .sqlite → ∀ layer ∈ layers q, layer.offset ≠ none →
      layer.limit ≠ none)
    {bound : String} (written : text dialect .bound q = .ok bound) :
    ∃ literal values slotted filled,
      text dialect .literal q = .ok literal ∧ parameters dialect q = .ok values ∧
      tokens? bound = some slotted ∧ tokens? literal = some filled ∧
      Fills dialect values slotted filled ∧ (values.map (·.1)).Nodup ∧
      slotted.filterMap Token.name? = spelled false q ∧
      filled.filterMap Token.name? = spelled false q := by
  obtain ⟨pieces, made, spaced, rfl, sent⟩ := text_bound_ok written
  obtain ⟨literal, filled, inText, -, read, fills, named⟩ :=
    exists_literalText [] spaced (inline_of_queryPieces made plain complete)
  rw [names_of_queryPieces made] at named
  refine ⟨literal, _, _, filled, by rw [text, made]; exact inText, sent, read_boundText [] spaced, read,
    fills, (names_boundText dialect [] pieces).2, fills.names.trans named, named⟩

open Market in
theorem literal_fills_bound_bestSelling :
    (∀ value ∈ givenValues (bestSelling "x' OR '1' = '1" (-7) 0 10), IsPlain value) ∧
      ∃ literal values slotted filled,
        text .sqlite .literal (bestSelling "x' OR '1' = '1" (-7) 0 10) = .ok literal ∧
        parameters .sqlite (bestSelling "x' OR '1' = '1" (-7) 0 10) = .ok values ∧
        Fills .sqlite values slotted filled ∧
        filled.filterMap Token.name? =
          ["city", "amount_sum", "place.city", "city", "amount", "amount_sum", "sales", "place.city",
            "amount", "place.city", "amount_sum"] := by
  have plain : ∀ value ∈ givenValues (bestSelling "x' OR '1' = '1" (-7) 0 10), IsPlain value := by
    simp [givenValues, bestSelling, comparedValues, IsPlain, Layer.whole]
  obtain ⟨literal, values, slotted, filled, written, sent, -, -, fills, -, -, named⟩ :=
    literal_fills_bound .sqlite plain (by simp [layers, bestSelling, Layer.whole]) rfl
  exact ⟨plain, literal, values, slotted, filled, written, sent, fills, named⟩

/-- A statement with its values in it that still has a place. -/
theorem exists_place_in_literal :
    ∃ q : Query, (∀ value ∈ givenValues q, IsPlain value) ∧
      text .sqlite .literal q = .ok "SELECT * \nFROM \"sales\"\n LIMIT ? OFFSET 3" ∧
      ∃ tokens, tokens? "SELECT * \nFROM \"sales\"\n LIMIT ? OFFSET 3" = some tokens ∧
        .place "?" ∈ tokens := by
  refine ⟨.scan "sales" { Layer.whole with offset := some 3 }, ?_, rfl, _, rfl, by decide⟩
  simp [givenValues, IsPlain, Layer.whole]

end Olap.Sql
