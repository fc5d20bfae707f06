/-
Values beside the text. A statement whose values travel beside it is the same for all values: two
queries that differ in nothing but the values that they compare with and their numbers of rows have one
text. Its places have names of their own, each made from a column and a count of its uses, and the values
come in the order of their places: what the query reads first, then the conditions, then the numbers.
-/

import Olap.Proofs.Layout

namespace Olap

/-- A condition without the values that stand in places. -/
def Predicate.form : Predicate → Predicate
  | .equals column .null => .equals column .null
  | .equals column (.bool b) => .equals column (.bool b)
  | .equals column _ => .equals column (.int 0)
  | .between column _ _ => .between column (.int 0) (.int 0)
  | .present column => .present column
  | .other column => .other column

/-- A layer without the values of its conditions, its numbers of rows and what it is for. -/
def Layer.form (layer : Layer) : Layer :=
  { layer with
    predicates := layer.predicates.map Predicate.form
    limit := layer.limit.map fun _ => 0
    offset := layer.offset.map fun _ => 0
    label := "" }

/-- What is left of a query when its values are put aside. -/
def Query.form : Query → Query
  | .scan table layer => .scan table layer.form
  | .derived source layer => .derived source.form layer.form

namespace Sql

variable {pieces rest : List Piece} {columns : Columns} {dialect : Dialect} {uses : Uses}

/-! ### The pieces of a query without its values -/

def Piece.form : Piece → Piece
  | .slot label _ => .slot label (.int 0)
  | piece => piece

theorem map_form_eq (free : pieces.flatMap valuesIn = []) : pieces.map Piece.form = pieces := by
  have each : ∀ piece ∈ pieces, piece.form = piece := fun piece member => by
    have none := List.flatMap_eq_nil_iff.mp free piece member
    cases piece <;> first | rfl | cases none
  rw [List.map_congr_left each, List.map_id']

theorem map_map_form_eq {items : List (List Piece)}
    (free : ∀ item ∈ items, item.flatMap valuesIn = []) : items.map (List.map Piece.form) = items := by
  rw [List.map_congr_left fun item member => map_form_eq (free item member), List.map_id']

/-- Nothing but conditions and numbers of rows has values in it. -/
theorem valueless_names (names : List String) :
    (names.flatMap fun name => valuesIn (.name name)) = [] :=
  List.flatMap_eq_nil_iff.mpr fun _ _ => rfl

theorem valueless_reference {name : String} (referred : columns.reference name = .ok pieces) :
    pieces.flatMap valuesIn = [] :=
  (flatMap_reference (fun _ => rfl) referred).trans (valueless_names _)

theorem valueless_ordering {o : RowOrder} (written : orderingPieces columns o = .ok pieces) :
    pieces.flatMap valuesIn = [] :=
  (flatMap_ordering (fun _ => rfl) written).trans (valueless_names _)

theorem valueless_selection {inner : Bool} {layer : Layer} {projections : List (List Piece)}
    (projected : every (projectionPieces columns) layer.projections = .ok projections)
    (chosen : selectionPieces inner columns layer projections = .ok pieces) :
    pieces.flatMap valuesIn = [] :=
  (flatMap_selection (fun _ => rfl) projected chosen).trans (valueless_names _)

theorem predicatePieces_form (dialect : Dialect) (columns : Columns) (p : Predicate) :
    predicatePieces dialect columns p.form =
      (predicatePieces dialect columns p).map (List.map Piece.form) := by
  have kept : p.form.column = p.column := by
    cases p with
    | equals name value => cases value <;> rfl
    | _ => rfl
  unfold predicatePieces
  rw [kept]
  cases found : columns.reference p.column with
  | error fault => rfl
  | ok pieces =>
    have fixed := map_form_eq (valueless_reference found)
    cases p with
    | equals name value =>
      cases value <;>
        simp [bind, Except.bind, pure, Except.pure, Except.map, Predicate.form, Piece.form, fixed]
    | other name => rfl
    | _ => simp [bind, Except.bind, pure, Except.pure, Except.map, Predicate.form, Piece.form, fixed]

theorem every_form (dialect : Dialect) (columns : Columns) (conditions : List Predicate) :
    every (predicatePieces dialect columns) (conditions.map Predicate.form) =
      (every (predicatePieces dialect columns) conditions).map
        (List.map (List.map Piece.form)) := by
  induction conditions with
  | nil => rfl
  | cons p rest inductionHypothesis =>
    rw [List.map_cons, every, every, predicatePieces_form, inductionHypothesis]
    cases predicatePieces dialect columns p with
    | error fault => rfl
    | ok b => cases every (predicatePieces dialect columns) rest <;> rfl

theorem map_form_intercalate (separator : String) (items : List (List Piece)) :
    ([Piece.raw separator].intercalate items).map Piece.form =
      [Piece.raw separator].intercalate (items.map (List.map Piece.form)) := by
  induction items with
  | nil => rfl
  | cons item others inductionHypothesis =>
    cases others with
    | nil => simp
    | cons other others =>
      simp only [List.map_cons] at inductionHypothesis ⊢
      rw [List.intercalate_cons_cons, List.intercalate_cons_cons, List.map_append, List.map_append,
        inductionHypothesis]
      rfl

theorem map_form_clause (opener separator : String) (items : List (List Piece)) :
    (clause opener separator items).map Piece.form =
      clause opener separator (items.map (List.map Piece.form)) := by
  cases items with
  | nil => rfl
  | cons item others => exact congrArg (_ :: ·) (map_form_intercalate separator (item :: others))

theorem limitPieces_form (dialect : Dialect) (limit offset : Option Int) :
    limitPieces dialect (limit.map fun _ => 0) (offset.map fun _ => 0) =
      (limitPieces dialect limit offset).map Piece.form := by
  cases dialect <;> cases limit <;> cases offset <;> rfl

theorem layerPieces_form (inner : Bool) (source : List Piece) (layer : Layer) :
    layerPieces dialect inner (source.map Piece.form) columns layer.form =
      (layerPieces dialect inner source columns layer).map (List.map Piece.form) := by
  rw [layerPieces_eq, layerPieces_eq]
  have unchanged (projections : List (List Piece)) :
      selectionPieces inner columns layer.form projections =
        selectionPieces inner columns layer projections := rfl
  simp only [unchanged]
  dsimp only [Layer.form]
  rw [every_form, limitPieces_form]
  cases projected : every (projectionPieces columns) layer.projections with
  | error fault => rfl
  | ok projections =>
    cases every (predicatePieces dialect columns) layer.predicates with
    | error fault => rfl
    | ok conditions =>
      cases grouped : every columns.reference layer.groupBy with
      | error fault => rfl
      | ok groups =>
        cases ordered : every (orderingPieces columns) layer.orderBy with
        | error fault => rfl
        | ok orders =>
          cases chosen : selectionPieces inner columns layer projections with
          | error fault => simp [bind, Except.bind, Except.map, chosen]
          | ok selection =>
            have groupsFixed := map_map_form_eq
              (forall_mem_of_every grouped fun _ _ => valueless_reference)
            have ordersFixed := map_map_form_eq
              (forall_mem_of_every ordered fun _ _ => valueless_ordering)
            have selectionFixed := map_form_eq (valueless_selection projected chosen)
            simp [bind, Except.bind, pure, Except.pure, Except.map, chosen, map_form_clause,
              groupsFixed, ordersFixed, selectionFixed, Piece.form]

theorem selected_form (q : Query) : selected q.form = selected q := by
  induction q with
  | scan table layer => rfl
  | derived source layer inductionHypothesis =>
    rw [Query.form, selected, selected, inductionHypothesis]
    rfl

/-- Putting the values aside in a query puts them aside in its pieces. -/
theorem queryPieces_form (dialect : Dialect) (inner : Bool) (q : Query) :
    queryPieces dialect inner q.form =
      (queryPieces dialect inner q).map (List.map Piece.form) := by
  induction q generalizing inner with
  | scan table layer => exact layerPieces_form inner [.name table] layer
  | derived source layer inductionHypothesis =>
    rw [Query.form, queryPieces, queryPieces, inductionHypothesis, selected_form]
    cases queryPieces dialect true source with
    | error fault => rfl
    | ok pieces =>
      rw [← layerPieces_form]
      simp [Except.map, Piece.form]

/-! ### The names of places -/

/-- A name made from a column and the number of a use. -/
def numbered (base : String) (count : Nat) : String := base ++ "_" ++ toString count

/-- The last underscore is where the number begins. -/
theorem numbered_inj {base other : String} {m n : Nat} (same : numbered base m = numbered other n) :
    base = other ∧ m = n := by
  have digits (k : Nat) : ∀ c ∈ k.repr.toList.reverse, c.isDigit = true := fun c member =>
    Nat.isDigit_of_mem_toDigits (by decide) (by decide)
      (Nat.toList_repr (n := k) ▸ List.mem_reverse.mp member)
  have reversed (base : String) (k : Nat) : (numbered base k).toList.reverse =
      k.repr.toList.reverse ++ '_' :: base.toList.reverse := by
    simp [numbered]
  have number (base : String) (k : Nat) :
      (numbered base k).toList.reverse.takeWhile Char.isDigit = k.repr.toList.reverse := by
    rw [reversed, List.takeWhile_append_of_pos (digits k),
      List.takeWhile_cons_of_neg (by decide), List.append_nil]
  have rest (base : String) (k : Nat) :
      (numbered base k).toList.reverse.dropWhile Char.isDigit = '_' :: base.toList.reverse := by
    rw [reversed, List.dropWhile_append_of_pos (digits k), List.dropWhile_cons_of_neg (by decide)]
  have numbers : m.repr.toList.reverse = n.repr.toList.reverse := by
    rw [← number base m, same, number]
  have bases : '_' :: base.toList.reverse = '_' :: other.toList.reverse := by
    rw [← rest base m, same, rest]
  exact ⟨String.toList_inj.mp (List.reverse_injective (List.cons.inj bases).2),
    Nat.repr_inj.mp (String.toList_inj.mp (List.reverse_injective numbers))⟩

theorem nextPlaceholder_eq (uses : Uses) (column : String) :
    ∃ count, (Record.get? uses (placeholderBase column)).getD 0 < count ∧
      nextPlaceholder uses column = (numbered (placeholderBase column) count,
        Record.set uses (placeholderBase column) count) :=
  ⟨_, Nat.lt_succ_self _, rfl⟩

/-- A name that can still come up after the uses. -/
def IsLater (uses : Uses) (name : String) : Prop :=
  ∃ base count, name = numbered base count ∧ (Record.get? uses base).getD 0 < count

theorem IsLater.of_next {column name : String} (later : IsLater (nextPlaceholder uses column).2 name) :
    IsLater uses name ∧ name ≠ (nextPlaceholder uses column).1 := by
  obtain ⟨count, counted, next⟩ := nextPlaceholder_eq uses column
  obtain ⟨base, n, rfl, above⟩ := later
  rw [next] at above ⊢
  by_cases same : placeholderBase column = base
  · subst same
    rw [Record.get?_set_self] at above
    refine ⟨⟨_, n, rfl, counted.trans above⟩, fun equal => ?_⟩
    exact absurd (numbered_inj equal).2 (Nat.ne_of_gt above)
  · rw [Record.get?_set_of_ne _ _ same] at above
    exact ⟨⟨base, n, rfl, above⟩, fun equal => same (numbered_inj equal).1.symm⟩

theorem isLater_next (uses : Uses) (column : String) :
    IsLater uses (nextPlaceholder uses column).1 := by
  obtain ⟨count, counted, next⟩ := nextPlaceholder_eq uses column
  exact ⟨_, count, by rw [next], counted⟩

/-- Every name that comes up is a new one, and none comes up twice. -/
theorem names_boundText (dialect : Dialect) (uses : Uses) (pieces : List Piece) :
    (∀ name ∈ (boundText dialect uses pieces).2.map (·.1), IsLater uses name) ∧
      ((boundText dialect uses pieces).2.map (·.1)).Nodup := by
  induction pieces generalizing uses with
  | nil => simp [boundText]
  | cons piece rest inductionHypothesis =>
    have onwards (column : String) :
        (∀ name ∈ (nextPlaceholder uses column).1 ::
            (boundText dialect (nextPlaceholder uses column).2 rest).2.map (·.1), IsLater uses name) ∧
          ((nextPlaceholder uses column).1 ::
            (boundText dialect (nextPlaceholder uses column).2 rest).2.map (·.1)).Nodup := by
      obtain ⟨later, distinct⟩ := inductionHypothesis (nextPlaceholder uses column).2
      refine ⟨List.forall_mem_cons.mpr
        ⟨isLater_next uses column, fun name member => (later name member).of_next.1⟩,
        List.nodup_cons.mpr ⟨fun member => (later _ member).of_next.2 rfl, distinct⟩⟩
    cases piece with
    | raw text => exact inductionHypothesis uses
    | name text => exact inductionHypothesis uses
    | slot column value => exact onwards column
    | fixed value => exact onwards "param"

theorem values_boundText (dialect : Dialect) (uses : Uses) (pieces : List Piece) :
    (boundText dialect uses pieces).2.map (·.2) = pieces.flatMap valuesIn := by
  induction pieces generalizing uses with
  | nil => rfl
  | cons piece rest inductionHypothesis =>
    cases piece with
    | raw text => exact inductionHypothesis uses
    | name text => exact inductionHypothesis uses
    | slot column value => exact congrArg (value :: ·) (inductionHypothesis _)
    | fixed value => exact congrArg (value :: ·) (inductionHypothesis _)

/-- The text does not depend on what is in the places. -/
theorem boundText_form (dialect : Dialect) (uses : Uses) (pieces : List Piece) :
    (boundText dialect uses (pieces.map Piece.form)).1 = (boundText dialect uses pieces).1 := by
  induction pieces generalizing uses with
  | nil => rfl
  | cons piece rest inductionHypothesis =>
    cases piece with
    | raw text => exact congrArg (text ++ ·) (inductionHypothesis uses)
    | name text => exact congrArg (identifier text ++ ·) (inductionHypothesis uses)
    | slot column value => exact congrArg (_ ++ ·) (inductionHypothesis _)
    | fixed value => exact congrArg (_ ++ ·) (inductionHypothesis _)

/-! ### The places in the text -/

/-- The mark that stands for a value in the text. -/
def placeMark (dialect : Dialect) (name : String) : String :=
  match dialect with
  | .generic => ":" ++ name
  | .sqlite => "?"

theorem boundText_slot (uses : Uses) (column : String) (value : Value) (rest : List Piece) :
    boundText dialect uses (.slot column value :: rest) =
      (placeMark dialect (nextPlaceholder uses column).1 ++
        (boundText dialect (nextPlaceholder uses column).2 rest).1,
        ((nextPlaceholder uses column).1, value) ::
          (boundText dialect (nextPlaceholder uses column).2 rest).2) := rfl

/-- The tokens of the text with places. -/
def boundTokens (dialect : Dialect) : Uses → List Piece → List Token
  | _, [] => []
  | uses, .raw text :: rest => bareTokens text ++ boundTokens dialect uses rest
  | uses, .name text :: rest => .name text :: boundTokens dialect uses rest
  | uses, .slot column _ :: rest =>
    .place (placeMark dialect (nextPlaceholder uses column).1) ::
      boundTokens dialect (nextPlaceholder uses column).2 rest
  | uses, .fixed _ :: rest =>
    .place (placeMark dialect (nextPlaceholder uses "param").1) ::
      boundTokens dialect (nextPlaceholder uses "param").2 rest

theorem free_replaceReserved (letters : List Char) :
    ∀ c ∈ replaceReserved letters, isReserved c = false := by
  have underscore : isReserved '_' = false := rfl
  fun_induction replaceReserved letters <;> grind

theorem isReserved_of_isDigit {c : Char} (digit : c.isDigit = true) : isReserved c = false := by
  have none : ("%() $.[]:".toList.all fun d => !d.isDigit) = true := rfl
  refine Bool.eq_false_iff.mpr fun reserved => ?_
  have other := List.all_eq_true.mp none c (List.contains_iff_mem.mp reserved)
  rw [digit] at other
  cases other

theorem free_placeholderBase (column : String) :
    ∀ c ∈ (placeholderBase column).toList, isReserved c = false := fun c member => by
  rw [placeholderBase, String.toList_ofList, Text.trimBy] at member
  have kept := (List.dropWhile_sublist _).mem (List.mem_reverse.mp member)
  exact free_replaceReserved _ c ((List.dropWhile_sublist _).mem (List.mem_reverse.mp kept))

/-- A name ends with a digit, and holds no reserved characters if what it is made from holds none. -/
theorem exists_last_numbered (base : String) (count : Nat)
    (free : ∀ c ∈ base.toList, isReserved c = false) :
    ∃ seen last, (numbered base count).toList = seen ++ [last] ∧ last ≠ '\n' ∧
      ∀ c ∈ (numbered base count).toList, isReserved c = false := by
  obtain ⟨first, digits, made, all, -⟩ := exists_digits count
  have shown : (numbered base count).toList = base.toList ++ '_' :: (first :: digits) := by
    simp [numbered, ← made]
  have solid : (first :: digits).getLast (List.cons_ne_nil _ _) ≠ '\n' := fun broken => by
    have digit := all _ (List.getLast_mem (List.cons_ne_nil first digits))
    rw [broken] at digit
    cases digit
  refine ⟨base.toList ++ '_' :: (first :: digits).dropLast, _, ?_, solid, fun c member => ?_⟩
  · rw [shown, List.append_assoc, List.cons_append, List.dropLast_append_getLast]
  · rw [shown] at member
    rcases List.mem_append.mp member with inBase | behind
    · exact free c inBase
    · rcases List.mem_cons.mp behind with rfl | digit
      · rfl
      · exact isReserved_of_isDigit (all c digit)

variable {letters : List Char}

/-- A place is read as such in front of what ends it. -/
theorem reads_place (dialect : Dialect) (uses : Uses) (column : String) (wide : OpensWide letters) :
    Reads (placeMark dialect (nextPlaceholder uses column).1).toList
      [.place (placeMark dialect (nextPlaceholder uses column).1)] letters := by
  cases dialect with
  | sqlite => exact reads_question
  | generic =>
    obtain ⟨count, -, next⟩ := nextPlaceholder_eq uses column
    obtain ⟨seen, last, shown, solid, free⟩ :=
      exists_last_numbered _ count (free_placeholderBase column)
    rw [next]
    exact reads_colon shown free solid wide

theorem startsWith_boundText (dialect : Dialect) (uses : Uses) (pieces : List Piece) :
    StartsWith (boundText dialect uses pieces).1.toList pieces := by
  cases pieces with
  | nil => rfl
  | cons piece rest =>
    cases piece with
    | raw text => exact ⟨_, String.toList_append⟩
    | _ => trivial

/-- A reader finds in the text what stands in the pieces, and a place for each value. -/
theorem read_boundText (uses : Uses) (spaced : Spaced pieces) :
    Scan.between.read (boundText dialect uses pieces).1.toList =
      some (boundTokens dialect uses pieces) := by
  induction pieces generalizing uses with
  | nil => rfl
  | cons piece rest inductionHypothesis =>
    have starts (uses : Uses) := startsWith_boundText dialect uses rest
    have place (column : String) (wide : Begins OpensWide rest) (spaced : Spaced rest) :
        Scan.between.read (boundText dialect uses (.slot column .null :: rest)).1.toList =
          some (boundTokens dialect uses (.slot column .null :: rest)) := by
      rw [boundText_slot, String.toList_append]
      exact (reads_place dialect uses column (wide.wide_letters (starts _))).read
        (inductionHypothesis _ spaced)
    cases piece with
    | raw text =>
      obtain ⟨bare, ends, spaced⟩ := spaced
      have shown : (boundText dialect uses (.raw text :: rest)).1.toList =
          text.toList ++ (boundText dialect uses rest).1.toList := String.toList_append
      rw [shown]
      exact (reads_bare bare (ends.imp_right fun begins => begins.opens_letters (starts uses))).read
        (inductionHypothesis uses spaced)
    | name text =>
      obtain ⟨begins, spaced⟩ := spaced
      have shown : (boundText dialect uses (.name text :: rest)).1.toList =
          (identifier text).toList ++ (boundText dialect uses rest).1.toList := String.toList_append
      rw [shown]
      exact (reads_identifier text (begins.opens_letters (starts uses))).read
        (inductionHypothesis uses spaced)
    | slot column value => exact place column spaced.1 spaced.2
    | fixed value => exact place "param" spaced.1 spaced.2

/-- The places that a reader finds are those of the values, in their order. -/
theorem places_boundTokens (uses : Uses) (spaced : Spaced pieces) :
    (boundTokens dialect uses pieces).filterMap Token.place? =
      (boundText dialect uses pieces).2.map fun sent => placeMark dialect sent.1 := by
  induction pieces generalizing uses with
  | nil => rfl
  | cons piece rest inductionHypothesis =>
    cases piece with
    | raw text =>
      obtain ⟨bare, -, spaced⟩ := spaced
      have none : (bareTokens text).filterMap Token.place? = [] :=
        List.filterMap_eq_nil_iff.mpr fun token member => by
          have plain := isBare_of_mem_bareTokens bare member
          cases token <;> first | rfl | cases plain
      rw [boundTokens, List.filterMap_append, none, List.nil_append, inductionHypothesis uses spaced]
      rfl
    | name text => exact inductionHypothesis uses spaced.2
    | slot column value => exact congrArg (_ :: ·) (inductionHypothesis _ spaced.2)
    | fixed value => exact congrArg (_ :: ·) (inductionHypothesis _ spaced.2)

/-! ### Texts and values -/

/-- The values of a query travel beside its text, in the order of the places that a reader finds in the
text, and no two places go by one name. -/
def SendsAlong (dialect : Dialect) (q : Query) (sent : List Value) : Prop :=
  ∀ bound, text dialect .bound q = .ok bound → ∃ tokens values,
    tokens? bound = some tokens ∧ parameters dialect q = .ok values ∧
      tokens.filterMap Token.place? = values.map (fun value => placeMark dialect value.1) ∧
      (values.map (·.1)).Nodup ∧ values.map (·.2) = sent

theorem text_bound_ok {q : Query} {bound : String} (written : text dialect .bound q = .ok bound) :
    ∃ pieces, queryPieces dialect false q = .ok pieces ∧ Spaced pieces ∧
      bound = (boundText dialect [] pieces).1 ∧
      parameters dialect q = .ok (boundText dialect [] pieces).2 := by
  obtain ⟨pieces, made, same⟩ := Result.bind_ok.1 written
  exact ⟨pieces, made, spaced_of_queryPieces made, (Except.ok.inj same).symm, by
    rw [parameters, made]; rfl⟩

theorem sendsAlong (dialect : Dialect) (q : Query) : SendsAlong dialect q (sentValues dialect q) := by
  intro bound written
  obtain ⟨pieces, made, spaced, rfl, sent⟩ := text_bound_ok written
  refine ⟨_, _, read_boundText [] spaced, sent, places_boundTokens [] spaced,
    (names_boundText dialect [] pieces).2, ?_⟩
  rw [values_boundText, values_of_queryPieces made]

theorem text_form (dialect : Dialect) (q : Query) :
    text dialect .bound q.form = text dialect .bound q := by
  unfold text
  rw [queryPieces_form]
  cases queryPieces dialect false q with
  | error fault => rfl
  | ok pieces => exact congrArg Except.ok (boundText_form dialect [] pieces)

/-- The values that a query compares with, and its numbers of rows. -/
def givenValues : Query → List Value
  | .scan _ layer =>
    layer.predicates.flatMap comparedValues ++ (layer.limit.toList ++ layer.offset.toList).map .int
  | .derived source layer =>
    givenValues source ++ (layer.predicates.flatMap comparedValues ++
      (layer.limit.toList ++ layer.offset.toList).map .int)

theorem sentValues_generic (q : Query) : sentValues .generic q = givenValues q := by
  have numbers (limit offset : Option Int) :
      sentCounts .generic limit offset = limit.toList ++ offset.toList := by
    cases limit <;> cases offset <;> rfl
  induction q with
  | scan table layer => rw [sentValues, givenValues, layerValues, numbers]
  | derived source layer inductionHypothesis =>
    rw [sentValues, givenValues, layerValues, numbers, inductionHypothesis]

/-- The text of a statement does not depend on the values that travel beside it: queries that differ in
nothing but the values they compare with and their numbers of rows have one text, or fail alike. Beside
the text go the values and numbers that the query gives, and nothing else. In the dialect that always
wants both numbers of rows, the one that is not given is sent, too: no row is left out in front, or as
many rows are kept as there are. -/
theorem bound_text_eq_of_form_eq {q other : Query} (alike : q.form = other.form) :
    (∀ dialect, text dialect .bound q = text dialect .bound other) ∧
      (SendsAlong .generic q (givenValues q) ∧ SendsAlong .generic other (givenValues other)) ∧
      SendsAlong .sqlite q (sentValues .sqlite q) ∧
      SendsAlong .sqlite other (sentValues .sqlite other) := by
  refine ⟨fun dialect => ?_, ⟨?_, ?_⟩, sendsAlong .sqlite q, sendsAlong .sqlite other⟩
  · rw [← text_form dialect q, alike, text_form]
  · exact sentValues_generic q ▸ sendsAlong .generic q
  · exact sentValues_generic other ▸ sendsAlong .generic other

end Sql

/-- The cities whose sales within bounds add up to the most. -/
def Market.bestSelling (city : String) (low high rows : Int) : Query :=
  .derived
    (.scan "sales" { Layer.whole with
      projections :=
        [⟨.column "place.city", "city"⟩, ⟨.aggregate .sum (some "amount"), "amount_sum"⟩]
      predicates := [.equals "place.city" (.text city), .between "amount" (.int low) (.int high)]
      groupBy := ["place.city"]
      limit := some rows })
    { Layer.whole with orderBy := [⟨"amount_sum", .desc⟩], limit := some rows, offset := some 1 }

namespace Sql

open Market in
theorem bound_text_eq_bestSelling :
    (bestSelling "Linz" 1 5 3).form = (bestSelling "x' OR '1' = '1" (-7) 0 10).form ∧
      text .generic .bound (bestSelling "Linz" 1 5 3) =
        text .generic .bound (bestSelling "x' OR '1' = '1" (-7) 0 10) ∧
      SendsAlong .generic (bestSelling "x' OR '1' = '1" (-7) 0 10)
        [.text "x' OR '1' = '1", .int (-7), .int 0, .int 10, .int 10, .int 1] := by
  have alike : (bestSelling "Linz" 1 5 3).form = (bestSelling "x' OR '1' = '1" (-7) 0 10).form := rfl
  have told := bound_text_eq_of_form_eq alike
  exact ⟨alike, told.1 .generic, told.2.1.2⟩

/-- A query that gives one number of rows, with which one of the dialects sends another. -/
theorem exists_number_sent_unasked :
    ∃ q : Query, givenValues q = [.int 3] ∧
      parameters .sqlite q = .ok [("param_1", .int 3), ("param_2", .int 0)] ∧
      ¬ SendsAlong .sqlite q (givenValues q) := by
  refine ⟨.scan "sales" { Layer.whole with limit := some 3 }, rfl, rfl, fun sends => ?_⟩
  obtain ⟨tokens, values, -, sent, -, -, same⟩ := sends _ rfl
  cases sent
  exact absurd (congrArg List.length same) (by decide)

end Sql

end Olap
