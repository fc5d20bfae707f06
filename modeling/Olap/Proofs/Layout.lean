/-
How statements are laid out. Behind a name, a word or a number there is nothing or a piece that begins
apart from it, and what stands behind the place of a value even ends a mark with odd characters. So a
reader takes the pieces of a statement one by one, whatever is written in the places. The names in a
statement and the values that it holds places for are those of the query, in the order of its clauses.
-/

import Olap.Proofs.Session
import Olap.Proofs.Tokens

namespace Olap.Sql

/-! ### Pieces that a reader takes one by one -/

/-- The pieces are at an end, or go on with a text of the kind. -/
def Begins (opening : List Char → Prop) : List Piece → Prop
  | [] => True
  | .raw text :: _ => text.toList ≠ [] ∧ opening text.toList
  | _ => False

/-- Nothing runs into what stands behind it, and what is not a name or a value is bare. -/
def Spaced : List Piece → Prop
  | [] => True
  | .raw text :: rest =>
    isBare text = true ∧ (isFirm text = true ∨ Begins Opens rest) ∧ Spaced rest
  | .name _ :: rest => Begins Opens rest ∧ Spaced rest
  | .slot .. :: rest | .fixed _ :: rest => Begins OpensWide rest ∧ Spaced rest

/-- Pieces that can stand in front of all that begins so. -/
def Fits (opening : List Char → Prop) (pieces : List Piece) : Prop :=
  ∀ rest, Begins opening rest → Spaced rest → Spaced (pieces ++ rest)

/-- Pieces that can be left out, and stand behind everything if they are not. -/
def Trails (pieces : List Piece) : Prop :=
  ∀ rest, Begins OpensWide rest → Spaced rest →
    Begins OpensWide (pieces ++ rest) ∧ Spaced (pieces ++ rest)

/-- A text that can be complete in front of everything and behind everything. -/
def IsLink (text : String) : Prop :=
  isBare text = true ∧ isFirm text = true ∧ text.toList ≠ [] ∧ OpensWide text.toList

/-- A text that can stand behind everything. -/
def IsEnding (text : String) : Prop :=
  isBare text = true ∧ text.toList ≠ [] ∧ OpensWide text.toList

instance (text : String) : Decidable (IsLink text) :=
  inferInstanceAs (Decidable (_ ∧ _ ∧ _ ∧ _))

instance (text : String) : Decidable (IsEnding text) :=
  inferInstanceAs (Decidable (_ ∧ _ ∧ _))

variable {opening : List Char → Prop} {pieces more rest : List Piece} {items : List (List Piece)}
  {text : String} {columns : Columns} {dialect : Dialect}

theorem Begins.opens (wide : Begins OpensWide rest) : Begins Opens rest := by
  match rest, wide with
  | [], _ => trivial
  | .raw _ :: _, ⟨filled, wide⟩ => exact ⟨filled, wide.opens⟩

theorem Fits.wide (fits : Fits Opens pieces) : Fits OpensWide pieces :=
  fun rest begins spaced => fits rest begins.opens spaced

theorem fits_nil : Fits opening [] := fun _ _ spaced => spaced

theorem fits_name (name : String) : Fits Opens [.name name] := fun _ begins spaced =>
  ⟨begins, spaced⟩

theorem fits_slot (label : String) (value : Value) : Fits OpensWide [.slot label value] :=
  fun _ begins spaced => ⟨begins, spaced⟩

theorem fits_fixed (value : Value) : Fits OpensWide [.fixed value] :=
  fun _ begins spaced => ⟨begins, spaced⟩

/-- A complete text in front. -/
theorem Fits.after (fits : Fits opening pieces) (bare : isBare text = true)
    (firm : isFirm text = true) : Fits opening (.raw text :: pieces) := fun rest begins spaced =>
  ⟨bare, .inl firm, fits rest begins spaced⟩

/-- Pieces on both sides of a text. -/
theorem Fits.linked (fits : Fits OpensWide pieces) (link : IsLink text) (next : Fits opening more) :
    Fits opening (pieces ++ .raw text :: more) := fun rest begins spaced => by
  rw [List.append_assoc]
  exact fits _ link.2.2 (next.after link.1 link.2.1 rest begins spaced)

/-- Pieces and a last word. -/
theorem Fits.ended (fits : Fits OpensWide pieces) (ending : IsEnding text) :
    Fits Opens (pieces ++ [.raw text]) := fun rest begins spaced => by
  rw [List.append_assoc]
  exact fits _ ending.2 ⟨ending.1, .inr begins, spaced⟩

/-- Items between separators that are complete and begin apart from the items. -/
theorem fits_intercalate (bare : isBare text = true) (firm : isFirm text = true)
    (apart : Begins opening [.raw text]) (each : ∀ item ∈ items, Fits opening item) :
    Fits opening ([Piece.raw text].intercalate items) := by
  induction items with
  | nil => exact fits_nil
  | cons item others inductionHypothesis =>
    have first := each item List.mem_cons_self
    have later := inductionHypothesis fun other member => each other (List.mem_cons_of_mem _ member)
    cases others with
    | nil => rwa [List.intercalate_singleton]
    | cons other others =>
      rw [List.intercalate_cons_cons, List.append_assoc]
      intro rest begins spaced
      rw [List.append_assoc]
      exact first _ apart (later.after bare firm rest begins spaced)

theorem fits_commas (each : ∀ item ∈ items, Fits Opens item) : Fits Opens (commas items) :=
  fits_intercalate (by decide) (by decide) ⟨by decide, by decide⟩ each

theorem fits_conjunction (each : ∀ item ∈ items, Fits OpensWide item) :
    Fits OpensWide ([Piece.raw " AND "].intercalate items) :=
  fits_intercalate (by decide) (by decide) ⟨by decide, by decide⟩ each

theorem trails_nil : Trails [] := fun _ begins spaced => ⟨begins, spaced⟩

theorem Fits.trails (fits : Fits OpensWide pieces) (link : IsLink text) :
    Trails (.raw text :: pieces) := fun rest begins spaced =>
  ⟨link.2.2, fits.after link.1 link.2.1 rest begins spaced⟩

theorem Trails.append (first : Trails pieces) (second : Trails more) : Trails (pieces ++ more) := by
  intro rest begins spaced
  obtain ⟨begins, spaced⟩ := second rest begins spaced
  rw [List.append_assoc]
  exact first _ begins spaced

theorem Trails.fits (trails : Trails more) (fits : Fits OpensWide pieces) :
    Fits OpensWide (pieces ++ more) := by
  intro rest begins spaced
  obtain ⟨begins, spaced⟩ := trails rest begins spaced
  rw [List.append_assoc]
  exact fits _ begins spaced

/-- Letters that begin with what the pieces begin with, and end if they do. -/
def StartsWith (letters : List Char) : List Piece → Prop
  | [] => letters = []
  | .raw text :: _ => ∃ more, letters = text.toList ++ more
  | _ => True

theorem Begins.opens_letters {letters : List Char} (begins : Begins Opens rest)
    (starts : StartsWith letters rest) : Opens letters := by
  match rest, begins with
  | [], _ =>
    rw [show letters = [] from starts]
    exact opens_nil
  | .raw text :: _, ⟨filled, opens⟩ =>
    obtain ⟨more, same⟩ : ∃ more, letters = text.toList ++ more := starts
    exact same ▸ opens.append filled

theorem Begins.wide_letters {letters : List Char} (begins : Begins OpensWide rest)
    (starts : StartsWith letters rest) : OpensWide letters := by
  match rest, begins with
  | [], _ => exact .inl starts
  | .raw text :: _, ⟨filled, wide⟩ =>
    obtain ⟨more, same⟩ : ∃ more, letters = text.toList ++ more := starts
    exact same ▸ wide.append filled

/-! ### The pieces of a query -/

theorem fits_reference {name : String} (referred : columns.reference name = .ok pieces) :
    Fits Opens pieces := by
  unfold Columns.reference at referred
  split at referred
  · cases referred
    exact fits_name name
  · split at referred
    · cases referred
      exact fits_nil.after (by decide) (by decide)
    · cases referred
  · split at referred
    · cases referred
    · split at referred
      · cases referred
        exact (fits_name name).after (by decide) (by decide)
      · cases referred

theorem fits_expression {e : Expression} (written : expressionPieces columns e = .ok pieces) :
    Fits Opens pieces := by
  match e with
  | .column name => exact fits_reference written
  | .aggregate function none =>
    cases written
    exact fits_nil.after (by cases function <;> decide) (by cases function <;> decide)
  | .aggregate function (some name) =>
    obtain ⟨referred, known, rfl⟩ := Result.map_ok.1 written
    exact ((fits_reference known).wide.ended (by decide)).after (by cases function <;> decide)
      (by cases function <;> decide)

theorem fits_projection {p : Projection} (written : projectionPieces columns p = .ok pieces) :
    Fits Opens pieces := by
  obtain ⟨expression, known, rfl⟩ := Result.map_ok.1 written
  exact (fits_expression known).wide.linked (by decide) (fits_name p.name)

theorem fits_ordering {o : RowOrder} (written : orderingPieces columns o = .ok pieces) :
    Fits Opens pieces := by
  obtain ⟨referred, known, rfl⟩ := Result.map_ok.1 written
  cases o.direction <;> exact (fits_reference known).wide.ended (by decide)

/-- A condition ends with the place of a value, or with a last word. -/
theorem fits_condition {p : Predicate}
    (written : predicatePieces dialect columns p = .ok pieces) : Fits OpensWide pieces := by
  obtain ⟨referred, known, rest⟩ := Result.bind_ok.1 written
  have first := (fits_reference known).wide
  cases p with
  | equals name value =>
    cases value with
    | null => cases rest; exact (first.ended (by decide)).wide
    | bool b => cases rest; exact (first.ended (by cases dialect <;> cases b <;> decide)).wide
    | _ => cases rest; exact first.linked (by decide) (fits_slot name _)
  | between name low high =>
    cases rest
    exact first.linked (by decide) ((fits_slot name low).linked (by decide) (fits_slot name high))
  | present name => cases rest; exact (first.ended (by decide)).wide
  | other name => cases rest

theorem fits_everything {inner : Bool} (selected : columns.everything inner = .ok pieces) :
    Fits Opens pieces := by
  unfold Columns.everything at selected
  split at selected
  · cases selected
    exact fits_nil.after (by decide) (by decide)
  · cases selected
    exact fits_nil.after (by decide) (by decide)
  · split at selected
    · cases selected
    · cases selected
      refine fits_commas fun item member => ?_
      obtain ⟨name, -, rfl⟩ := List.mem_map.mp member
      have own : Fits Opens [.raw "s.", .name name] :=
        (fits_name name).after (by decide) (by decide)
      cases inner with
      | false => exact own
      | true => exact own.wide.linked (by decide) (fits_name name)

theorem trails_clause {opener separator : String} (link : IsLink opener)
    (fits : Fits OpensWide ([Piece.raw separator].intercalate items)) :
    Trails (clause opener separator items) := by
  unfold clause
  split
  · exact trails_nil
  · exact fits.trails link

theorem trails_limit (dialect : Dialect) (limit offset : Option Int) :
    Trails (limitPieces dialect limit offset) := by
  have single (i : Int) : Fits OpensWide [countSlot i] := fits_slot "param" (.int i)
  have both {first : Piece} (fits : Fits OpensWide [first]) (i : Int) :
      Trails [.raw "\n LIMIT ", first, .raw " OFFSET ", countSlot i] :=
    (fits.linked (by decide) (single i)).trails (by decide)
  cases dialect <;> cases limit <;> cases offset
  · exact trails_nil
  · exact (single _).trails (by decide)
  · exact (single _).trails (by decide)
  · exact both (single _) _
  · exact trails_nil
  · exact both (fits_fixed _) _
  · exact both (single _) _
  · exact both (single _) _

/-- Each of the items has become what is found in its place. -/
theorem forall₂_of_every {α β : Type} {f : α → Result β} {items : List α} {all : List β}
    (found : every f items = .ok all) : List.Forall₂ (fun item b => f item = .ok b) items all := by
  induction items generalizing all with
  | nil => cases found; exact .nil
  | cons item rest inductionHypothesis =>
    rw [every] at found
    cases first : f item with
    | error fault => rw [first] at found; cases found
    | ok b =>
      rw [first] at found
      obtain ⟨others, later, rfl⟩ := Result.map_ok.1 found
      exact .cons first (inductionHypothesis later)

theorem forall_mem_of_every {α β : Type} {f : α → Result β} {items : List α} {all : List β}
    {P : β → Prop} (found : every f items = .ok all) (each : ∀ item b, f item = .ok b → P b) :
    ∀ b ∈ all, P b := by
  have pairs := forall₂_of_every found
  clear found
  induction pairs with
  | nil => exact List.forall_mem_nil _
  | cons made _ inductionHypothesis =>
    exact List.forall_mem_cons.mpr ⟨each _ _ made, inductionHypothesis⟩

/-- What a layer selects. -/
def selectionPieces (inner : Bool) (columns : Columns) (layer : Layer)
    (projections : List (List Piece)) : Result (List Piece) :=
  if layer.projections.isEmpty then columns.everything inner else .ok (commas projections)

/-- The pieces of a layer from its parts. -/
theorem layerPieces_eq (dialect : Dialect) (inner : Bool) (source : List Piece) (columns : Columns)
    (layer : Layer) :
    layerPieces dialect inner source columns layer = (do
      let projections ← every (projectionPieces columns) layer.projections
      let conditions ← every (predicatePieces dialect columns) layer.predicates
      let groups ← every columns.reference layer.groupBy
      let orders ← every (orderingPieces columns) layer.orderBy
      let selection ← selectionPieces inner columns layer projections
      return [Piece.raw "SELECT "] ++ selection ++ .raw " \nFROM " :: (source ++
        (clause " \nWHERE " " AND " conditions ++ (clause " GROUP BY " ", " groups ++
          (clause " ORDER BY " ", " orders ++ limitPieces dialect layer.limit layer.offset))))) := by
  unfold layerPieces selectionPieces
  simp only [List.append_assoc, List.singleton_append]
  cases layer.projections.isEmpty <;> rfl

theorem exists_of_layerPieces {inner : Bool} {source : List Piece} {layer : Layer}
    (written : layerPieces dialect inner source columns layer = .ok pieces) :
    ∃ projections conditions groups orders selection,
      every (projectionPieces columns) layer.projections = .ok projections ∧
      every (predicatePieces dialect columns) layer.predicates = .ok conditions ∧
      every columns.reference layer.groupBy = .ok groups ∧
      every (orderingPieces columns) layer.orderBy = .ok orders ∧
      selectionPieces inner columns layer projections = .ok selection ∧
      pieces = [Piece.raw "SELECT "] ++ selection ++ .raw " \nFROM " :: (source ++
        (clause " \nWHERE " " AND " conditions ++ (clause " GROUP BY " ", " groups ++
          (clause " ORDER BY " ", " orders ++ limitPieces dialect layer.limit layer.offset)))) := by
  rw [layerPieces_eq] at written
  obtain ⟨projections, projected, written⟩ := Result.bind_ok.1 written
  obtain ⟨conditions, compared, written⟩ := Result.bind_ok.1 written
  obtain ⟨groups, grouped, written⟩ := Result.bind_ok.1 written
  obtain ⟨orders, ordered, written⟩ := Result.bind_ok.1 written
  obtain ⟨selection, chosen, made⟩ := Result.bind_ok.1 written
  exact ⟨projections, conditions, groups, orders, selection, projected, compared, grouped, ordered,
    chosen, (Except.ok.inj made).symm⟩

theorem fits_selection {inner : Bool} {layer : Layer} {projections : List (List Piece)}
    (projected : every (projectionPieces columns) layer.projections = .ok projections)
    (chosen : selectionPieces inner columns layer projections = .ok pieces) : Fits Opens pieces := by
  unfold selectionPieces at chosen
  split at chosen
  · exact fits_everything chosen
  · cases chosen
    exact fits_commas (forall_mem_of_every projected fun _ _ => fits_projection)

theorem fits_layer {inner : Bool} {source : List Piece} {layer : Layer}
    (written : layerPieces dialect inner source columns layer = .ok pieces)
    (below : Fits OpensWide source) : Fits OpensWide pieces := by
  obtain ⟨projections, conditions, groups, orders, selection, projected, compared, grouped, ordered,
    chosen, rfl⟩ := exists_of_layerPieces written
  have selected := fits_selection projected chosen
  have filtered : Trails (clause " \nWHERE " " AND " conditions) := trails_clause (by decide)
    (fits_conjunction (forall_mem_of_every compared fun _ _ => fits_condition))
  have apart : Trails (clause " GROUP BY " ", " groups) := trails_clause (by decide)
    (fits_commas (forall_mem_of_every grouped fun _ _ => fits_reference)).wide
  have sorted : Trails (clause " ORDER BY " ", " orders) := trails_clause (by decide)
    (fits_commas (forall_mem_of_every ordered fun _ _ => fits_ordering)).wide
  have clauses := filtered.append (apart.append
    (sorted.append (trails_limit dialect layer.limit layer.offset)))
  exact ((selected.wide.linked (by decide) (clauses.fits below)).after (by decide) (by decide))

/-- The pieces of a query are those of its outermost layer over those of what it reads. -/
theorem exists_of_derivedPieces {inner : Bool} {source : Query} {layer : Layer}
    (written : queryPieces dialect inner (.derived source layer) = .ok pieces) :
    ∃ below, queryPieces dialect true source = .ok below ∧
      layerPieces dialect inner ([Piece.raw "("] ++ below ++ [.raw ") AS s"]) (selected source)
        layer = .ok pieces := by
  rw [queryPieces] at written
  cases found : queryPieces dialect true source with
  | error fault => rw [found] at written; cases written
  | ok below =>
    rw [found] at written
    exact ⟨below, rfl, written⟩

theorem fits_query {inner : Bool} {q : Query}
    (written : queryPieces dialect inner q = .ok pieces) : Fits OpensWide pieces := by
  induction q generalizing inner pieces with
  | scan table layer => exact fits_layer written (fits_name table).wide
  | derived source layer inductionHypothesis =>
    obtain ⟨below, found, written⟩ := exists_of_derivedPieces written
    exact fits_layer written
      (((inductionHypothesis found).ended (by decide)).wide.after (by decide) (by decide))

/-- A reader takes the pieces of a query one by one. -/
theorem spaced_of_queryPieces {q : Query}
    (written : queryPieces dialect false q = .ok pieces) : Spaced pieces := by
  have alone := fits_query written [] trivial trivial
  rwa [List.append_nil] at alone

/-! ### What a query writes down -/

/-- The names that a reference to a column spells. -/
def Columns.spelled : Columns → String → List String
  | .table, name | .named _, name => [name]
  | .starred, _ => []

/-- The names that the selection of all columns spells. -/
def Columns.allSpelled (inner : Bool) : Columns → List String
  | .table | .starred => []
  | .named names => names.flatMap fun name => if inner then [name, name] else [name]

/-- The names that the selection of a layer spells. -/
def selectionSpelled (inner : Bool) (columns : Columns) (layer : Layer) : List String :=
  if layer.projections.isEmpty then columns.allSpelled inner
  else layer.projections.flatMap fun p => p.expression.column?.elim [] columns.spelled ++ [p.name]

/-- The names that a layer spells, in the order of its clauses. -/
def spelledIn (inner : Bool) (columns : Columns) (source : List String) (layer : Layer) :
    List String :=
  selectionSpelled inner columns layer ++
    (source ++ (layer.predicates.flatMap (fun p => columns.spelled p.column) ++
      (layer.groupBy.flatMap columns.spelled ++
        layer.orderBy.flatMap fun o => columns.spelled o.column)))

/-- The names that a query spells: of its tables, of the columns that it reads, and those that it gives
to what it selects. -/
def spelled (inner : Bool) : Query → List String
  | .scan table layer => spelledIn inner .table [table] layer
  | .derived source layer => spelledIn inner (selected source) (spelled true source) layer

/-- The places of a condition. What has words of its own needs none. -/
def places : Predicate → List Piece
  | .equals _ .null | .equals _ (.bool _) | .present _ | .other _ => []
  | .equals name value => [.slot name value]
  | .between name low high => [.slot name low, .slot name high]

section Look

variable {β : Type} {look : Piece → List β} (bare : ∀ text, look (.raw text) = [])

include bare

theorem flatMap_intercalate (separator : String) (items : List (List Piece)) :
    ([Piece.raw separator].intercalate items).flatMap look = items.flatMap (·.flatMap look) := by
  induction items with
  | nil => rfl
  | cons item others inductionHypothesis =>
    cases others with
    | nil => simp
    | cons other others =>
      rw [List.intercalate_cons_cons, List.flatMap_append, List.flatMap_append, inductionHypothesis]
      simp [bare]

theorem flatMap_clause (opener separator : String) (items : List (List Piece)) :
    (clause opener separator items).flatMap look = items.flatMap (·.flatMap look) := by
  cases items with
  | nil => rfl
  | cons item others =>
    rw [clause, if_neg (by simp), List.flatMap_cons, bare, List.nil_append, flatMap_intercalate bare]

theorem flatMap_reference {name : String} (referred : columns.reference name = .ok pieces) :
    pieces.flatMap look = (columns.spelled name).flatMap fun name => look (.name name) := by
  unfold Columns.reference at referred
  split at referred
  · cases referred
    rfl
  · split at referred
    · cases referred
      simp [bare, Columns.spelled]
    · cases referred
  · split at referred
    · cases referred
    · split at referred
      · cases referred
        simp [bare, Columns.spelled]
      · cases referred

theorem flatMap_expression {e : Expression} (written : expressionPieces columns e = .ok pieces) :
    pieces.flatMap look =
      (e.column?.elim [] columns.spelled).flatMap fun name => look (.name name) := by
  match e with
  | .column name => exact flatMap_reference bare written
  | .aggregate function none =>
    cases written
    simp [bare, Expression.column?]
  | .aggregate function (some name) =>
    obtain ⟨referred, known, rfl⟩ := Result.map_ok.1 written
    simp [bare, flatMap_reference bare known, Expression.column?]

theorem flatMap_projection {p : Projection} (written : projectionPieces columns p = .ok pieces) :
    pieces.flatMap look =
      (p.expression.column?.elim [] columns.spelled ++ [p.name]).flatMap fun name =>
        look (.name name) := by
  obtain ⟨expression, known, rfl⟩ := Result.map_ok.1 written
  simp [bare, flatMap_expression bare known]

theorem flatMap_ordering {o : RowOrder} (written : orderingPieces columns o = .ok pieces) :
    pieces.flatMap look = (columns.spelled o.column).flatMap fun name => look (.name name) := by
  obtain ⟨referred, known, rfl⟩ := Result.map_ok.1 written
  simp [bare, flatMap_reference bare known]

theorem flatMap_condition {p : Predicate}
    (written : predicatePieces dialect columns p = .ok pieces) :
    pieces.flatMap look =
      ((columns.spelled p.column).flatMap fun name => look (.name name)) ++
        (places p).flatMap look := by
  obtain ⟨referred, known, rest⟩ := Result.bind_ok.1 written
  have first := flatMap_reference bare known
  cases p with
  | equals name value => cases value <;> cases rest <;> simp [bare, first, places, Predicate.column]
  | between name low high => cases rest; simp [bare, first, places, Predicate.column]
  | present name => cases rest; simp [bare, first, places, Predicate.column]
  | other name => cases rest

theorem flatMap_everything {inner : Bool} (selected : columns.everything inner = .ok pieces) :
    pieces.flatMap look = (columns.allSpelled inner).flatMap fun name => look (.name name) := by
  unfold Columns.everything at selected
  split at selected
  · cases selected
    simp [bare, Columns.allSpelled]
  · cases selected
    simp [bare, Columns.allSpelled]
  · split at selected
    · cases selected
    · cases selected
      rw [commas, flatMap_intercalate bare, List.flatMap_map, Columns.allSpelled,
        List.flatMap_assoc]
      congr 1
      funext name
      cases inner <;> simp [bare]

omit bare in
theorem flatMap_of_every {α γ δ : Type} {f : α → Result γ} {items : List α} {all : List γ}
    {g : γ → List δ} {h : α → List δ} (found : every f items = .ok all)
    (each : ∀ item c, f item = .ok c → g c = h item) : all.flatMap g = items.flatMap h := by
  have pairs := forall₂_of_every found
  clear found
  induction pairs with
  | nil => rfl
  | cons made _ inductionHypothesis =>
    rw [List.flatMap_cons, List.flatMap_cons, each _ _ made, inductionHypothesis]

theorem flatMap_selection {inner : Bool} {layer : Layer} {projections : List (List Piece)}
    (projected : every (projectionPieces columns) layer.projections = .ok projections)
    (chosen : selectionPieces inner columns layer projections = .ok pieces) :
    pieces.flatMap look =
      (selectionSpelled inner columns layer).flatMap fun name => look (.name name) := by
  unfold selectionPieces at chosen
  unfold selectionSpelled
  split at chosen
  · rename_i plain
    rw [if_pos plain]
    exact flatMap_everything bare chosen
  · rename_i filled
    cases chosen
    rw [if_neg filled, commas, flatMap_intercalate bare, List.flatMap_assoc]
    exact flatMap_of_every projected fun _ _ => flatMap_projection bare

/-- What is seen in the pieces of a layer, clause by clause. -/
theorem flatMap_layer {inner : Bool} {source : List Piece} {layer : Layer}
    (written : layerPieces dialect inner source columns layer = .ok pieces) :
    pieces.flatMap look =
      ((selectionSpelled inner columns layer).flatMap fun name => look (.name name)) ++
      (source.flatMap look ++
      (layer.predicates.flatMap (fun p =>
        ((columns.spelled p.column).flatMap fun name => look (.name name)) ++
          (places p).flatMap look) ++
      ((layer.groupBy.flatMap columns.spelled).flatMap (fun name => look (.name name)) ++
      ((layer.orderBy.flatMap fun o => columns.spelled o.column).flatMap
        (fun name => look (.name name)) ++
      (limitPieces dialect layer.limit layer.offset).flatMap look)))) := by
  obtain ⟨projections, conditions, groups, orders, selection, projected, compared, grouped, ordered,
    chosen, rfl⟩ := exists_of_layerPieces written
  simp only [List.flatMap_append, List.flatMap_cons, List.flatMap_nil, bare, List.nil_append,
    flatMap_clause bare, flatMap_selection bare projected chosen, List.flatMap_assoc]
  rw [flatMap_of_every compared fun _ _ => flatMap_condition bare,
    flatMap_of_every grouped fun _ _ => flatMap_reference bare,
    flatMap_of_every ordered fun _ _ => flatMap_ordering bare]

end Look

/-! ### Names and values -/

/-- The names in a piece. -/
def namesIn : Piece → List String
  | .name text => [text]
  | _ => []

/-- The values in a piece. -/
def valuesIn : Piece → List Value
  | .slot _ value | .fixed value => [value]
  | _ => []

theorem namesIn_places (p : Predicate) : (places p).flatMap namesIn = [] := by
  cases p with
  | equals name value => cases value <;> rfl
  | _ => rfl

theorem namesIn_limitPieces (limit offset : Option Int) :
    (limitPieces dialect limit offset).flatMap namesIn = [] := by
  cases dialect <;> cases limit <;> cases offset <;> rfl

theorem names_of_layerPieces {inner : Bool} {source : List Piece} {layer : Layer}
    (written : layerPieces dialect inner source columns layer = .ok pieces) :
    pieces.flatMap namesIn = spelledIn inner columns (source.flatMap namesIn) layer := by
  have named (names : List String) : (names.flatMap fun name => namesIn (.name name)) = names := by
    simp [namesIn]
  rw [flatMap_layer (fun _ => rfl) written]
  simp only [named, namesIn_places, namesIn_limitPieces, List.append_nil, spelledIn]

/-- The names in the pieces of a query are those that it spells. -/
theorem names_of_queryPieces {inner : Bool} {q : Query}
    (written : queryPieces dialect inner q = .ok pieces) :
    pieces.flatMap namesIn = spelled inner q := by
  induction q generalizing inner pieces with
  | scan table layer => exact names_of_layerPieces written
  | derived source layer inductionHypothesis =>
    obtain ⟨below, found, written⟩ := exists_of_derivedPieces written
    rw [names_of_layerPieces written, spelled, ← inductionHypothesis found]
    simp [namesIn]

/-- The values that a condition compares with, less those that have words of their own. -/
def comparedValues : Predicate → List Value
  | .equals _ .null | .equals _ (.bool _) | .present _ | .other _ => []
  | .equals _ value => [value]
  | .between _ low high => [low, high]

/-- The numbers that are written down to cut out a part of the rows. One of the databases wants both
numbers if there is one: then no row is left out in front, and as many rows are kept as there are. -/
def sentCounts : Dialect → Option Int → Option Int → List Int
  | _, none, none => []
  | .generic, some count, none => [count]
  | .generic, none, some first => [first]
  | .sqlite, some count, none => [count, 0]
  | .sqlite, none, some first => [-1, first]
  | _, some count, some first => [count, first]

/-- The values of the conditions of a layer and its numbers of rows. -/
def layerValues (dialect : Dialect) (layer : Layer) : List Value :=
  layer.predicates.flatMap comparedValues ++ (sentCounts dialect layer.limit layer.offset).map .int

/-- The values that a query sends along: those of what it reads, and then its own. -/
def sentValues (dialect : Dialect) : Query → List Value
  | .scan _ layer => layerValues dialect layer
  | .derived source layer => sentValues dialect source ++ layerValues dialect layer

theorem valuesIn_places (p : Predicate) : (places p).flatMap valuesIn = comparedValues p := by
  cases p with
  | equals name value => cases value <;> rfl
  | _ => rfl

theorem valuesIn_limitPieces (dialect : Dialect) (limit offset : Option Int) :
    (limitPieces dialect limit offset).flatMap valuesIn =
      (sentCounts dialect limit offset).map .int := by
  cases dialect <;> cases limit <;> cases offset <;> rfl

theorem values_of_layerPieces {inner : Bool} {source : List Piece} {layer : Layer}
    (written : layerPieces dialect inner source columns layer = .ok pieces) :
    pieces.flatMap valuesIn = source.flatMap valuesIn ++ layerValues dialect layer := by
  have unnamed (names : List String) : (names.flatMap fun name => valuesIn (.name name)) = [] :=
    List.flatMap_eq_nil_iff.mpr fun _ _ => rfl
  rw [flatMap_layer (fun _ => rfl) written]
  simp only [unnamed, valuesIn_places, valuesIn_limitPieces, List.nil_append, layerValues]

/-- The values in the pieces of a query are those that it sends along. -/
theorem values_of_queryPieces {inner : Bool} {q : Query}
    (written : queryPieces dialect inner q = .ok pieces) :
    pieces.flatMap valuesIn = sentValues dialect q := by
  induction q generalizing inner pieces with
  | scan table layer => exact values_of_layerPieces written
  | derived source layer inductionHypothesis =>
    obtain ⟨below, found, written⟩ := exists_of_derivedPieces written
    rw [values_of_layerPieces written, sentValues, ← inductionHypothesis found]
    simp [valuesIn]

end Olap.Sql
