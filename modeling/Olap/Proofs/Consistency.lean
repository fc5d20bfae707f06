/-
Options that are consistent. What is relied on of options is seen to in different places when they are
accepted: words and operators are looked up when an option is checked by itself, pages and limits when all
of them are. Afterwards they are relied on without being checked again, by the page of a query, by the
ranking of a limit and by the directions that words stand for. Options are accepted of descriptions and of
options accepted before, which may be overridden, so all of it is an invariant of chains of accepting.
-/

import Mathlib
import Olap.Proofs.Limits

namespace Olap

/-! ### Directions -/

/-- A word that was found stands for the direction that it was found with. -/
theorem parseDirection_text {what : String} {words : List (String × Direction)} {word : String}
    {direction : Direction} (parsed : parseDirection what words (.text word) = .ok direction) :
    directionOf words (some word) = direction := by
  unfold parseDirection at parsed
  dsimp only at parsed
  split at parsed
  · rename_i found
    cases parsed
    unfold directionOf
    dsimp only
    rw [show words.find? (·.1 == Text.lower word) = _ from found]
    rfl
  · cases parsed

/-- Directions are named by words for them. -/
theorem parseDirection_name (what : String) (direction : Direction) :
    parseDirection what (directionWords what) (.text direction.name) = .ok direction := by
  unfold directionWords
  split <;> cases direction <;> rfl

/-- A word is accepted for a direction if it is looked up and a text, or a direction, which is kept by its
name. -/
theorem checkDirection_ok {what : String} {d : Description} {word : Option String}
    (checked : (Options.checkDirection what d).result = .ok word) :
    (∃ direction, parseDirection what (directionWords what) d = .ok direction) ∧
      (d = .null ∧ word = none ∨ ∃ s, d.text? = some s ∧ some s = word) := by
  unfold Options.checkDirection at checked
  split at checked
  · cases checked
  · rename_i direction parsed
    exact ⟨⟨direction, parsed⟩, optionalText_ok.1 checked⟩

/-- A word that is accepted for a direction is found whenever it is looked up. -/
theorem parseDirection_of_checkDirection {what : String} {d : Description} {word : Option String}
    (checked : (Options.checkDirection what d).result = .ok word) :
    parseDirection what (directionWords what) (.ofOption word) =
      .ok (directionOf (directionWords what) word) := by
  obtain ⟨⟨direction, parsed⟩, ⟨rfl, rfl⟩ | ⟨s, given, rfl⟩⟩ := checkDirection_ok checked
  · rfl
  · have found : parseDirection what (directionWords what) (.text s) = .ok direction := by
      cases d with
      | text => exact Option.some.inj given ▸ parsed
      | direction =>
        cases given
        cases parsed
        exact parseDirection_name what direction
      | _ => cases given
    rw [parseDirection_text found]
    exact found

namespace AggregateOptions

variable {o : AggregateOptions}

/-- Without a word the direction is known as well. -/
theorem parseDirection_of_checkField {what : String} {fields : Fields Part} {spellings : List String}
    {word : Option String}
    (checked : (checkField fields spellings none (Options.checkDirection what)).result = .ok word) :
    parseDirection what (directionWords what) (.ofOption word) =
      .ok (directionOf (directionWords what) word) := by
  rcases checkField_ok checked with rfl | ⟨d, passed⟩
  · rfl
  · exact parseDirection_of_checkDirection passed

/-! ### Consistent options -/

/-- What is relied on of options. Either no page is wanted and no rows are left out for one, or a page and
its size are known. Operators are known. With a limit there are levels of a dimension, a number of rows to
keep and an aggregation to rank by. The words for directions stand for one. -/
structure IsConsistent (o : AggregateOptions) : Prop where
  paged : o.page = none ∧ o.offset = none ∧ o.limitRows = none ∨
    ∃ page size, o.page = some page ∧ o.pageSize = some size ∧ 0 ≤ page ∧ 0 < size ∧
      o.limitRows = some size ∧ o.offset = some (page * size) ∧ 0 ≤ page * size
  known : ∀ operator ∈ o.operators, Record.contains aggregationOperators operator = true
  limited : o.hasLimit = true →
    isSet o.rowDimension = true ∧ o.levels ≠ [] ∧ (o.limit = some "rank" ∨ o.limit = some "top_10") ∧
      (∃ count, o.limitRank = some count ∧ 0 ≤ count) ∧ o.rankedBy ∈ o.operators
  directed : parseDirection orderDirectionTitle orderWords (.ofOption o.orderDirection) =
    .ok o.direction
  sorted : ∃ direction,
    parseDirection limitSortTitle limitWords (.ofOption o.limitSort) = .ok direction ∧
      o.limitDirection = if o.isTopTen then .desc else direction

/-- Pages of valid options are counted from zero and have a size. -/
theorem validate_ok {o : QueryOptions} (validated : o.validate = .ok ()) :
    (∀ page, o.page = some page → 0 ≤ page ∧ o.pageSize ≠ none) ∧
      ∀ size, o.pageSize = some size → 0 < size := by
  unfold QueryOptions.validate at validated
  split at validated
  · cases validated
  · rename_i natural
    split at validated
    · cases validated
    · rename_i positive
      split at validated
      · cases validated
      · rename_i sized
        refine ⟨fun page given => ⟨?_, fun absent => ?_⟩, fun size given => ?_⟩
        · simpa [given] using natural
        · simp [given, absent] at sized
        · simpa [given] using positive

/-- Levels that are asked for are levels of a dimension. -/
theorem validate_dimension (validated : validate o = .ok ()) (levelled : o.levels ≠ []) :
    isSet o.rowDimension = true := by
  unfold validate at validated
  split at validated
  · cases validated
  · rename_i dimensioned
    simpa [isDrillDown, levelled] using dimensioned

/-- Rows are limited by drilling down only. -/
theorem validateLimit_levels (validated : validateLimit o = .ok ()) : o.levels ≠ [] := by
  unfold validateLimit at validated
  split at validated
  · cases validated
  · rename_i drilled
    simpa [isDrillDown] using drilled

theorem IsAccepted.paged (accepted : o.IsAccepted) :
    o.page = none ∧ o.offset = none ∧ o.limitRows = none ∨
      ∃ page size, o.page = some page ∧ o.pageSize = some size ∧ 0 ≤ page ∧ 0 < size ∧
        o.limitRows = some size ∧ o.offset = some (page * size) ∧ 0 ≤ page * size := by
  obtain ⟨fields, made⟩ := accepted
  obtain ⟨counted, positive⟩ := validate_ok (ofFields_ok.1 made).2.1
  unfold QueryOptions.offset QueryOptions.limitRows
  cases given : o.page with
  | none => exact Or.inl ⟨rfl, rfl, rfl⟩
  | some page =>
    obtain ⟨natural, sized⟩ := counted page given
    obtain ⟨size, known⟩ := Option.ne_none_iff_exists'.mp sized
    have filled := positive size known
    rw [known]
    exact Or.inr ⟨page, size, rfl, rfl, natural, filled, rfl, rfl, mul_nonneg natural filled.le⟩

/-- Accepted options are consistent. -/
theorem IsAccepted.isConsistent (accepted : o.IsAccepted) : o.IsConsistent where
  paged := accepted.paged
  known operator member := accepted.contains_of_mem member
  limited limited := by
    have levelled := validateLimit_levels (accepted.validateLimit limited)
    obtain ⟨count, asked, kept⟩ := accepted.exists_asksFor limited
    refine ⟨?_, levelled, ?_, ⟨count, kept, Int.natCast_nonneg count⟩, accepted.rankedBy_mem limited⟩
    · obtain ⟨fields, made⟩ := accepted
      exact validate_dimension (ofFields_ok.1 made).2.2 levelled
    · exact asked.imp And.left And.left
  directed := by
    obtain ⟨fields, made⟩ := accepted
    exact parseDirection_of_checkField (ofFields_ok.1 made).1.1.orderDirection
  sorted := by
    obtain ⟨fields, made⟩ := accepted
    exact ⟨_, parseDirection_of_checkField (ofFields_ok.1 made).1.1.limitSort, rfl⟩

/-- Options that are reached by accepting: of any description, and when it is options, of options that are
reached themselves. -/
inductive IsReached : AggregateOptions → Prop
  | accepted {d : Description} {overrides : Fields Part} {o : AggregateOptions}
      (before : ∀ previous, d = .object (.aggregateOptions previous) → IsReached previous)
      (accepted : accept d overrides = .ok o) : IsReached o

/-- A step of a chain accepts a description, or leaves options as they were accepted before. -/
theorem isAccepted_of_isReached (reached : o.IsReached) : o.IsAccepted := by
  induction reached with
  | accepted before accepted lawful => exact isAccepted_of_accept lawful accepted

/-- Whatever chain of descriptions and overrides options are reached by, they are consistent. -/
theorem isConsistent_of_isReached (reached : o.IsReached) : o.IsConsistent :=
  (isAccepted_of_isReached reached).isConsistent

/-- The three cities with the least amount. -/
def leastCities : Value :=
  .record [("row_dimension", .text "place"), ("row_levels", .list [.text "city"]),
    ("limit", .text "rank"), ("limit_value", .int 3), ("limit_sort", .text "Bottom")]

/-- The third page of ten cities is wanted, of options that were accepted before. -/
theorem isConsistent_of_isReached_leastCities :
    ∃ before o, accept leastCities.lift [] = .ok before ∧
      accept (.object (.aggregateOptions before)) [("page", .int 2), ("page_size", .text "10")] = .ok o ∧
      o.IsReached ∧ o.IsConsistent ∧ o.offset = some 20 ∧ o.limitRank = some 3 ∧
      o.limitDirection = .asc := by
  obtain ⟨before, accepted⟩ : ∃ before, accept leastCities.lift [] = .ok before := ⟨_, rfl⟩
  obtain ⟨o, overridden⟩ : ∃ o, accept (.object (.aggregateOptions before))
      [("page", .int 2), ("page_size", .text "10")] = .ok o := by
    cases accepted
    exact ⟨_, rfl⟩
  have first : before.IsReached := .accepted (fun _ same => by cases same) accepted
  have reached : o.IsReached := by
    refine .accepted (fun previous same => ?_) overridden
    cases same
    exact first
  refine ⟨before, o, accepted, overridden, reached, isConsistent_of_isReached reached, ?_⟩
  cases accepted
  cases overridden
  exact ⟨rfl, rfl, rfl⟩

end AggregateOptions

end Olap
