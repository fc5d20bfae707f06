/-
What is known of accepted options. A check of several fields succeeds exactly when the check of each
field does, so what was accepted for a field passed the check of this field or is its default. The
operators of accepted options are therefore operators that the compiler knows, and the aggregation
that a limit ranks by is one of them.
-/

import Olap.Compile
import Olap.Proofs.Session

namespace Olap

namespace Check

variable {α β γ : Type}

/-! ### Checks that succeed -/

theorem result_map {f : β → γ} {check : Check β} {c : γ} :
    (f <$> check).result = .ok c ↔ ∃ b, check.result = .ok b ∧ f b = c := by
  show (Check.map f check).result = .ok c ↔ _
  rcases check with ⟨fault | details | b⟩ <;> simp [Check.map, result, Except.map]

theorem result_seq {first : Check (β → γ)} {second : Check β} {c : γ} :
    (first <*> second).result = .ok c ↔
      ∃ f b, first.result = .ok f ∧ second.result = .ok b ∧ f b = c := by
  show (Check.both first fun _ => second).result = .ok c ↔ _
  rcases first with ⟨fault | details | f⟩ <;> rcases second with ⟨other | more | b⟩ <;>
    simp [Check.both, result]

theorem result_under {step : Step} {check : Check β} {b : β} :
    (check.under step).result = .ok b ↔ check.result = .ok b := by
  rcases check with ⟨fault | details | found⟩ <;> simp [Check.under, result, Except.map]

theorem exists_of_mem_eachFrom {f : α → Check β} {items : List α} {start : Nat} {found : List β}
    (checked : (eachFrom f start items).result = .ok found) {b : β} (member : b ∈ found) :
    ∃ item ∈ items, (f item).result = .ok b := by
  induction items generalizing start found with
  | nil =>
    cases checked
    cases member
  | cons item rest inductionHypothesis =>
    rw [eachFrom, result_seq] at checked
    obtain ⟨cons, others, first, later, rfl⟩ := checked
    obtain ⟨head, headChecked, rfl⟩ := result_map.1 first
    rcases List.mem_cons.mp member with rfl | tail
    · exact ⟨item, List.mem_cons_self, result_under.1 headChecked⟩
    · obtain ⟨other, otherMember, passed⟩ := inductionHypothesis later tail
      exact ⟨other, List.mem_cons_of_mem _ otherMember, passed⟩

/-- Items that were written are checked one by one. -/
theorem eachFrom_map_ok {check : α → Check β} {write : β → α} {items : List β}
    (each : ∀ item ∈ items, (check (write item)).result = .ok item) (start : Nat) :
    (eachFrom check start (items.map write)).result = .ok items := by
  induction items generalizing start with
  | nil => rfl
  | cons item rest inductionHypothesis =>
    obtain ⟨first, others⟩ := List.forall_mem_cons.mp each
    simp only [List.map_cons, eachFrom, result_seq, result_map, result_under]
    exact ⟨_, _, ⟨item, first, rfl⟩, inductionHypothesis others _, rfl⟩

end Check

/-- The spelling that is used is one of those allowed. -/
theorem mem_of_usedKey? {β : Type} {spellings : List String} {fields : List (String × β)}
    {key : String} (used : usedKey? spellings fields = some key) : key ∈ spellings :=
  List.mem_of_find?_eq_some used

/-- A field is what its check accepts, or has its default. -/
theorem checkField_ok {α β : Type} {fields : Fields α} {spellings : List String} {default : β}
    {check : Datum α → Check β} {b : β}
    (checked : (checkField fields spellings default check).result = .ok b) :
    b = default ∨ ∃ d, (check d).result = .ok b := by
  unfold checkField at checked
  split at checked
  · exact Or.inl (Except.ok.inj checked).symm
  · split at checked
    · exact Or.inl (Except.ok.inj checked).symm
    · exact Or.inr ⟨_, Check.result_under.1 checked⟩

/-- No field is refused when none is left over. -/
theorem refuseExtra_ok {β : Type} {known : List (List String)} {fields : List (String × β)} :
    (refuseExtra known fields).result = .ok () ↔ leftOver known fields = [] := by
  unfold refuseExtra
  cases leftOver known fields with
  | nil => exact ⟨fun _ => rfl, fun _ => rfl⟩
  | cons field rest => exact ⟨fun refused => (by cases refused), fun none => (by cases none)⟩

/-- Checked fields, of which none may be left over. -/
theorem Check.result_refusingExtra {β γ : Type} {check : Check β} {known : List (List String)}
    {fields : List (String × γ)} {b : β} :
    ((fun b _ => b) <$> check <*> refuseExtra known fields).result = .ok b ↔
      check.result = .ok b ∧ leftOver known fields = [] := by
  rw [result_seq, ← refuseExtra_ok]
  constructor
  · rintro ⟨_, _, first, none, rfl⟩
    obtain ⟨_, checked, rfl⟩ := result_map.1 first
    exact ⟨checked, none⟩
  · rintro ⟨checked, none⟩
    exact ⟨_, (), result_map.2 ⟨b, checked, rfl⟩, none, rfl⟩

/-- The known options that a record gives, under the names that they have. -/
def givenNames (known : List (List String)) (fields : Fields Part) : List String :=
  (known.filter fun keys => (usedKey? keys fields).isSome).map (·.headD "")

namespace Options

/-! ### Operators -/

theorem checkOperator_ok {item : Item Part} {name : String}
    (checked : (checkOperator item).result = .ok name) :
    Record.contains aggregationOperators name = true := by
  unfold checkOperator at checked
  split at checked
  · cases checked
  · split at checked
    · rename_i known found
      cases checked
      exact (Option.filter_eq_some_iff.mp found).2
    · cases checked

theorem checkOperators_ok {d : Description} {names : List String}
    (checked : (checkOperators d).result = .ok (some names)) :
    ∀ name ∈ names, Record.contains aggregationOperators name = true := by
  intro name member
  unfold checkOperators at checked
  split at checked
  · cases checked
  · split at checked
    · obtain ⟨_, each, ⟨⟩⟩ := Check.result_map.1 checked
      obtain ⟨_, -, passed⟩ := Check.exists_of_mem_eachFrom each member
      exact checkOperator_ok passed
    · split at checked
      · cases checked
      · obtain ⟨_, each, ⟨⟩⟩ := Check.result_map.1 checked
        obtain ⟨_, -, passed⟩ := Check.exists_of_mem_eachFrom each member
        exact checkOperator_ok passed

end Options

/-! ### Options of a query -/

namespace QueryOptions

/-- The options as if those of some names had been given. -/
def withGiven (o : QueryOptions) (names : List String) : QueryOptions := { o with given := names }

/-- Each option is what its own check accepts of a record, and those among the known ones are given that
the record gives. -/
@[mk_iff]
structure IsChecked (known : List (List String)) (fields : Fields Part) (o : QueryOptions) : Prop where
  orderBy : (checkField fields ["order_by"] none (Coerce.optional Coerce.text)).result = .ok o.orderBy
  orderDirection : (checkField fields ["order_direction"] none
    (Options.checkDirection orderDirectionTitle)).result = .ok o.orderDirection
  page : (checkField fields ["page"] none (Coerce.optional Coerce.int)).result = .ok o.page
  pageSize : (checkField fields ["page_size"] none (Coerce.optional Coerce.int)).result =
    .ok o.pageSize
  given : o.given = givenNames known fields

variable {known : List (List String)} {fields : Fields Part} {o : QueryOptions}

/-- Options of a query are checked alike among more or fewer known options. -/
theorem IsChecked.among (checked : IsChecked known fields o) (others : List (List String)) :
    IsChecked others fields (o.withGiven (givenNames others fields)) :=
  { checked with given := rfl }

/-- Options are checked when each of them is. -/
theorem check_ok : (check fields).result = .ok o ↔ IsChecked knownKeys fields o := by
  simp only [check, Check.result_seq, Check.result_map]
  constructor
  · rintro ⟨_, _, ⟨_, _, ⟨_, _, ⟨_, ordered, rfl⟩, directed, rfl⟩, paged, rfl⟩, sized, rfl⟩
    exact ⟨ordered, directed, paged, sized, rfl⟩
  · obtain ⟨orderBy, orderDirection, page, pageSize, given⟩ := o
    rintro ⟨ordered, directed, paged, sized, ⟨⟩⟩
    exact ⟨_, _, ⟨_, _, ⟨_, _, ⟨_, ordered, rfl⟩, directed, rfl⟩, paged, rfl⟩, sized, rfl⟩

/-- Accepted options were checked field by field, left no field over, and were then validated. -/
theorem ofFields_ok :
    ofFields fields = .ok o ↔
      (IsChecked knownKeys fields o ∧ leftOver knownKeys fields = []) ∧ o.validate = .ok () := by
  simp only [ofFields, Result.bind_ok, Check.result_refusingExtra, check_ok]
  constructor
  · rintro ⟨_, accepted, _, validated, ⟨⟩⟩
    exact ⟨accepted, validated⟩
  · rintro ⟨accepted, validated⟩
    exact ⟨o, accepted, (), validated, rfl⟩

end QueryOptions

/-! ### Options of an aggregation -/

namespace AggregateOptions

/-- Options that are accepted of some description. -/
def IsAccepted (o : AggregateOptions) : Prop := ∃ fields, ofFields fields = .ok o

/-- Options that come to be accepted are accepted of a description, when those that are given as an
object were accepted before. -/
theorem isAccepted_of_accept {d : Description} {overrides : Fields Part} {o : AggregateOptions}
    (lawful : ∀ given, d = .object (.aggregateOptions given) → given.IsAccepted)
    (accepted : accept d overrides = .ok o) : o.IsAccepted := by
  unfold accept at accepted
  split at accepted
  · rename_i given
    cases accepted
    exact lawful _ rfl
  · obtain ⟨fields, -, reported⟩ := Result.bind_ok.1 accepted
    refine ⟨Record.update fields overrides, ?_⟩
    unfold Options.reportInvalid at reported
    split at reported
    · cases reported
    · exact reported

/-- An operator in the list of operators has a function. -/
theorem exists_aggregate?_of_contains {name : String}
    (known : Record.contains aggregationOperators name = true) :
    ∃ function, Compiler.aggregate? name = some function := by
  simp only [Record.contains, aggregationOperators, List.any_cons, List.any_nil, Bool.or_eq_true,
    beq_iff_eq, Bool.false_eq_true, or_false] at known
  rcases known with rfl | rfl | rfl | rfl | rfl
  · exact ⟨.sum, by decide⟩
  · exact ⟨.count, by decide⟩
  · exact ⟨.avg, by decide⟩
  · exact ⟨.min, by decide⟩
  · exact ⟨.max, by decide⟩

variable {o : AggregateOptions}

/-- Each option is what its own check accepts of a record. -/
@[mk_iff]
structure IsChecked (fields : Fields Part) (o : AggregateOptions) : Prop
    extends QueryOptions.IsChecked knownKeys fields o.toQueryOptions where
  rowDimension : (checkField fields ["row_dimension"] none Options.checkDimension).result =
    .ok o.rowDimension
  rowLevels : (checkField fields ["row_levels"] none Options.checkLevels).result = .ok o.rowLevels
  aggregations : (checkField fields ["aggregations", "operators"] none Options.checkOperators).result =
    .ok o.aggregations
  limit : (checkField fields ["limit"] none Options.checkLimit).result = .ok o.limit
  limitValue : (checkField fields ["limit_value"] none (Coerce.optional Coerce.int)).result =
    .ok o.limitValue
  limitSort : (checkField fields ["limit_sort"] none
    (Options.checkDirection limitSortTitle)).result = .ok o.limitSort
  limitAggregation : (checkField fields ["limit_aggregation"] none
    (Coerce.optional Coerce.text)).result = .ok o.limitAggregation

/-- The options of a query are checked on their own first. -/
theorem check_ok {fields : Fields Part} : (check fields).result = .ok o ↔ IsChecked fields o := by
  simp only [check, Check.result_seq, Check.result_map, QueryOptions.check_ok]
  constructor
  · rintro ⟨_, _, ⟨_, _, ⟨_, _, ⟨_, _, ⟨_, _, ⟨_, _, ⟨_, _, ⟨base, checked, rfl⟩, dimensioned, rfl⟩,
      levelled, rfl⟩, operated, rfl⟩, limited, rfl⟩, valued, rfl⟩, sorted, rfl⟩, ranked, rfl⟩
    exact ⟨checked.among knownKeys, dimensioned, levelled, operated, limited, valued, sorted, ranked⟩
  · obtain ⟨⟨orderBy, orderDirection, page, pageSize, given⟩, rest⟩ := o
    rintro ⟨checked, dimensioned, levelled, operated, limited, valued, sorted, ranked⟩
    obtain rfl := checked.given
    exact ⟨_, _, ⟨_, _, ⟨_, _, ⟨_, _, ⟨_, _, ⟨_, _, ⟨_, _, ⟨_, checked.among QueryOptions.knownKeys, rfl⟩,
      dimensioned, rfl⟩, levelled, rfl⟩, operated, rfl⟩, limited, rfl⟩, valued, rfl⟩, sorted, rfl⟩,
      ranked, rfl⟩

/-- Accepted options were checked field by field, left no field over, and were then validated, as
options of a query first. -/
theorem ofFields_ok {fields : Fields Part} :
    ofFields fields = .ok o ↔
      (IsChecked fields o ∧ leftOver knownKeys fields = []) ∧
        o.toQueryOptions.validate = .ok () ∧ validate o = .ok () := by
  simp only [ofFields, Result.bind_ok, Check.result_refusingExtra, check_ok]
  constructor
  · rintro ⟨_, accepted, _, paged, _, validated, ⟨⟩⟩
    exact ⟨accepted, paged, validated⟩
  · rintro ⟨accepted, paged, validated⟩
    exact ⟨o, accepted, (), paged, (), validated, rfl⟩

/-- All operators of accepted options are known. -/
theorem IsAccepted.contains_of_mem (accepted : o.IsAccepted) {operator : String}
    (member : operator ∈ o.operators) : Record.contains aggregationOperators operator = true := by
  obtain ⟨fields, made⟩ := accepted
  have checked := (ofFields_ok.1 made).1.1.aggregations
  unfold operators at member
  cases chosen : o.aggregations with
  | none =>
    rw [chosen] at member
    rw [List.mem_singleton.mp member]
    decide
  | some names =>
    rw [chosen] at member checked
    rcases checkField_ok checked with absent | ⟨d, passed⟩
    · cases absent
    · exact Options.checkOperators_ok passed operator member

/-- All operators of accepted options have a function. -/
theorem IsAccepted.exists_aggregate? (accepted : o.IsAccepted) {operator : String}
    (member : operator ∈ o.operators) :
    ∃ function, Compiler.aggregate? operator = some function :=
  exists_aggregate?_of_contains (accepted.contains_of_mem member)

/-- A valid limit by rank has a number of rows, which is not negative, and ranks by one of the
operators. -/
theorem validateLimit_ok (validated : validateLimit o = .ok ()) :
    (o.limit = some "rank" → o.limitValue ≠ none) ∧ (∀ count ∈ o.limitValue, 0 ≤ count) ∧
      o.rankedBy ∈ o.operators := by
  unfold validateLimit at validated
  split at validated
  · cases validated
  · split at validated
    · cases validated
    · rename_i counted
      split at validated
      · cases validated
      · rename_i natural
        split at validated
        · cases validated
        · rename_i selected
          refine ⟨fun ranked absent => counted ?_, fun count given => ?_, by simpa using selected⟩
          · rw [ranked, absent]
            rfl
          · rw [Option.mem_def.mp given] at natural
            simpa using natural

theorem IsAccepted.validateLimit (accepted : o.IsAccepted) (limited : o.hasLimit = true) :
    o.validateLimit = .ok () := by
  obtain ⟨fields, made⟩ := accepted
  have validated := (ofFields_ok.1 made).2.2
  unfold validate at validated
  rw [if_pos limited] at validated
  split at validated
  · cases validated
  · exact validated

/-- With a limit, rows are ranked by one of the operators. -/
theorem IsAccepted.rankedBy_mem (accepted : o.IsAccepted) (limited : o.hasLimit = true) :
    o.rankedBy ∈ o.operators := (validateLimit_ok (accepted.validateLimit limited)).2.2

end AggregateOptions

end Olap
