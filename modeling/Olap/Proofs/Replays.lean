/-
Options that are given again as they are written. Options are echoed as the record of those that are set,
and whoever reads the echo may ask for the same by giving the record back. Options that are nothing are
not written, and nothing is what they are again. The others are written as they were accepted and not as
they were given: a number that was a text is written as a number, a single level as a list, a direction
as its word, and the operators under the first of their two names. What was accepted for an option is
accepted of what is written, so that all options are what they were, except for which of them were given.
-/

import Mathlib
import Olap.Proofs.Overrides

namespace Olap

/-! ### Records of what is set -/

namespace Record

variable {β : Type}

/-- What is found of the values that are kept, when all keys differ. -/
theorem get?_filter_values (kept : β → Bool) {fields : List (String × β)}
    (distinct : (keys fields).Nodup) (key : String) :
    get? (fields.filter fun field => kept field.2) key = (get? fields key).filter kept := by
  induction fields with
  | nil => rfl
  | cons field rest inductionHypothesis =>
    obtain ⟨fresh, distinctRest⟩ := List.nodup_cons.mp distinct
    have later := inductionHypothesis distinctRest
    rw [get?_cons]
    by_cases same : field.1 = key
    · -- A value that is dropped must not uncover a later one of the same key.
      have unfound : get? rest key = none := get?_eq_none_iff.mpr (same ▸ fresh)
      rw [unfound, Option.filter_none] at later
      rw [if_pos same, Option.filter_some, List.filter_cons]
      split
      · rw [get?_cons, if_pos same]
      · exact later
    · rw [if_neg same, List.filter_cons]
      split
      · rw [get?_cons, if_neg same, later]
      · exact later

theorem mem_keys_of_mem_filter {kept : String × β → Bool} {fields : List (String × β)} {key : String}
    (member : key ∈ keys (fields.filter kept)) : key ∈ keys fields := by
  obtain ⟨field, inside, rfl⟩ := List.mem_map.mp member
  exact mem_keys_of_mem (List.mem_of_mem_filter inside)

end Record

/-- Fields that are not nothing. -/
def setFields (fields : Row) : Row := fields.filter fun field => !field.2.isNull

theorem textOption_eq (key : String) (value : Option String) :
    textOption key value = setFields [(key, .ofOption value)] := by
  cases value <;> rfl

theorem intOption_eq (key : String) (value : Option Int) :
    intOption key value = setFields [(key, value.elim .null .int)] := by
  cases value <;> rfl

theorem namesOption_eq (key : String) (value : Option (List String)) :
    namesOption key value =
      setFields [(key, value.elim .null fun names => .list (names.map .text))] := by
  cases value <;> rfl

/-- Options are written that are set. -/
theorem QueryOptions.toRecord_eq (o : QueryOptions) : o.toRecord = setFields o.all := by
  unfold toRecord
  rw [textOption_eq, textOption_eq, intOption_eq, intOption_eq]
  simp only [setFields, ← List.filter_append]
  rfl

theorem AggregateOptions.toRecord_eq (o : AggregateOptions) : o.toRecord = setFields o.all := by
  unfold toRecord
  rw [o.toQueryOptions.toRecord_eq]
  simp only [textOption_eq, intOption_eq, namesOption_eq, setFields, ← List.filter_append]
  unfold all
  simp only [List.append_assoc, List.cons_append, List.nil_append]

/-! ### Reading what is set -/

/-- Only the first spelling of a field counts where no other is used. -/
theorem givenIn_first {β : Type} {head : String} {others : List String} {fields : List (String × β)}
    (unused : ∀ key ∈ others, key ∉ Record.keys fields) :
    givenIn (head :: others) fields = Record.get? fields head := by
  by_cases used : head ∈ Record.keys fields
  · unfold givenIn
    rw [usedKey?_of_first used, Option.bind_some]
  · have none : usedKey? (head :: others) fields = none := by
      refine Option.not_isSome_iff_eq_none.mp fun some => ?_
      obtain ⟨key, spelled, member⟩ := isSome_usedKey?_iff.mp some
      rcases List.mem_cons.mp spelled with rfl | other
      · exact used member
      · exact unused key other member
    unfold givenIn
    rw [none, Option.bind_none, Record.get?_eq_none_iff.mpr used]

section Reading

variable {known : List (List String)} {all : Row} {head : String} {others : List String} {value : Value}

/-- What a field is set to is found under its first spelling. -/
theorem givenIn_setFields (distinct : (Record.keys all).Nodup)
    (firsts : ∀ key ∈ others, key ∉ Record.keys all) (found : Record.get? all head = some value) :
    givenIn (head :: others) (setFields all) = if value.isNull then none else some value := by
  unfold setFields
  rw [givenIn_first fun key spelled => mt Record.mem_keys_of_mem_filter (firsts key spelled),
    Record.get?_filter_values (!·.isNull) distinct, found, Option.filter_some]
  cases value.isNull <;> rfl

/-- Nothing is left over of fields that are all under the first spelling of a known one. -/
theorem leftOver_setFields (names : Record.keys all = known.map (·.headD ""))
    (spelled : ∀ spellings ∈ known, spellings ≠ []) :
    leftOver known (Datum.liftFields (setFields all) : Fields Part) = [] := by
  have none : leftOver known (setFields all) = [] := by
    refine leftOver_eq_nil_iff.mpr fun key member => ?_
    have first := Record.mem_keys_of_mem_filter member
    rw [names] at first
    obtain ⟨spellings, inside, rfl⟩ := List.mem_map.mp first
    obtain ⟨head, others, rfl⟩ := List.exists_cons_of_ne_nil (spelled spellings inside)
    exact ⟨_, inside, usedKey?_of_first member others⟩
  rw [Datum.leftOver_liftFields, none]
  rfl

theorem eq_null_of_isNull {value : Value} (null : value.isNull = true) : value = .null := by
  cases value with
  | null => rfl
  | _ => cases null

/-- A field is accepted again of what it is set to, if what it is set to is accepted and nothing is
accepted as nothing. -/
theorem checkField_setFields {β : Type} {check : Description → Check (Option β)} {b : Option β}
    (distinct : (Record.keys all).Nodup) (firsts : ∀ key ∈ others, key ∉ Record.keys all)
    (found : Record.get? all head = some value) (nothing : (check .null).result = .ok none)
    (again : (check value.lift).result = .ok b) :
    (checkField (Datum.liftFields (setFields all)) (head :: others) none check).result = .ok b := by
  have given := givenIn_setFields distinct firsts found
  cases null : value.isNull with
  | true =>
    rw [null, if_pos rfl] at given
    -- Nothing was written, so the default stands in for what is accepted as nothing.
    obtain rfl := eq_null_of_isNull null
    obtain rfl := Except.ok.inj (nothing.symm.trans again)
    exact checkField_of_absent given
  | false =>
    rw [null, if_neg Bool.false_ne_true] at given
    exact checkField_of_given given again

end Reading

/-! ### Options of a query -/

namespace QueryOptions

variable {fields : Fields Part} {o : QueryOptions}

/-- Options that are accepted of some description. -/
def IsAccepted (o : QueryOptions) : Prop := ∃ fields, ofFields fields = .ok o

/-- The options as they come to be when they are accepted of what they are written as. -/
def echoed (o : QueryOptions) : QueryOptions :=
  o.withGiven (givenNames knownKeys (Datum.liftFields o.toRecord))

theorem keys_all (o : QueryOptions) : Record.keys o.all = knownKeys.map (·.headD "") := rfl

theorem nodup_keys_all (o : QueryOptions) : (Record.keys o.all).Nodup := by
  rw [keys_all]
  decide

/-- What was checked is checked again as it is written, by itself or before other options. The names of the
options that are given then are kept apart, as there is no need to find out which they are. -/
theorem IsChecked.written {known again : List (List String)} (checked : IsChecked known fields o)
    {all : Row} (begins : o.all <+: all) (distinct : (Record.keys all).Nodup) {names : List String}
    (given : names = givenNames again (Datum.liftFields (setFields all))) :
    IsChecked again (Datum.liftFields (setFields all)) (o.withGiven names) := by
  obtain ⟨others, rfl⟩ := begins
  exact
    { orderBy := checkField_setFields distinct nofun rfl rfl (Options.checkText_written _)
      orderDirection := checkField_setFields distinct nofun rfl rfl
        (Options.checkDirection_written (AggregateOptions.parseDirection_of_checkField checked.orderDirection))
      page := checkField_setFields distinct nofun rfl rfl (Options.checkInt_written _)
      pageSize := checkField_setFields distinct nofun rfl rfl (Options.checkInt_written _)
      given := given }

/-- Options of a query are accepted of what they are written as. -/
theorem IsAccepted.ofFields_toRecord (accepted : o.IsAccepted) :
    ofFields (Datum.liftFields o.toRecord) = .ok o.echoed := by
  obtain ⟨fields, made⟩ := accepted
  obtain ⟨⟨checked, -⟩, validated⟩ := ofFields_ok.1 made
  unfold echoed
  rw [o.toRecord_eq]
  have none : leftOver knownKeys (Datum.liftFields (setFields o.all) : Fields Part) = [] :=
    leftOver_setFields o.keys_all (by decide)
  exact ofFields_ok.2
    ⟨⟨checked.written List.prefix_rfl o.nodup_keys_all rfl, none⟩, validated⟩

/-- Options that are written alike and mean the same for a query. -/
structure AgreesWith (again o : QueryOptions) : Prop where
  record : again.toRecord = o.toRecord
  direction : again.direction = o.direction
  offset : again.offset = o.offset
  limitRows : again.limitRows = o.limitRows

/-- Which options were given is no part of what they mean. -/
theorem withGiven_agreesWith (o : QueryOptions) (names : List String) :
    (o.withGiven names).AgreesWith o := ⟨rfl, rfl, rfl, rfl⟩

end QueryOptions

/-! ### Options of an aggregation -/

namespace AggregateOptions

/-- The options as if those of some names had been given. -/
def withGiven (o : AggregateOptions) (names : List String) : AggregateOptions :=
  { o with given := names }

/-- The options as they come to be when they are accepted of what they are written as. -/
def echoed (o : AggregateOptions) : AggregateOptions :=
  o.withGiven (givenNames knownKeys (Datum.liftFields o.toRecord))

theorem validate_withGiven (o : AggregateOptions) (names : List String) :
    (o.withGiven names).toQueryOptions.validate = o.toQueryOptions.validate ∧
      validate (o.withGiven names) = validate o := ⟨rfl, rfl⟩

theorem keys_all (o : AggregateOptions) : Record.keys o.all = knownKeys.map (·.headD "") := rfl

theorem nodup_keys_all (o : AggregateOptions) : (Record.keys o.all).Nodup := by
  rw [keys_all]
  decide

/-- The second name of the operators is not the name that an option is written under. -/
theorem operators_notMem_keys_all (o : AggregateOptions) :
    ∀ key ∈ ["operators"], key ∉ Record.keys o.all := by
  rw [keys_all]
  decide

theorem checkField_toRecord {β : Type} {check : Description → Check (Option β)} {b : Option β}
    {value : Value} {head : String} {others : List String} (o : AggregateOptions)
    (firsts : ∀ key ∈ others, key ∉ Record.keys o.all) (found : Record.get? o.all head = some value)
    (nothing : (check .null).result = .ok none) (again : (check value.lift).result = .ok b) :
    (checkField (Datum.liftFields o.toRecord) (head :: others) none check).result = .ok b := by
  rw [o.toRecord_eq]
  exact checkField_setFields o.nodup_keys_all firsts found nothing again

/-- What was checked is checked again as it is written. -/
theorem IsChecked.toRecord {o : AggregateOptions} {fields : Fields Part} (checked : IsChecked fields o)
    {names : List String} (given : names = givenNames knownKeys (Datum.liftFields o.toRecord)) :
    IsChecked (Datum.liftFields o.toRecord) (o.withGiven names) where
  toIsChecked := by
    rw [o.toRecord_eq] at given ⊢
    exact checked.toIsChecked.written (List.prefix_append _ _) o.nodup_keys_all given
  rowDimension := o.checkField_toRecord nofun rfl rfl (Options.checkDimension_written _)
  rowLevels := o.checkField_toRecord nofun rfl rfl (Options.checkLevels_written _)
  aggregations := o.checkField_toRecord o.operators_notMem_keys_all rfl rfl
    (Options.checkOperators_written checked.operators_known)
  limit := o.checkField_toRecord nofun rfl rfl (Options.checkLimit_written checked.limit_known)
  limitValue := o.checkField_toRecord nofun rfl rfl (Options.checkInt_written _)
  limitSort := o.checkField_toRecord nofun rfl rfl
    (Options.checkDirection_written (parseDirection_of_checkField checked.limitSort))
  limitAggregation := o.checkField_toRecord nofun rfl rfl (Options.checkText_written _)

/-- Options of an aggregation are accepted of what they are written as. -/
theorem IsAccepted.ofFields_toRecord {o : AggregateOptions} (accepted : o.IsAccepted) :
    ofFields (Datum.liftFields o.toRecord) = .ok o.echoed := by
  obtain ⟨fields, made⟩ := accepted
  obtain ⟨⟨checked, -⟩, paged, validated⟩ := ofFields_ok.1 made
  have none : leftOver knownKeys (Datum.liftFields o.toRecord : Fields Part) = [] := by
    rw [o.toRecord_eq]
    exact leftOver_setFields o.keys_all (by decide)
  obtain ⟨samePage, same⟩ := o.validate_withGiven (givenNames knownKeys (Datum.liftFields o.toRecord))
  exact ofFields_ok.2 ⟨⟨checked.toRecord rfl, none⟩, samePage.trans paged, same.trans validated⟩

/-- Options that are written alike and mean the same for an aggregation. -/
structure AgreesWith (again o : AggregateOptions) : Prop where
  record : again.toRecord = o.toRecord
  direction : again.direction = o.direction
  offset : again.offset = o.offset
  limitRows : again.limitRows = o.limitRows
  operators : again.operators = o.operators
  isDrillDown : again.isDrillDown = o.isDrillDown
  hasLimit : again.hasLimit = o.hasLimit
  rankedBy : again.rankedBy = o.rankedBy
  limitRank : again.limitRank = o.limitRank
  limitDirection : again.limitDirection = o.limitDirection

/-- Which options were given is no part of what they mean. -/
theorem withGiven_agreesWith (o : AggregateOptions) (names : List String) :
    (o.withGiven names).AgreesWith o :=
  ⟨rfl, rfl, rfl, rfl, rfl, rfl, rfl, rfl, rfl, rfl⟩

end AggregateOptions

/-! ### Replaying -/

namespace Options

/-- Options of either kind that are reached by accepting: of any description, and when it is options, of
options that are reached themselves. -/
inductive IsReached : Options → Prop
  | query {d : Description} {overrides : Fields Part} {o : Options}
      (before : ∀ previous : Options, d = .object previous.toPart → IsReached previous)
      (accepted : QueryOptions.accept d overrides = .ok o) : IsReached o
  | aggregate {d : Description} {overrides : Fields Part} {o : AggregateOptions}
      (before : ∀ previous : Options, d = .object previous.toPart → IsReached previous)
      (accepted : AggregateOptions.accept d overrides = .ok o) : IsReached (.aggregate o)

/-- Options of either kind that are accepted of some fields. -/
def IsAccepted : Options → Prop
  | query o => o.IsAccepted
  | aggregate o => o.IsAccepted

/-- What options of either kind are written as. -/
def toRecord : Options → Row
  | query o => o.toRecord
  | aggregate o => o.toRecord

/-- Gives options again as they are written, to be accepted as options of their kind. -/
def replay (o : Options) : Result Options :=
  match o with
  | query _ => QueryOptions.accept (.record (Datum.liftFields o.toRecord)) []
  | aggregate _ => (AggregateOptions.accept (.record (Datum.liftFields o.toRecord)) []).map .aggregate

/-- Options of one kind that are written alike and mean the same. -/
def AgreesWith : Options → Options → Prop
  | query again, query o => again.AgreesWith o
  | aggregate again, aggregate o => again.AgreesWith o
  | _, _ => False

theorem acceptFields_ok {β : Type} {make : Fields Part → Result β} {d : Description}
    {overrides : Fields Part} {b : β} (accepted : acceptFields make d overrides = .ok b) :
    ∃ fields, make fields = .ok b := by
  obtain ⟨fields, -, reported⟩ := Result.bind_ok.1 accepted
  exact ⟨_, AggregateOptions.reportInvalid_ok.mp reported⟩

/-- A step of a chain accepts fields, or leaves options as they were accepted before. -/
theorem isAccepted_of_isReached {o : Options} (reached : o.IsReached) : o.IsAccepted := by
  induction reached with
  | query before accepted lawful =>
    unfold QueryOptions.accept at accepted
    split at accepted
    · cases accepted
      exact lawful _ rfl
    · cases accepted
      exact lawful _ rfl
    · obtain ⟨o, made, rfl⟩ := Result.map_ok.1 accepted
      exact acceptFields_ok made
  | aggregate before accepted lawful =>
    exact AggregateOptions.isAccepted_of_accept (fun given same => lawful (.aggregate given) same)
      accepted

/-- Whatever options are reached by accepting, they are accepted again of what they are written as, and
then are written alike and mean the same. -/
theorem replay_agreesWith {o : Options} (reached : o.IsReached) :
    ∃ again, o.replay = .ok again ∧ again.AgreesWith o := by
  have accepted := isAccepted_of_isReached reached
  cases o with
  | query o =>
    refine ⟨.query o.echoed, ?_, o.withGiven_agreesWith _⟩
    show (reportInvalid (QueryOptions.ofFields (Datum.liftFields o.toRecord))).map query = _
    rw [QueryOptions.IsAccepted.ofFields_toRecord accepted]
    rfl
  | aggregate o =>
    refine ⟨.aggregate o.echoed, ?_, o.withGiven_agreesWith _⟩
    show (reportInvalid (AggregateOptions.ofFields (Datum.liftFields o.toRecord))).map aggregate = _
    rw [AggregateOptions.IsAccepted.ofFields_toRecord accepted]
    rfl

/-- The three cities with the highest counts, with options in other forms than they are written in. -/
def highestCounts : Fields Part :=
  [("operators", .text "count"), ("row_dimension", .text "place"), ("row_levels", .text "city"),
    ("limit", .text "rank"), ("limit_value", .text " +03 "), ("limit_sort", .direction .desc),
    ("limit_aggregation", .text "count"), ("order_by", .null)]

/-- The page that is asked for of options accepted before is written as well. -/
theorem replay_agreesWith_highestCounts :
    ∃ before o again, AggregateOptions.accept (.record highestCounts) [] = .ok before ∧
      AggregateOptions.accept (.object (.aggregateOptions before))
        [("page", .bool false), ("page_size", .text "10")] = .ok o ∧
      IsReached (.aggregate o) ∧ replay (.aggregate o) = .ok (.aggregate again) ∧
      again.AgreesWith o ∧ again.operators = ["count"] ∧ again.limitRank = some 3 ∧
      again.limitRows = some 10 := by
  obtain ⟨before, accepted⟩ : ∃ before, AggregateOptions.accept (.record highestCounts) [] =
      .ok before := ⟨_, rfl⟩
  obtain ⟨o, overridden⟩ : ∃ o, AggregateOptions.accept (.object (.aggregateOptions before))
      [("page", .bool false), ("page_size", .text "10")] = .ok o := by
    cases accepted
    exact ⟨_, rfl⟩
  have reached : IsReached (.aggregate o) := by
    refine .aggregate (fun previous same => ?_) overridden
    cases previous with
    | query => cases same
    | aggregate previous =>
      cases same
      exact .aggregate (fun previous same => by cases previous <;> cases same) accepted
  obtain ⟨again, replayed, agrees⟩ := replay_agreesWith reached
  cases again with
  | query => exact agrees.elim
  | aggregate again =>
    refine ⟨before, o, again, accepted, overridden, reached, replayed, agrees, ?_⟩
    rw [agrees.operators, agrees.limitRank, agrees.limitRows]
    cases accepted
    cases overridden
    exact ⟨rfl, rfl, rfl⟩

end Options

end Olap
