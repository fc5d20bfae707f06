/-
Limits. The options of a limit can be left out of accepted options, and the rest is accepted. The
drill-down without them asks the store for the same groups, in the same order and on the same page, and
the limit only ranks the rows of this answer. So the rows of a limited drill-down are the first of the
rows that are there without the limit, by the field that they are ranked by.

The store ranks by what it has computed. Afterwards a text that denotes a number is made this number, and
texts are not in the order of the numbers they denote. Therefore the rows are in order by the field as
they have it only where the field is no such text: for sums, counts and means always, and for extreme
values when the measure is no such text.
-/

import Olap.Proofs.Levels
import Olap.Proofs.Ranking
import Olap.Proofs.Remainder

namespace Olap

/-! ### Descriptions without some fields -/

section Without

variable {α β : Type} {dropped : List String}

/-- A description without the fields of some names. -/
def Record.without (dropped : List String) (fields : List (String × β)) : List (String × β) :=
  fields.filter fun field => !dropped.contains field.1

/-- A field that is kept is found as before. -/
theorem Record.find?_without {key : String} (kept : key ∉ dropped) (fields : List (String × β)) :
    (without dropped fields).find? (·.1 == key) = fields.find? (·.1 == key) := by
  rw [without, List.find?_filter]
  refine congrArg (List.find? · fields) (funext fun field => ?_)
  by_cases same : field.1 = key
  · simp [same, kept]
  · simp [same]

theorem Record.contains_without (key : String) (fields : List (String × β)) :
    contains (without dropped fields) key = (!dropped.contains key && contains fields key) := by
  unfold contains without
  rw [List.any_filter]
  by_cases gone : key ∈ dropped
  · rw [List.contains_iff_mem.mpr gone, Bool.not_true, Bool.false_and, List.any_eq_false]
    intro field _ both
    rw [Bool.and_eq_true, beq_iff_eq] at both
    rw [both.2, List.contains_iff_mem.mpr gone] at both
    cases both.1
  · rw [show dropped.contains key = false by simpa using gone, Bool.not_false, Bool.true_and]
    refine congrArg (List.any fields) (funext fun field => ?_)
    by_cases same : field.1 = key
    · simp [same, gone]
    · simp [same]

/-- Spellings that are kept are used as before. -/
theorem usedKey?_without_of_kept {spellings : List String}
    (kept : ∀ key ∈ spellings, key ∉ dropped) (fields : List (String × β)) :
    usedKey? spellings (Record.without dropped fields) = usedKey? spellings fields := by
  unfold usedKey?
  induction spellings with
  | nil => rfl
  | cons key rest inductionHypothesis =>
    rw [List.find?_cons, List.find?_cons, Record.contains_without,
      show dropped.contains key = false by simpa using kept key List.mem_cons_self,
      Bool.not_false, Bool.true_and,
      inductionHypothesis fun other member => kept other (List.mem_cons_of_mem _ member)]

theorem usedKey?_without_of_dropped {spellings : List String}
    (all : ∀ key ∈ spellings, key ∈ dropped) (fields : List (String × β)) :
    usedKey? spellings (Record.without dropped fields) = none := by
  refine List.find?_eq_none.mpr fun key member => ?_
  rw [Record.contains_without, List.contains_iff_mem.mpr (all key member)]
  exact Bool.false_ne_true

/-- A field whose spellings are kept is checked as before. -/
theorem checkField_without_of_kept {spellings : List String}
    (kept : ∀ key ∈ spellings, key ∉ dropped) (fields : Fields α) (default : β)
    (check : Datum α → Check β) :
    checkField (Record.without dropped fields) spellings default check =
      checkField fields spellings default check := by
  unfold checkField
  rw [usedKey?_without_of_kept kept]
  cases used : usedKey? spellings fields with
  | none => rfl
  | some key =>
    dsimp only
    rw [Record.get?, Record.find?_without (kept key (mem_of_usedKey? used)), ← Record.get?]

theorem checkField_without_of_dropped {spellings : List String}
    (all : ∀ key ∈ spellings, key ∈ dropped) (fields : Fields α) (default : β)
    (check : Datum α → Check β) :
    checkField (Record.without dropped fields) spellings default check = .accept default := by
  unfold checkField
  rw [usedKey?_without_of_dropped all]

/-- Nothing is left over of what is kept when known fields are kept or dropped as a whole. -/
theorem leftOver_without {known : List (List String)} {fields : List (String × β)}
    (whole : ∀ spellings ∈ known,
      (∀ key ∈ spellings, key ∉ dropped) ∨ ∀ key ∈ spellings, key ∈ dropped)
    (none : leftOver known fields = []) :
    leftOver known (Record.without dropped fields) = [] := by
  refine List.filter_eq_nil_iff.mpr fun field member => ?_
  obtain ⟨inside, kept⟩ := List.mem_filter.mp member
  have used := List.filter_eq_nil_iff.mp none field inside
  rw [Bool.not_eq_true, Bool.not_eq_false', List.contains_iff_mem] at used ⊢
  obtain ⟨spellings, among, found⟩ := List.mem_filterMap.mp used
  refine List.mem_filterMap.mpr ⟨spellings, among, ?_⟩
  rcases whole spellings among with stays | goes
  · rw [usedKey?_without_of_kept stays, found]
  · rw [List.contains_iff_mem.mpr (goes _ (mem_of_usedKey? found))] at kept
    cases kept

end Without

namespace AggregateOptions

/-! ### Options without their limit -/

/-- The options that make a limit. -/
def limitKeys : List String := ["limit", "limit_value", "limit_sort", "limit_aggregation"]

/-- The same options without those that make a limit. -/
def withoutLimit (o : AggregateOptions) : AggregateOptions :=
  { o with
    limit := none, limitValue := none, limitSort := none, limitAggregation := none
    given := o.given.filter fun key => !limitKeys.contains key }

/-- A known option makes a limit in all of its spellings or in none. -/
theorem spellings_limitKeys : ∀ spellings ∈ knownKeys,
    (∀ key ∈ spellings, key ∉ limitKeys) ∧ limitKeys.contains (spellings.headD "") = false ∨
      (∀ key ∈ spellings, key ∈ limitKeys) ∧ limitKeys.contains (spellings.headD "") = true := by
  decide

/-- The options that are given besides those that make a limit. -/
theorem givenNames_without (fields : Fields Part) :
    givenNames knownKeys (Record.without limitKeys fields) =
      (givenNames knownKeys fields).filter fun key => !limitKeys.contains key := by
  unfold givenNames
  rw [List.filter_map, List.filter_filter]
  refine congrArg (List.map _) (List.filter_congr fun spellings member => ?_)
  rw [Function.comp_apply]
  rcases spellings_limitKeys spellings member with ⟨kept, other⟩ | ⟨all, own⟩
  · rw [usedKey?_without_of_kept kept, other]
    rfl
  · rw [usedKey?_without_of_dropped all, own]
    rfl

variable {o : AggregateOptions}

/-- Options that make no limit are checked as before, and the others are not there. -/
theorem isChecked_without {fields : Fields Part} (checked : IsChecked fields o) :
    IsChecked (Record.without limitKeys fields) o.withoutLimit := by
  rw [isChecked_iff, QueryOptions.isChecked_iff, givenNames_without, ← checked.given,
    checkField_without_of_kept (by decide), checkField_without_of_kept (by decide),
    checkField_without_of_kept (by decide), checkField_without_of_kept (by decide),
    checkField_without_of_kept (by decide), checkField_without_of_kept (by decide),
    checkField_without_of_kept (by decide), checkField_without_of_dropped (by decide),
    checkField_without_of_dropped (by decide), checkField_without_of_dropped (by decide),
    checkField_without_of_dropped (by decide)]
  exact ⟨⟨checked.orderBy, checked.orderDirection, checked.page, checked.pageSize, rfl⟩,
    checked.rowDimension, checked.rowLevels, checked.aggregations, rfl, rfl, rfl, rfl⟩

/-- A description without the options that make a limit is accepted as the options without their
limit. -/
theorem ofFields_without {fields : Fields Part} (made : ofFields fields = .ok o) :
    ofFields (Record.without limitKeys fields) = .ok o.withoutLimit := by
  obtain ⟨⟨checked, none⟩, paged, validated⟩ := ofFields_ok.1 made
  refine ofFields_ok.2 ⟨⟨isChecked_without checked, ?_⟩, paged, ?_⟩
  · exact leftOver_without (fun spellings member =>
      (spellings_limitKeys spellings member).imp And.left And.left) none
  · unfold validate at validated ⊢
    split at validated
    · cases validated
    · rename_i dimension
      exact (if_neg dimension).trans rfl

theorem IsAccepted.withoutLimit (accepted : o.IsAccepted) : o.withoutLimit.IsAccepted := by
  obtain ⟨fields, made⟩ := accepted
  exact ⟨_, ofFields_without made⟩

/-! ### What a limit asks for -/

/-- A limit asks for a number of rows from one end of the ranking: for what it says, or for the ten
highest, whatever else it says. -/
def AsksFor (o : AggregateOptions) (count : Nat) (direction : Direction) : Prop :=
  (o.limit = some "rank" ∧ o.limitValue = some (count : Int) ∧
      direction = directionOf limitWords o.limitSort) ∨
    (o.limit = some "top_10" ∧ count = 10 ∧ direction = .desc)

theorem checkLimit_ok {d : Description} {limit : String}
    (checked : (Options.checkLimit d).result = .ok (some limit)) :
    limit = "rank" ∨ limit = "top_10" := by
  unfold Options.checkLimit at checked
  split at checked
  · cases checked
  · dsimp only at checked
    split at checked
    · cases checked
    · split at checked
      · rename_i known
        rw [← Option.some.inj (Except.ok.inj checked)]
        simpa using known
      · cases checked

/-- A limit that is accepted asks for a number of rows. -/
theorem IsAccepted.exists_asksFor (accepted : o.IsAccepted) (limited : o.hasLimit = true) :
    ∃ count : Nat, o.AsksFor count o.limitDirection ∧ o.limitRank = some (count : Int) := by
  obtain ⟨counted, natural, -⟩ := validateLimit_ok (accepted.validateLimit limited)
  obtain ⟨fields, made⟩ := accepted
  have checked := (ofFields_ok.1 made).1.1.limit
  obtain ⟨limit, present⟩ : ∃ limit, o.limit = some limit := by
    cases absent : o.limit with
    | none =>
      rw [hasLimit, absent] at limited
      cases limited
    | some limit => exact ⟨limit, rfl⟩
  rw [present] at checked
  rcases checkField_ok checked with unset | ⟨d, passed⟩
  · cases unset
  · rcases checkLimit_ok passed with rfl | rfl
    · obtain ⟨value, given⟩ := Option.ne_none_iff_exists'.mp (counted present)
      have size : (value.toNat : Int) = value := Int.toNat_of_nonneg (natural value given)
      refine ⟨value.toNat, Or.inl ⟨present, by rw [size, given], ?_⟩, ?_⟩
      · rw [limitDirection, isTopTen, present]
        rfl
      · rw [limitRank, isTopTen, present, size, ← given]
        rfl
    · refine ⟨10, Or.inr ⟨present, rfl, ?_⟩, ?_⟩
      · rw [limitDirection, isTopTen, present]
        rfl
      · rw [limitRank, isTopTen, present]
        rfl

end AggregateOptions

/-! ### Aggregates that are numbers -/

theorem Aggregator.extreme_eq_null_or_mem (before : Value → Value → Bool) (values : List Value) :
    extreme before values = .null ∨ extreme before values ∈ values := by
  cases values with
  | nil => exact Or.inl rfl
  | cons value rest => exact Or.inr (Layer.foldl_mem (fun a b => before a b = true) value rest)

/-- Sums, counts and means are numbers, and an extreme value is one when the values are. -/
theorem Aggregator.numbered_ofValues {function : Aggregator} {values : List Value}
    (numeric : function = .min ∨ function = .max → ∀ value ∈ values, value.numbered = value) :
    (function.ofValues values).numbered = function.ofValues values := by
  have extremes : ∀ before : Value → Value → Bool, (∀ value ∈ values, value.numbered = value) →
      (extreme before (values.filter (!Cell.isAbsent ·))).numbered =
        extreme before (values.filter (!Cell.isAbsent ·)) := by
    intro before numeric
    rcases extreme_eq_null_or_mem before (values.filter (!Cell.isAbsent ·)) with null | member
    · rw [null]
      rfl
    · exact numeric _ (List.mem_of_mem_filter member)
  cases function with
  | count => rfl
  | sum =>
    rw [ofValues, ofPresent]
    split
    · rfl
    · unfold RunningSum.value
      split <;> rfl
  | avg =>
    rw [ofValues, ofPresent]
    split <;> rfl
  | min => exact extremes _ (numeric (Or.inl rfl))
  | max => exact extremes _ (numeric (Or.inr rfl))

/-! ### Rows that are finished one by one -/

section Each

variable {α β : Type} {f : α → Result β} {items : List α}

/-- What is found of all items is found of each of them by itself. -/
theorem exists_each_of_allOf [Inhabited β] {found : List β} (all : allOf f items = .ok found) :
    ∃ g : α → β, (∀ item ∈ items, f item = .ok (g item)) ∧ found = items.map g := by
  have each : ∀ item ∈ items, f item = .ok ((f item).toOption.getD default) := by
    induction items generalizing found with
    | nil =>
      intro item member
      cases member
    | cons item rest inductionHypothesis =>
      obtain ⟨b, others, head, tail, -⟩ := allOf_cons_ok.1 all
      intro other member
      rcases List.mem_cons.mp member with rfl | later
      · rw [head]
        rfl
      · exact inductionHypothesis tail other later
  exact ⟨_, each, Except.ok.inj (all.symm.trans (allOf_of_each each))⟩

end Each

namespace Browser

open Olap.Action Compiler

variable {σ : Type} {b : Browser σ} {db : Database} {table : Table}

/-- A row of a result, made of a row that was found. -/
def finishRow (measure : Option String) (o : AggregateOptions) (computed : List ComputedField)
    (row : Row) : Result Row :=
  ComputedField.extend computed (numberFields (aggregatedFields measure o.operators) row)

theorem finishRows_eq (measure : Option String) (o : AggregateOptions)
    (computed : List ComputedField) (found : List Row) :
    finishRows measure o computed found = allOf (finishRow measure o computed) found := by
  unfold finishRows
  induction found with
  | nil => rfl
  | cons row rest inductionHypothesis =>
    rw [List.map_cons, ComputedField.extendAll, allOf, inductionHypothesis, finishRow]
    cases ComputedField.extend computed (numberFields (aggregatedFields measure o.operators) row) <;>
      rfl

/-! ### Rows that are ranked -/

/-- The rows that the store finds for a drill-down without a limit. -/
def rowsFound (b : Browser σ) (table : Table) (m : Attribute) (o : AggregateOptions)
    (conditions : List Predicate) (attributes : List Attribute) (order : List RowOrder) : List Row :=
  (b.compiler.groupedLayer m o attributes conditions order).apply false table.columns table.rows

theorem OverTable.answer?_withoutLimit (onTable : b.OverTable db table) (m : Attribute)
    (o : AggregateOptions) (conditions : List Predicate) (attributes : List Attribute)
    (order : List RowOrder) :
    db.answer? (b.compiler.drilled m o.withoutLimit conditions attributes order) =
      some (b.rowsFound table m o conditions attributes order) :=
  Database.answer?_scan onTable.known _

/-- With a limit the store sorts these rows and keeps the first ones. -/
theorem OverTable.answer?_limited (onTable : b.OverTable db table) (m : Attribute)
    {o : AggregateOptions} (limited : o.hasLimit = true) {count : Nat}
    (rank : o.limitRank = some (count : Int)) (conditions : List Predicate)
    (attributes : List Attribute) (order : List RowOrder) :
    db.answer? (b.compiler.drilled m o conditions attributes order) =
      some (((b.rowsFound table m o conditions attributes order).mergeSort fun row other =>
        !Row.comesBefore o.limitDirection (fieldOf m.name o.rankedBy) other row).take count) := by
  rw [drilled, limited, if_pos rfl]
  exact Database.answer?_ranked onTable.known
    (any_isAggregate_groupedLayer b.compiler m o attributes conditions order) rfl rfl rfl rfl rank rfl

/-- Where an operator makes numbers of a measure: sums, counts and means are numbers, and extreme values
are when the measure has no texts that denote numbers. -/
def MakesNumbers (b : Browser σ) (table : Table) (m : Attribute) (operator : String) : Prop :=
  operator ∈ ["sum", "count", "average"] ∨
    ∀ fact ∈ table.rows, (fact.cell (b.compiler.column m)).numbered = fact.cell (b.compiler.column m)

/-- Where rows are ranked by numbers: the operator of the ranking makes numbers of the measure. -/
def RanksNumbers (b : Browser σ) (table : Table) (m : Attribute) (o : AggregateOptions) : Prop :=
  b.MakesNumbers table m o.rankedBy

/-- None of these operators chooses an extreme value. -/
theorem not_extreme_of_mem {operator : String} {function : Aggregator}
    (known : aggregate? operator = some function) (among : operator ∈ ["sum", "count", "average"]) :
    ¬(function = .min ∨ function = .max) := by
  simp only [List.mem_cons, List.not_mem_nil, or_false] at among
  rcases among with rfl | rfl | rfl <;>
    · rw [← Option.some.inj known]
      decide

section Found

variable {m : Attribute} {o : AggregateOptions} {conditions : List Predicate}
  {attributes : List Attribute} {order : List RowOrder} {row : Row}

/-- A row that is found has the aggregate of every operator, and where the operator makes numbers it is
one already. -/
theorem exists_aggregate_rowsFound (accepted : o.IsAccepted)
    (distinct : (b.compiler.drilled m o conditions attributes order).aliases.Nodup)
    (member : row ∈ b.rowsFound table m o conditions attributes order) {operator : String}
    (chosen : operator ∈ o.operators) :
    ∃ value, Record.get? row (fieldOf m.name operator) = some value ∧
      (b.MakesNumbers table m operator → value.numbered = value) := by
  obtain ⟨function, known⟩ := accepted.exists_aggregate? chosen
  obtain ⟨kept, part, made⟩ := Layer.apply_eq_map
    (b.compiler.groupedLayer m o attributes conditions order) false table.columns table.rows
  rw [rowsFound, made] at member
  obtain ⟨group, among, rfl⟩ := List.mem_map.mp member
  rw [aliases_drilled, ← map_name_groupedLayer] at distinct
  refine ⟨_, get?_project_aggregate distinct (fun p selected => List.mem_append_left _ selected) group
    chosen known, fun numbers => Aggregator.numbered_ofValues fun extreme value inside => ?_⟩
  rcases numbers with sums | numeric
  · exact absurd extreme (not_extreme_of_mem known sums)
  · obtain ⟨fact, factMember, rfl⟩ := List.mem_map.mp inside
    exact numeric fact (List.mem_of_mem_filter
      ((shares_groupedLayer b.compiler m o attributes conditions order _).mem_of_mem
        (part.subset among) factMember))

/-- The number of records is a number. -/
theorem exists_count_rowsFound
    (distinct : (b.compiler.drilled m o conditions attributes order).aliases.Nodup)
    (member : row ∈ b.rowsFound table m o conditions attributes order) :
    ∃ count : Int, Record.get? row recordCount = some (.int count) := by
  obtain ⟨kept, -, made⟩ := Layer.apply_eq_map
    (b.compiler.groupedLayer m o attributes conditions order) false table.columns table.rows
  rw [rowsFound, made] at member
  obtain ⟨group, -, rfl⟩ := List.mem_map.mp member
  rw [aliases_drilled, ← map_name_groupedLayer] at distinct
  exact ⟨_, get?_project_recordCount distinct (fun p selected => List.mem_append_left _ selected) group⟩

/-- Finishing a row does not touch a field that is a number already, or that is not aggregated, unless
a computed field takes its place. -/
theorem cell_finishRow_of_makesNumbers (accepted : o.IsAccepted)
    (distinct : (b.compiler.drilled m o conditions attributes order).aliases.Nodup) {field : String}
    (numbers : ∀ operator ∈ o.operators, field = fieldOf m.name operator →
      b.MakesNumbers table m operator)
    {computed : List ComputedField} (apart : field ∉ computed.map (·.name)) {finished : Row}
    (member : row ∈ b.rowsFound table m o conditions attributes order)
    (done : finishRow m.name o computed row = .ok finished) :
    finished.cell field = row.cell field := by
  rw [Row.cell, Row.cell, ComputedField.get?_extend done apart, get?_numberFields]
  by_cases aggregated : field ∈ aggregatedFields m.name o.operators
  · have number : ∃ value, Record.get? row field = some value ∧ value.numbered = value := by
      rcases List.mem_append.mp aggregated with measured | counted
      · obtain ⟨operator, chosen, rfl⟩ := List.mem_map.mp measured
        obtain ⟨value, found, same⟩ := exists_aggregate_rowsFound accepted distinct member chosen
        exact ⟨value, found, same (numbers operator chosen rfl)⟩
      · obtain ⟨count, found⟩ := exists_count_rowsFound distinct member
        rw [List.mem_singleton.mp counted]
        exact ⟨_, found, rfl⟩
    obtain ⟨value, found, same⟩ := number
    rw [found, Option.map_some, same, ite_self]
  · have kept : (aggregatedFields m.name o.operators).contains field = false := by
      simpa using aggregated
    rw [kept]
    cases Record.get? row field <;> rfl

/-- Where rows are ranked by numbers, finishing a row does not touch what it is ranked by. -/
theorem cell_finishRow_of_ranksNumbers (accepted : o.IsAccepted)
    (distinct : (b.compiler.drilled m o conditions attributes order).aliases.Nodup)
    (numbers : b.RanksNumbers table m o) {computed : List ComputedField}
    (apart : fieldOf m.name o.rankedBy ∉ computed.map (·.name)) {finished : Row}
    (member : row ∈ b.rowsFound table m o conditions attributes order)
    (done : finishRow m.name o computed row = .ok finished) :
    finished.cell (fieldOf m.name o.rankedBy) = row.cell (fieldOf m.name o.rankedBy) := by
  refine cell_finishRow_of_makesNumbers accepted distinct (fun operator _ same => ?_) apart member done
  rw [← (String.append_right_inj _).mp same]
  exact numbers

end Found

/-! ### Calls without their limit -/

/-- The same call without the limit of its options. -/
def callWithoutLimit (call : AggregateCall) (o : AggregateOptions) : AggregateCall :=
  { call with options := .object (.aggregateOptions o.withoutLimit), overrides := [] }

/-- Without its limit a drill-down is about the same conditions, attributes and order. -/
theorem Drilling.withoutLimit {slice : Slice} {call : AggregateCall} {o : AggregateOptions}
    {m : Attribute} {conditions : List Predicate} {attributes : List Attribute}
    {order : List RowOrder}
    (drilling : b.Drilling slice call o m (b.compiler.drilled m o conditions attributes order))
    (drills : b.compiler.Drills slice.cuts m o conditions attributes order) :
    b.Drilling slice (callWithoutLimit call o) o.withoutLimit m
      (b.compiler.drilled m o.withoutLimit conditions attributes order) := by
  refine ⟨rfl, fun given same => ?_, drilling.measured, drilling.hashable, ?_, ?_⟩
  · cases same
    exact (AggregateOptions.isAccepted_of_accept drilling.lawful drilling.accepted).withoutLimit
  · exact drill_ok.2 ⟨(drill_ok.1 drilling.compiled).1, m, conditions, attributes, order,
      Cube.measure_of_name drilling.measured, ⟨drills.compiled, drills.grouped, drills.ordered⟩, rfl⟩
  · have names := drilling.distinct
    rw [aliases_drilled] at names ⊢
    exact names

/-- With its limit and without it a drill-down has the same summary, and rows that are made of what the
store finds. -/
theorem Drilling.perform_both (onTable : b.OverTable db table) {slice : Slice} {call : AggregateCall}
    {o : AggregateOptions} {m : Attribute} {query plain : Query}
    (kept : b.KeepsTrue db.IsAnswer slice) (drilling : b.Drilling slice call o m query)
    (unlimited : b.Drilling slice (callWithoutLimit call o) o.withoutLimit m plain)
    {facts stored top : List Row} (restricted : b.factsIn table slice.cuts = .ok facts)
    (answered : db.answer? plain = some stored) (ranked : db.answer? query = some top) (state : σ)
    (log : List LogLine) :
    ∃ summary after last, ∀ computed, call.computed = .ok computed →
      perform (b.call (callWithoutLimit call o)) ⟨slice, state, log⟩ =
        (withRows (b.bareResult m.name o.withoutLimit summary slice.cuts) computed stored, after) ∧
      perform (b.call call) ⟨slice, state, log⟩ =
        (withRows (b.bareResult m.name o summary slice.cuts) computed top, last) := by
  obtain ⟨summary, after, ⟨middle, summed⟩, -, performed⟩ :=
    unlimited.perform_answer onTable kept restricted answered state log
  obtain ⟨same, last, ⟨other, again⟩, -, performedLimited⟩ :=
    drilling.perform_answer onTable kept restricted ranked state log
  -- The summary depends on the operators only, so it is the same in both calls.
  obtain rfl : summary = same := Except.ok.inj (Prod.mk.inj (summed.symm.trans again)).1
  exact ⟨summary, after, last, fun computed given =>
    ⟨performed computed given, performedLimited computed given⟩⟩

/-- The rows of a limit are the first of the rows that are there without it. The store ranks them by
what it has computed, before the rows are finished. -/
theorem limited_rows_isTop (onTable : b.OverTable db table) {slice : Slice}
    (reached : b.Reaches slice) {call : AggregateCall} {o : AggregateOptions} {m : Attribute}
    {query : Query} (drilling : b.Drilling slice call o m query) (limited : o.hasLimit = true)
    {computed : List ComputedField} (given : call.computed = .ok computed) (state : σ)
    (log : List LogLine) :
    ∃ count direction, o.AsksFor count direction ∧
      (ComputedField.AlwaysComputed computed → ∃ u after,
        perform (b.call (callWithoutLimit call o)) ⟨slice, state, log⟩ = (.ok u, after)) ∧
      ∀ u after, perform (b.call (callWithoutLimit call o)) ⟨slice, state, log⟩ = (.ok u, after) →
        ∃ stored top finish last,
          (∃ plain, b.compiler.drill slice.cuts (.ofOption m.name) o.withoutLimit = .ok (some plain) ∧
            db.answer? plain = some stored) ∧
          (∀ row ∈ stored, finishRow m.name o computed row = .ok (finish row)) ∧
          u.rows = stored.map finish ∧
          IsTop (Row.comesBefore direction (fieldOf m.name o.rankedBy)) count top stored ∧
          perform (b.call call) ⟨slice, state, log⟩ =
            ((remainderOf u.summary (top.map finish) m.name o.operators).map fun remainder =>
              { u with options := o, rows := top.map finish, remainder }, last) ∧
          (b.RanksNumbers table m o → fieldOf m.name o.rankedBy ∉ computed.map (·.name) →
            IsTop (Row.comesBefore direction (fieldOf m.name o.rankedBy)) count (top.map finish)
              u.rows) := by
  obtain ⟨conditions, attributes, order, drills, rfl⟩ := drilling.exists_drills
  have accepted := AggregateOptions.isAccepted_of_accept drilling.lawful drilling.accepted
  have restricted : b.factsIn table slice.cuts =
      .ok (selectRows table.columns conditions table.rows) := factsIn_of_predicates drills.compiled
  have kept := onTable.storeAnswers.keepsTrue_of_reaches reached
  obtain ⟨count, asks, rank⟩ := accepted.exists_asksFor limited
  have unlimited := drilling.withoutLimit drills
  have answered := onTable.answer?_withoutLimit m o conditions attributes order
  have ranked := onTable.answer?_limited m limited rank conditions attributes order
  have isTop := Row.isTop_take_mergeSort o.limitDirection (fieldOf m.name o.rankedBy) count
    (b.rowsFound table m o conditions attributes order)
  obtain ⟨summary, after, last, both⟩ :=
    drilling.perform_both onTable kept unlimited restricted answered ranked state log
  obtain ⟨performed, performedLimited⟩ := both computed given
  rw [performed, withRows_unlimited _ rfl]
  refine ⟨count, o.limitDirection, asks, fun always => ?_, fun u after came => ?_⟩
  · obtain ⟨rows, finished, -⟩ := ComputedField.exists_extendAll always _
    exact ⟨_, after, Prod.ext (Result.map_ok.2 ⟨rows, finished, rfl⟩) rfl⟩
  · obtain ⟨rows, finished, rfl⟩ := Result.map_ok.1 (Prod.mk.inj came).1
    obtain ⟨finish, each, rfl⟩ := exists_each_of_allOf ((finishRows_eq _ _ _ _).symm.trans finished)
    have finishedTop := (finishRows_eq m.name o computed _).trans
      (allOf_of_each fun row member => each row (isTop.subset member))
    refine ⟨_, _, finish, last, ⟨_, unlimited.compiled, answered⟩, each, rfl, isTop, ?_, ?_⟩
    · rw [performedLimited,
        withRows_limited (b.bareResult m.name o summary slice.cuts) limited finishedTop]
      rfl
    · intro numbers apart
      refine isTop.map fun first firstMember second secondMember => ?_
      unfold Row.comesBefore
      rw [cell_finishRow_of_ranksNumbers accepted drilling.distinct numbers apart firstMember
          (each first firstMember),
        cell_finishRow_of_ranksNumbers accepted drilling.distinct numbers apart secondMember
          (each second secondMember)]

end Browser

/-! ### Amounts that are ranked -/

namespace Market

/-- The options of the city where most was sold, as they are accepted. -/
def bestCityOptions : AggregateOptions :=
  { AggregateOptions.unset with
    rowDimension := some "place", rowLevels := some ["country", "city"]
    limit := some "rank", limitValue := some 1, limitSort := some "top"
    given := ["row_dimension", "row_levels", "limit", "limit_value", "limit_sort"] }

/-- Amounts that were noted as texts, one in each of two countries. -/
def notedTable : Table :=
  { name := "sales"
    columns := [("place.country", .text), ("place.city", .text), ("amount", .text)]
    rows := [
      [("place.country", .text "AT"), ("place.city", .text "Linz"), ("amount", .text "10")],
      [("place.country", .text "DE"), ("place.city", .text "Ulm"), ("amount", .text "9")]] }

def notedBrowser : Browser Unit := ⟨sales, some (Database.evaluator [notedTable]), .unset⟩

theorem notedBrowser_overTable : notedBrowser.OverTable [notedTable] notedTable :=
  ⟨⟨_, rfl, Database.evaluates_evaluator _⟩, rfl⟩

/-- The least amounts of two countries, the least one first. -/
def leastAmounts : AggregateCall :=
  sum [("row_dimension", .text "place"), ("row_levels", .text "country"),
    ("aggregations", .text "min"), ("limit", .text "rank"), ("limit_value", .int 2),
    ("limit_aggregation", .text "min")]

def leastAmountsOptions : AggregateOptions :=
  { AggregateOptions.unset with
    rowDimension := some "place", rowLevels := some ["country"], aggregations := some ["min"]
    limit := some "rank", limitValue := some 2, limitAggregation := some "min"
    given := ["row_dimension", "row_levels", "aggregations", "limit", "limit_value",
      "limit_aggregation"] }

/-- The row of a country with one amount. -/
def leastRow (country : String) (amount : Value) : Row :=
  [("amount_min", amount), (recordCount, .int 1), ("place.country", .text country)]

end Market

namespace Browser

open Olap.Action Compiler Market

/-- The city where most was sold comes first of all by the sum. -/
theorem limited_rows_isTop_bestCity :
    ∃ u after top last,
      perform (salesBrowser.call (callWithoutLimit bestCity bestCityOptions)) ⟨inAustria, (), []⟩ =
        (.ok u, after) ∧
      perform (salesBrowser.call bestCity) ⟨inAustria, (), []⟩ =
        ((remainderOf u.summary top (some "amount") ["sum"]).map fun remainder =>
          { u with options := bestCityOptions, rows := top, remainder }, last) ∧
      IsTop (Row.comesBefore .desc "amount_sum") 1 top u.rows := by
  have drilling := (⟨rfl, fun _ same => (by cases same), rfl, rfl, rfl, by decide⟩ :
    salesBrowser.Drilling inAustria bestCity bestCityOptions (.ofName .measure (some "amount")) _)
  have always : ComputedField.AlwaysComputed [] := by
    intro field member
    cases member
  obtain ⟨count, direction, asks, returned, rows⟩ := limited_rows_isTop salesBrowser_overTable
    reaches_inAustria drilling rfl rfl () []
  obtain ⟨u, after, done⟩ := returned always
  obtain ⟨stored, top, finish, last, -, -, -, -, ranked, isTop⟩ := rows u after done
  obtain ⟨-, counted, rfl⟩ | ⟨tenth, -⟩ := asks
  · obtain rfl : 1 = count := by
      cases counted
      rfl
    exact ⟨u, after, _, last, done, ranked, isTop (Or.inl (by decide)) (by simp)⟩
  · exact absurd tenth (by decide)

/-! ### Texts that denote numbers -/

/-- With amounts that were noted as texts, the store finds a row for each country, in the order of the
countries and of the texts. -/
theorem rowsFound_noted {column : String} (known : column ∈ ["place.country", "amount_min"]) :
    notedBrowser.rowsFound notedTable (.ofName .measure (some "amount")) leastAmountsOptions []
        (level "country").attributes [⟨column, .asc⟩] =
      [leastRow "AT" (.text "10"), leastRow "DE" (.text "9")] := by
  have groups : (notedBrowser.compiler.groupedLayer (.ofName .measure (some "amount"))
      leastAmountsOptions (level "country").attributes [] [⟨column, .asc⟩]).groups
        notedTable.rows = notedTable.rows.map ([·]) := by
    rw [Layer.groups_eq_groupRows (List.cons_ne_nil _ _), groupRows, List.mergeSort_of_pairwise]
    · rfl
    · show List.Pairwise (fun key other => (!Cell.lessKey [.asc] other key) = true)
        (distinctKeys (notedTable.rows.map (Row.key ["place.country"])))
      decide +kernel
  unfold rowsFound Layer.apply
  dsimp only
  rw [show selectRows notedTable.columns _ notedTable.rows = notedTable.rows from rfl, groups,
    List.mergeSort_of_pairwise]
  · rfl
  · simp only [List.mem_cons, List.not_mem_nil, or_false] at known
    rcases known with rfl | rfl
    · decide +kernel
    · decide +kernel

/-- The texts of these rows are made numbers. -/
theorem finishRows_noted {o : AggregateOptions} (least : o.operators = ["min"]) :
    finishRows (some "amount") o []
        [leastRow "AT" (.text "10"), leastRow "DE" (.text "9")] =
      .ok [leastRow "AT" (.float 10), leastRow "DE" (.float 9)] := by
  have ten : Datum.numbered (.text "10") = .float 10 := by
    rw [Datum.numbered, show Decimal.read? "10" = some 10 by decide +kernel]
    rfl
  have nine : Datum.numbered (.text "9") = .float 9 := by
    rw [Datum.numbered, show Decimal.read? "9" = some 9 by decide +kernel]
    rfl
  rw [finishRows, ComputedField.extendAll_nil, least, ← ten, ← nine]
  rfl

/-- The least amounts of all countries are ranked as the texts that they were noted as, so the rows
have their numbers the other way round. -/
theorem exists_limited_rows_unsorted :
    notedBrowser.OverTable [notedTable] notedTable ∧
      (∃ query, notedBrowser.Drilling (Slice.full sales) leastAmounts leastAmountsOptions
        (.ofName .measure (some "amount")) query) ∧
      leastAmountsOptions.AsksFor 2 .asc ∧
      ∃ a after, perform (notedBrowser.call leastAmounts) ⟨Slice.full sales, (), []⟩ =
          (.ok a, after) ∧
        a.rows = [leastRow "AT" (.float 10), leastRow "DE" (.float 9)] ∧
        ¬a.rows.Pairwise fun first later => Row.comesBefore .asc "amount_min" later first = false := by
  have answered : Database.answer? [notedTable] (notedBrowser.compiler.drilled
      (.ofName .measure (some "amount")) leastAmountsOptions [] (level "country").attributes
        [⟨"place.country", .asc⟩]) =
      some [leastRow "AT" (.text "10"), leastRow "DE" (.text "9")] := by
    refine (notedBrowser_overTable.answer?_limited (.ofName .measure (some "amount"))
      (o := leastAmountsOptions) rfl (show _ = some ((2 : Nat) : Int) from rfl) []
      (level "country").attributes [⟨"place.country", .asc⟩]).trans ?_
    rw [rowsFound_noted List.mem_cons_self, List.mergeSort_of_pairwise]
    · rfl
    · decide +kernel
  have drilling := (⟨rfl, fun _ same => (by cases same), rfl, rfl, rfl, by decide⟩ :
    notedBrowser.Drilling (Slice.full sales) leastAmounts leastAmountsOptions
      (.ofName .measure (some "amount")) (notedBrowser.compiler.drilled
      (.ofName .measure (some "amount")) leastAmountsOptions [] (level "country").attributes
        [⟨"place.country", .asc⟩]))
  have restricted : notedBrowser.factsIn notedTable (Slice.full sales).cuts = .ok notedTable.rows :=
    rfl
  obtain ⟨summary, after, -, tells, performed⟩ := drilling.perform_answer notedBrowser_overTable
    (keepsTrue_of_nil _ _ rfl) restricted answered () []
  have left : remainderOf summary [leastRow "AT" (.float 10), leastRow "DE" (.float 9)]
      (some "amount") ["min"] = .ok [(recordCount, .int 0)] := by
    have two : Record.get? summary recordCount = some (wholeValue (some 2)) := tells.records
    have each : HasWholes [leastRow "AT" (.float 10), leastRow "DE" (.float 9)] recordCount
        [some 1, some 1] := rfl
    rw [remainderOf, leftOut_wholes two each]
    rfl
  refine ⟨notedBrowser_overTable, ⟨_, drilling⟩, Or.inl ⟨rfl, rfl, rfl⟩,
    { notedBrowser.bareResult (some "amount") leastAmountsOptions summary [] with
      rows := [leastRow "AT" (.float 10), leastRow "DE" (.float 9)]
      remainder := [(recordCount, .int 0)] }, after, ?_, rfl, ?_⟩
  · have ranked := withRows_limited
      (notedBrowser.bareResult (some "amount") leastAmountsOptions summary []) rfl
      (finishRows_noted rfl)
    exact (performed [] rfl).trans (Prod.ext (ranked.trans (Result.map_ok.2 ⟨_, left, rfl⟩)) rfl)
  · rw [List.pairwise_pair]
    decide +kernel

end Browser

end Olap
