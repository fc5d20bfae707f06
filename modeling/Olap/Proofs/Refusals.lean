/-
What is reported of options that are refused. Options that are not valid are reported as problems of the
library, so that whoever asks can be told what is wrong. Faults of single options are collected and become
one problem; what ends a check instead has to be a problem already. Most checks end with nothing else. The
levels and the operators, however, are gone through before it is known that they can be, and the operators
are looked up before it is known that they are texts, which fails outside the library.
-/

import Mathlib
import Olap.Proofs.Overrides

namespace Olap

/-! ### What ends a check -/

namespace Check

variable {α β γ : Type}

/-- The failure that ends a check, whatever faults were collected before. -/
def stopped? (check : Check β) : Option Fault :=
  match check.outcome with
  | .error fault => some fault
  | .ok _ => none

theorem stopped?_map (f : β → γ) (check : Check β) : (f <$> check).stopped? = check.stopped? := by
  show (Check.map f check).stopped? = _
  rcases check with ⟨fault | outcome⟩ <;> rfl

/-- Checks that are made together are ended by the first that ends. -/
theorem stopped?_seq (first : Check (β → γ)) (second : Check β) :
    (first <*> second).stopped? = first.stopped?.or second.stopped? := by
  show (Check.both first fun _ => second).stopped? = _
  rcases first with ⟨fault | details | f⟩ <;> rcases second with ⟨other | more | b⟩ <;> rfl

theorem stopped?_under (step : Step) (check : Check β) : (check.under step).stopped? = check.stopped? := by
  rcases check with ⟨fault | outcome⟩ <;> rfl

theorem stopped?_eachFrom (f : α → Check β) (start : Nat) (items : List α) :
    (eachFrom f start items).stopped? = items.findSome? fun item => (f item).stopped? := by
  induction items generalizing start with
  | nil => rfl
  | cons item rest inductionHypothesis =>
    rw [eachFrom, stopped?_seq, stopped?_map, stopped?_under, inductionHypothesis, List.findSome?_cons]
    cases (f item).stopped? <;> rfl

theorem stopped?_each (f : α → Check β) (items : List α) :
    (each f items).stopped? = items.findSome? fun item => (f item).stopped? :=
  stopped?_eachFrom f 0 items

/-- A check that is not ended accepts something or has collected faults. -/
theorem result_of_stopped?_eq_none {check : Check β} (unstopped : check.stopped? = none) :
    (∃ b, check.result = .ok b) ∨ ∃ details, check.result = .error (.invalid details) := by
  rcases check with ⟨fault | details | b⟩
  · cases unstopped
  · exact Or.inr ⟨details, rfl⟩
  · exact Or.inl ⟨b, rfl⟩

theorem result_of_stopped?_eq_some {check : Check β} {fault : Fault}
    (stopped : check.stopped? = some fault) : check.result = .error fault := by
  rcases check with ⟨other | details | b⟩
  · exact congrArg Except.error (Option.some.inj stopped)
  · cases stopped
  · cases stopped

end Check

/-- The check of a field is ended by what ends the check of its value. -/
theorem stopped?_checkField {α β : Type} (fields : Fields α) (spellings : List String) (default : β)
    (check : Datum α → Check β) :
    (checkField fields spellings default check).stopped? =
      (givenIn spellings fields).bind fun d => (check d).stopped? := by
  unfold checkField givenIn
  cases usedKey? spellings fields with
  | none => rfl
  | some key =>
    rw [Option.bind_some]
    cases found : Record.get? fields key with
    | none =>
      dsimp only
      rw [found]
      rfl
    | some d =>
      dsimp only
      rw [found]
      exact Check.stopped?_under _ _

theorem stopped?_refuseExtra {β : Type} (known : List (List String)) (fields : List (String × β)) :
    (refuseExtra known fields).stopped? = none := by
  unfold refuseExtra
  cases leftOver known fields <;> rfl

/-! ### Coercions end no check -/

namespace Coerce

variable {α : Type}

theorem stopped?_text (d : Datum α) : (text d).stopped? = none := by
  unfold text
  cases d.text? <;> rfl

theorem stopped?_integerFloat (x : Float) : (integerFloat x).stopped? = none := by
  unfold integerFloat
  split
  · rfl
  · dsimp only
    split
    · rfl
    · split <;> rfl

theorem stopped?_int (d : Datum α) : (int d).stopped? = none := by
  unfold int
  split
  · rfl
  · rfl
  · exact stopped?_integerFloat _
  · split
    · rfl
    · split
      · rfl
      · split <;> rfl

theorem stopped?_optional {β : Type} {check : Datum α → Check β}
    (unstopped : ∀ d, (check d).stopped? = none) (d : Datum α) : (optional check d).stopped? = none := by
  unfold optional
  split
  · rfl
  · exact (Check.stopped?_map _ _).trans (unstopped _)

end Coerce

/-! ### Faults that are reported -/

/-- The kinds of problems that bad options are reported as. -/
def refusalKinds : List ErrorKind := [.argument, .query, .unknownOperator, .unsupported]

theorem argument_refused : ErrorKind.argument ∈ refusalKinds := by decide

theorem query_refused : ErrorKind.query ∈ refusalKinds := by decide

theorem unknownOperator_refused : ErrorKind.unknownOperator ∈ refusalKinds := by decide

theorem unsupported_refused : ErrorKind.unsupported ∈ refusalKinds := by decide

/-- A fault that is reported as a problem with options, or becomes a part of one. -/
def Fault.IsRefusal : Fault → Prop
  | .problem p => p.kind ∈ refusalKinds
  | .invalid _ => True
  | .outside _ => False

/-- Something that is accepted, or refused with a problem that is reported. -/
def IsReported {β : Type} (result : Result β) : Prop :=
  (∃ b, result = .ok b) ∨ ∃ p, result = fail p ∧ p.kind ∈ refusalKinds

theorem isReported_ok {β : Type} (b : β) : IsReported (.ok b : Result β) := Or.inl ⟨b, rfl⟩

theorem isReported_fail {β : Type} {p : Problem} (known : p.kind ∈ refusalKinds) :
    IsReported (fail p : Result β) := Or.inr ⟨p, rfl, known⟩

theorem isReported_map {β γ : Type} {f : β → γ} {result : Result β} :
    IsReported (result.map f) ↔ IsReported result := by
  cases result with
  | ok b => exact ⟨fun _ => isReported_ok b, fun _ => isReported_ok (f b)⟩
  | error fault =>
    refine or_congr ?_ (exists_congr fun p => and_congr_left fun _ => ?_)
    · simp [Except.map]
    · exact ⟨fun same => by cases same; rfl, fun same => by cases same; rfl⟩

/-- Collected faults are reported as one problem, and other faults as they are. -/
theorem isReported_reportInvalid {β : Type} {result : Result β} :
    IsReported (Options.reportInvalid result) ↔ ∀ fault, result = .error fault → fault.IsRefusal := by
  cases result with
  | ok b => exact iff_of_true (isReported_ok b) nofun
  | error fault =>
    constructor
    · rintro reported _ ⟨⟩
      cases fault with
      | problem p =>
        rcases reported with ⟨b, made⟩ | ⟨other, same, known⟩
        · cases made
        · cases same
          exact known
      | invalid details => exact True.intro
      | outside failure =>
        rcases reported with ⟨b, made⟩ | ⟨other, same, -⟩
        · cases made
        · cases same
    · intro refusal
      cases fault with
      | problem p => exact isReported_fail (refusal _ rfl)
      | invalid details => exact isReported_fail (p := .optionsInvalid details) argument_refused
      | outside failure => exact (refusal _ rfl).elim

/-- A check that is ended only by what is reported. -/
def Check.StopsByRefusal {β : Type} (check : Check β) : Prop :=
  ∀ fault, check.stopped? = some fault → fault.IsRefusal

/-- A check that is ended by nothing is ended by nothing else. -/
theorem Check.StopsByRefusal.of_eq_none {β : Type} {check : Check β} (unstopped : check.stopped? = none) :
    check.StopsByRefusal := by
  intro fault stopped
  cases unstopped.symm.trans stopped

theorem forall_or_eq_some {β : Type} {first second : Option β} {property : β → Prop} :
    (∀ b, first.or second = some b → property b) ↔
      (∀ b, first = some b → property b) ∧ (first = none → ∀ b, second = some b → property b) := by
  cases first <;> simp

/-- When what follows a check fails only by what is reported, it depends on what ends the check whether
all of it does. -/
theorem isRefusal_of_checked {β γ : Type} {check : Check β} {next : β → Result γ}
    (refusal : ∀ b fault, next b = .error fault → fault.IsRefusal) :
    (∀ fault, (check.result >>= next) = .error fault → fault.IsRefusal) ↔ check.StopsByRefusal := by
  simp only [Result.bind_error]
  constructor
  · exact fun all fault stopped => all fault (Or.inl (Check.result_of_stopped?_eq_some stopped))
  · rintro stops fault (failed | ⟨b, -, later⟩)
    · cases stopped : check.stopped? with
      | some other =>
        cases (Check.result_of_stopped?_eq_some stopped).symm.trans failed
        exact stops _ stopped
      | none =>
        rcases Check.result_of_stopped?_eq_none stopped with ⟨b, accepted⟩ | ⟨details, refused⟩
        · cases accepted.symm.trans failed
        · cases refused.symm.trans failed
          exact True.intro
    · exact refusal b fault later

/-! ### Checks of options -/

namespace Options

/-- A direction is looked up, and what is looked up in vain is reported. -/
theorem checkDirection_stopsByRefusal (what : String) (d : Description) :
    (checkDirection what d).StopsByRefusal := by
  unfold checkDirection
  cases parsed : parseDirection what (directionWords what) d with
  | ok direction => exact .of_eq_none (Coerce.stopped?_optional Coerce.stopped?_text d)
  | error fault =>
    rintro _ ⟨⟩
    unfold parseDirection at parsed
    split at parsed
    · cases parsed
    · cases parsed
    · split at parsed
      · cases parsed
      · cases parsed
        exact query_refused

theorem stopped?_checkDirection_eq_none {what : String} {d : Description} :
    (checkDirection what d).stopped? = none ↔
      ∃ direction, parseDirection what (directionWords what) d = .ok direction := by
  unfold checkDirection
  cases parseDirection what (directionWords what) d with
  | ok direction =>
    exact ⟨fun _ => ⟨direction, rfl⟩, fun _ => Coerce.stopped?_optional Coerce.stopped?_text d⟩
  | error fault => exact iff_of_false nofun nofun

theorem checkLimit_stopsByRefusal (d : Description) : (checkLimit d).StopsByRefusal := by
  unfold checkLimit
  split
  · exact .of_eq_none rfl
  · dsimp only
    split
    · rintro _ ⟨⟩
      exact unsupported_refused
    · split
      · exact .of_eq_none rfl
      · rintro _ ⟨⟩
        exact query_refused

theorem stopped?_checkDimension (d : Description) : (checkDimension d).stopped? = none :=
  Coerce.stopped?_optional Coerce.stopped?_text _

theorem stopped?_checkLevelName (item : Item Part) : (checkLevelName item).stopped? = none := by
  cases item with
  | datum d => exact Coerce.stopped?_text _
  | pair => rfl

/-- Several names are given by what can be gone through; without any there is nothing to go through. -/
def IsListed (d : Description) : Prop := d = .null ∨ d.items?.isSome = true

theorem isSome_items?_of_text {d : Description} (text : d.text?.isSome = true) :
    d.items?.isSome = true := by
  cases d <;> first | rfl | cases text

theorem isSome_items?_of_level {d : Description} (level : d.level?.isSome = true) :
    d.items?.isSome = true := by
  cases d <;> first | rfl | cases level

/-- Levels are checked one by one, whatever they are, but of what can not be gone through there are none to
check. -/
theorem stopped?_checkLevels_cases (d : Description) :
    IsListed d ∧ (checkLevels d).stopped? = none ∨
      ¬IsListed d ∧ (checkLevels d).stopped? = some (.outside .wrongType) := by
  have each : ∀ items, (some <$> Check.each checkLevelName items).stopped? = none := by
    intro items
    rw [Check.stopped?_map, Check.stopped?_each, List.findSome?_eq_none_iff]
    exact fun item _ => stopped?_checkLevelName item
  unfold checkLevels
  split
  · exact Or.inl ⟨Or.inl rfl, rfl⟩
  · rename_i some
    split
    · rename_i single
      refine Or.inl ⟨Or.inr ?_, each _⟩
      exact (Bool.or_eq_true_iff.mp single).elim isSome_items?_of_text isSome_items?_of_level
    · unfold Datum.items IsListed
      cases d.items? with
      | some items => exact Or.inl ⟨Or.inr rfl, each items⟩
      | none => exact Or.inr ⟨by rintro (null | ⟨⟨⟩⟩); exact some null, rfl⟩

/-- An item that is the name of an operator. -/
def IsOperator (item : Item Part) : Prop :=
  ∃ name, Description.itemKey item = .ok (some name) ∧ Record.contains aggregationOperators name = true

theorem stopped?_checkOperator_eq_none {item : Item Part} :
    (checkOperator item).stopped? = none ↔ IsOperator item := by
  unfold checkOperator IsOperator
  cases Description.itemKey item with
  | error fault => exact iff_of_false nofun nofun
  | ok key =>
    dsimp only
    split
    · rename_i name found
      obtain ⟨rfl, known⟩ := Option.filter_eq_some_iff.mp found
      exact iff_of_true rfl ⟨name, rfl, known⟩
    · rename_i unknown
      refine iff_of_false nofun ?_
      rintro ⟨name, same, known⟩
      cases same
      rw [Option.filter_some, if_pos known] at unknown
      cases unknown

theorem eq_wrongType_of_lookupKey {d : Description} {fault : Fault}
    (failed : Description.lookupKey d = .error fault) : fault = .outside .wrongType := by
  unfold Description.lookupKey at failed
  split at failed <;> cases failed <;> rfl

theorem eq_wrongType_of_itemKey {item : Item Part} {fault : Fault}
    (failed : Description.itemKey item = .error fault) : fault = .outside .wrongType := by
  cases item with
  | datum d => exact eq_wrongType_of_lookupKey failed
  | pair field value =>
    unfold Description.itemKey at failed
    dsimp only at failed
    cases looked : Description.lookupKey value with
    | ok key =>
      rw [looked] at failed
      cases failed
    | error other =>
      rw [looked] at failed
      cases failed
      exact eq_wrongType_of_lookupKey looked

/-- What can not be looked up is no operator either, but that is not what is reported. -/
theorem checkOperator_stopsByRefusal_iff {item : Item Part} :
    (checkOperator item).StopsByRefusal ↔ ∃ key, Description.itemKey item = .ok key := by
  unfold checkOperator
  cases looked : Description.itemKey item with
  | error fault =>
    obtain rfl := eq_wrongType_of_itemKey looked
    exact iff_of_false (fun stops => stops _ rfl) nofun
  | ok key =>
    refine iff_of_true ?_ ⟨key, rfl⟩
    dsimp only
    split
    · exact .of_eq_none rfl
    · rintro _ ⟨⟩
      exact unknownOperator_refused

/-- The names of operators are looked up until one is unknown. -/
def AreLookedUp (items : List (Item Part)) : Prop :=
  ∀ known item later, items = known ++ item :: later → (∀ other ∈ known, IsOperator other) →
    ∃ key, Description.itemKey item = .ok key

theorem eachOperator_stopsByRefusal_iff {items : List (Item Part)} :
    (some <$> Check.each checkOperator items : Check (Option (List String))).StopsByRefusal ↔
      AreLookedUp items := by
  unfold Check.StopsByRefusal AreLookedUp
  rw [Check.stopped?_map, Check.stopped?_each]
  simp only [List.findSome?_eq_some_iff, stopped?_checkOperator_eq_none,
    ← checkOperator_stopsByRefusal_iff]
  constructor
  · rintro refusal known item later rfl operators fault stopped
    exact refusal fault ⟨known, item, later, rfl, stopped, operators⟩
  · rintro lookedUp fault ⟨known, item, later, rfl, stopped, operators⟩
    exact lookedUp known item later rfl operators fault stopped

/-- Operators are given by nothing, by a single text, or by what can be gone through and looked up. -/
def IsLookedUp (d : Description) : Prop :=
  d = .null ∨ d.text?.isSome = true ∨ ∃ items, d.items? = some items ∧ AreLookedUp items

theorem areLookedUp_text {d : Description} (text : d.text?.isSome = true) : AreLookedUp [.datum d] := by
  intro known item later same _
  have member : item ∈ [Item.datum d] := same ▸ List.mem_append_right known List.mem_cons_self
  rw [List.mem_singleton.mp member]
  cases d <;> first | exact ⟨_, rfl⟩ | cases text

/-- Operators are gone through and looked up before it is known that they can be, which is not reported
when they can not. -/
theorem checkOperators_stopsByRefusal_iff {d : Description} :
    (checkOperators d).StopsByRefusal ↔ IsLookedUp d := by
  unfold checkOperators
  split
  · exact iff_of_true (.of_eq_none rfl) (Or.inl rfl)
  · rename_i some
    split
    · rename_i text
      exact iff_of_true (eachOperator_stopsByRefusal_iff.mpr (areLookedUp_text text))
        (Or.inr (Or.inl text))
    · rename_i several
      unfold Datum.items IsLookedUp
      cases d.items? with
      | some items =>
        refine eachOperator_stopsByRefusal_iff.trans ⟨fun lookedUp => ?_, ?_⟩
        · exact Or.inr (Or.inr ⟨items, rfl, lookedUp⟩)
        · rintro (null | text | ⟨_, ⟨⟩, lookedUp⟩)
          · exact absurd null some
          · exact absurd text several
          · exact lookedUp
      | none =>
        -- Going through it ends the check with what is no refusal.
        refine iff_of_false (fun stops => stops _ rfl) ?_
        rintro (null | text | ⟨_, ⟨⟩, _⟩)
        · exact some null
        · exact several text

end Options

/-! ### Options that are accepted or refused -/

namespace Options

theorem stopped?_checkTextField (fields : Fields Part) (key : String) :
    (checkTextField fields key).stopped? = none := by
  unfold checkTextField
  rw [stopped?_checkField, Option.bind_eq_none_iff]
  exact fun d _ => Coerce.stopped?_optional Coerce.stopped?_text d

theorem stopped?_checkIntField (fields : Fields Part) (key : String) :
    (checkIntField fields key).stopped? = none := by
  unfold checkIntField
  rw [stopped?_checkField, Option.bind_eq_none_iff]
  exact fun d _ => Coerce.stopped?_optional Coerce.stopped?_int d

theorem checkField_stopsByRefusal_iff {β : Type} {fields : Fields Part} {spellings : List String}
    {default : β} {check : Description → Check β} :
    (checkField fields spellings default check).StopsByRefusal ↔
      ∀ d, givenIn spellings fields = some d → (check d).StopsByRefusal := by
  unfold Check.StopsByRefusal
  rw [stopped?_checkField]
  simp only [Option.bind_eq_some_iff, forall_exists_index, and_imp]
  exact ⟨fun all d given fault => all fault d given, fun all fault d given => all d given fault⟩

theorem checkDirectionField_stopsByRefusal (fields : Fields Part) (key what : String) :
    (checkField fields [key] none (checkDirection what)).StopsByRefusal :=
  checkField_stopsByRefusal_iff.mpr fun d _ => checkDirection_stopsByRefusal what d

/-- The direction of the order is known. -/
def IsDirected (fields : Fields Part) : Prop :=
  ∀ d, givenIn ["order_direction"] fields = some d →
    ∃ direction, parseDirection orderDirectionTitle orderWords d = .ok direction

theorem stopped?_checkDirectionField_eq_none {fields : Fields Part} :
    (checkField fields ["order_direction"] none (checkDirection orderDirectionTitle)).stopped? = none ↔
      IsDirected fields := by
  rw [stopped?_checkField, Option.bind_eq_none_iff]
  exact forall₂_congr fun d _ => stopped?_checkDirection_eq_none

/-- The levels can be gone through, and the operators can be gone through and looked up. -/
structure HasReadableNames (fields : Fields Part) : Prop where
  levels : ∀ d, givenIn ["row_levels"] fields = some d → IsListed d
  operators : ∀ d, givenIn ["aggregations", "operators"] fields = some d → IsLookedUp d

end Options

namespace QueryOptions

/-- Only the direction of the order ends the checks of options of a query. -/
theorem stopped?_check (fields : Fields Part) :
    (check fields).stopped? =
      (checkField fields ["order_direction"] none
        (Options.checkDirection orderDirectionTitle)).stopped? := by
  unfold check
  simp only [Check.stopped?_seq, Check.stopped?_map, Options.stopped?_checkTextField,
    Options.stopped?_checkIntField, Option.none_or, Option.or_none]

theorem validate_isRefusal {o : QueryOptions} {fault : Fault} (failed : o.validate = .error fault) :
    fault.IsRefusal := by
  unfold validate at failed
  split at failed
  · cases failed
    exact query_refused
  · split at failed
    · cases failed
      exact query_refused
    · split at failed
      · cases failed
        exact query_refused
      · cases failed

end QueryOptions

namespace AggregateOptions

/-- Options of an aggregation are checked after those of a query, and ended by what ends the first check of
one that ends. -/
theorem stopped?_check (fields : Fields Part) :
    (check fields).stopped? =
      (checkField fields ["order_direction"] none
          (Options.checkDirection orderDirectionTitle)).stopped?.or
        ((checkField fields ["row_levels"] none Options.checkLevels).stopped?.or
          ((checkField fields ["aggregations", "operators"] none Options.checkOperators).stopped?.or
            ((checkField fields ["limit"] none Options.checkLimit).stopped?.or
              (checkField fields ["limit_sort"] none
                (Options.checkDirection limitSortTitle)).stopped?))) := by
  have dimension : (checkField fields ["row_dimension"] none Options.checkDimension).stopped? = none := by
    rw [stopped?_checkField, Option.bind_eq_none_iff]
    exact fun d _ => Options.stopped?_checkDimension d
  unfold check
  simp only [Check.stopped?_seq, Check.stopped?_map, QueryOptions.stopped?_check, dimension,
    Options.stopped?_checkTextField, Options.stopped?_checkIntField, Option.or_none, Option.or_assoc]

theorem validateLimit_isRefusal {o : AggregateOptions} {fault : Fault}
    (failed : validateLimit o = .error fault) : fault.IsRefusal := by
  unfold validateLimit at failed
  split at failed
  · cases failed
    exact query_refused
  · split at failed
    · cases failed
      exact query_refused
    · split at failed
      · cases failed
        exact query_refused
      · split at failed
        · cases failed
          exact query_refused
        · cases failed

theorem validate_isRefusal {o : AggregateOptions} {fault : Fault} (failed : validate o = .error fault) :
    fault.IsRefusal := by
  unfold validate at failed
  split at failed
  · cases failed
    exact query_refused
  · split at failed
    · exact validateLimit_isRefusal failed
    · cases failed

/-- Levels that can not be gone through are not reported, so they are the end of every other report. -/
theorem checkLevelsField_cases (fields : Fields Part) :
    (∀ d, givenIn ["row_levels"] fields = some d → Options.IsListed d) ∧
        (checkField fields ["row_levels"] none Options.checkLevels).stopped? = none ∨
      (¬∀ d, givenIn ["row_levels"] fields = some d → Options.IsListed d) ∧
        (checkField fields ["row_levels"] none Options.checkLevels).stopped? =
          some (.outside .wrongType) := by
  rw [stopped?_checkField]
  cases givenIn ["row_levels"] fields with
  | none => exact Or.inl ⟨nofun, rfl⟩
  | some d =>
    simp only [Option.some.injEq, forall_eq', Option.bind_some]
    exact Options.stopped?_checkLevels_cases d

/-- Behind a known direction, the levels have to be readable, and then the operators. -/
theorem check_stopsByRefusal_iff {fields : Fields Part} :
    (check fields).StopsByRefusal ↔ (Options.IsDirected fields → Options.HasReadableNames fields) := by
  have direction :=
    Options.checkDirectionField_stopsByRefusal fields "order_direction" orderDirectionTitle
  have limit : (checkField fields ["limit"] none Options.checkLimit).StopsByRefusal :=
    Options.checkField_stopsByRefusal_iff.mpr fun d _ => Options.checkLimit_stopsByRefusal d
  have sort := Options.checkDirectionField_stopsByRefusal fields "limit_sort" limitSortTitle
  have operators : (checkField fields ["aggregations", "operators"] none
      Options.checkOperators).StopsByRefusal ↔
        ∀ d, givenIn ["aggregations", "operators"] fields = some d → Options.IsLookedUp d := by
    simp only [Options.checkField_stopsByRefusal_iff, Options.checkOperators_stopsByRefusal_iff]
  rw [← Options.stopped?_checkDirectionField_eq_none]
  unfold Check.StopsByRefusal at direction limit sort operators ⊢
  rw [stopped?_check, forall_or_eq_some, forall_or_eq_some, forall_or_eq_some, forall_or_eq_some]
  -- Levels that are not listed hide whatever the operators are, so they are settled first.
  rcases checkLevelsField_cases fields with ⟨listed, unstopped⟩ | ⟨unlisted, stopped⟩
  · rw [unstopped, operators]
    constructor
    · rintro ⟨-, rest⟩ directed
      exact ⟨listed, ((rest directed).2 rfl).1⟩
    · intro readable
      exact ⟨direction, fun directed => ⟨nofun, fun _ => ⟨(readable directed).operators,
        fun _ => ⟨limit, fun _ => sort⟩⟩⟩⟩
  · rw [stopped]
    constructor
    · rintro ⟨-, rest⟩ directed
      exact ((rest directed).1 _ rfl).elim
    · intro readable
      exact ⟨direction, fun directed => absurd (readable directed).levels unlisted⟩

end AggregateOptions

/-! ### Accepting and refusing -/

/-- Checked fields, of which none may be left over, are as good as the checks of them. -/
theorem stopped?_refusingExtra {β : Type} (check : Check β) (known : List (List String))
    (fields : Fields Part) :
    ((fun b _ => b) <$> check <*> refuseExtra known fields).stopped? = check.stopped? := by
  rw [Check.stopped?_seq, Check.stopped?_map, stopped?_refuseExtra, Option.or_none]

theorem QueryOptions.ofFields_isRefusal {fields : Fields Part} {fault : Fault}
    (failed : ofFields fields = .error fault) : fault.IsRefusal := by
  have direction :=
    Options.checkDirectionField_stopsByRefusal fields "order_direction" orderDirectionTitle
  refine (isRefusal_of_checked fun o fault later => ?_).mpr ?_ fault failed
  · rcases Result.bind_error.1 later with invalid | ⟨_, -, ⟨⟩⟩
    exact validate_isRefusal invalid
  · unfold Check.StopsByRefusal at direction ⊢
    rwa [stopped?_refusingExtra, stopped?_check]

theorem AggregateOptions.ofFields_isRefusal_iff {fields : Fields Part} :
    (∀ fault, ofFields fields = .error fault → fault.IsRefusal) ↔
      (Options.IsDirected fields → Options.HasReadableNames fields) := by
  rw [← check_stopsByRefusal_iff]
  refine (isRefusal_of_checked fun o fault later => ?_).trans ?_
  · rcases Result.bind_error.1 later with invalid | ⟨_, -, rest⟩
    · exact QueryOptions.validate_isRefusal invalid
    · rcases Result.bind_error.1 rest with invalid | ⟨_, -, ⟨⟩⟩
      exact validate_isRefusal invalid
  · unfold Check.StopsByRefusal
    rw [stopped?_refusingExtra]

namespace Options

theorem fieldsOf_error {d : Description} {fault : Fault} (failed : fieldsOf d = .error fault) :
    fault = .problem (.optionsType d.typeText) := by
  unfold fieldsOf at failed
  split at failed <;> cases failed
  rfl

/-- Options are read of a description, and what overrides them is put among them. -/
theorem isReported_acceptFields {β : Type} {make : Fields Part → Result β} {d : Description}
    {overrides : Fields Part} :
    IsReported (acceptFields make d overrides) ↔
      ∀ fields, fieldsOf d = .ok fields →
        ∀ fault, make (Record.update fields overrides) = .error fault → fault.IsRefusal := by
  unfold acceptFields
  cases read : fieldsOf d with
  | error fault =>
    obtain rfl := fieldsOf_error read
    exact iff_of_true (isReported_fail (p := .optionsType d.typeText) argument_refused) nofun
  | ok fields =>
    simp only [Except.ok.injEq, forall_eq']
    exact isReported_reportInvalid

/-- Names of options that were accepted are written so that they can be read. -/
theorem hasReadableNames_givenRecord (o : AggregateOptions) :
    HasReadableNames (Datum.liftFields o.givenRecord) where
  levels d given := by
    rw [givenIn_one, AggregateOptions.get?_givenRecord] at given
    split at given
    · cases given
      cases o.rowLevels with
      | none => exact Or.inl rfl
      | some names => exact Or.inr rfl
    · cases given
  operators d given := by
    have second : Record.get? (Datum.liftFields o.all : Fields Part) "operators" = none := rfl
    rw [givenIn_two, AggregateOptions.get?_givenRecord, AggregateOptions.get?_givenRecord, second,
      ite_self, Option.or_none] at given
    split at given
    · cases given
      cases o.aggregations with
      | none => exact Or.inl rfl
      | some names =>
        refine Or.inr (Or.inr ⟨_, congrArg Datum.items? (Datum.lift_texts names), ?_⟩)
        rintro known item later same -
        have member : item ∈ (names.map Datum.text).map Item.datum :=
          same ▸ List.mem_append_right known List.mem_cons_self
        obtain ⟨_, inside, rfl⟩ := List.mem_map.mp member
        obtain ⟨name, -, rfl⟩ := List.mem_map.mp inside
        exact ⟨some name, rfl⟩
    · cases given

end Options

/-- Options of a query are always accepted, or refused with a problem of the library. -/
theorem QueryOptions.isReported_accept (d : Description) (overrides : Fields Part) :
    IsReported (QueryOptions.accept d overrides) := by
  unfold accept
  split
  · exact isReported_ok _
  · exact isReported_ok _
  · rw [isReported_map, Options.isReported_acceptFields]
    exact fun fields _ fault failed => ofFields_isRefusal failed

/-- Options of an aggregation are so too, exactly when the levels can be gone through, and the operators can
be gone through and looked up, unless the direction of the order is refused before. -/
theorem AggregateOptions.isReported_accept (d : Description) (overrides : Fields Part) :
    IsReported (AggregateOptions.accept d overrides) ↔
      ∀ fields, Options.fieldsOf d = .ok fields →
        Options.IsDirected (Record.update fields overrides) →
          Options.HasReadableNames (Record.update fields overrides) := by
  unfold accept
  split
  · rename_i o
    refine iff_of_true (isReported_ok o) ?_
    rintro fields read -
    cases read
    exact Options.hasReadableNames_givenRecord o
  · rw [Options.isReported_acceptFields]
    exact forall₂_congr fun fields _ => ofFields_isRefusal_iff

namespace Options

/-- Whatever description and overrides there are, bad options are reported, unless levels that can not be gone
through or operators that can not be gone through or looked up come to be read. -/
theorem accept_isReported_iff (d : Description) (overrides : Fields Part) :
    IsReported (QueryOptions.accept d overrides) ∧
      (IsReported (AggregateOptions.accept d overrides) ↔
        ∀ fields, fieldsOf d = .ok fields → IsDirected (Record.update fields overrides) →
          HasReadableNames (Record.update fields overrides)) :=
  ⟨QueryOptions.isReported_accept d overrides, AggregateOptions.isReported_accept d overrides⟩

/-- Levels and operators that are numbers, and an operator that is a list, fail outside the library, where
a number of the wrong type is reported for a page. -/
theorem exists_not_isReported :
    (∀ fields ∈ ([[("row_levels", .int 5)], [("aggregations", .int 5)],
        [("operators", .list [.text "sum", .list [.int 1]])]] : List (Fields Part)),
      AggregateOptions.accept (.record fields) [] = .error (.outside .wrongType) ∧
        ¬IsReported (AggregateOptions.accept (.record fields) [])) ∧
      AggregateOptions.accept (.record [("page", .list [.int 1])]) [] =
        fail (.optionsInvalid [⟨[.field "page"], .intType⟩]) := by
  have escapes : ∀ fields : Fields Part,
      AggregateOptions.accept (.record fields) [] = .error (.outside .wrongType) →
        ¬IsReported (AggregateOptions.accept (.record fields) []) := by
    intro fields failed reported
    rw [failed] at reported
    rcases reported with ⟨_, ⟨⟩⟩ | ⟨_, ⟨⟩, -⟩
  refine ⟨fun fields member => ?_, rfl⟩
  have failed : AggregateOptions.accept (.record fields) [] = .error (.outside .wrongType) := by
    simp only [List.mem_cons, List.not_mem_nil, or_false] at member
    rcases member with rfl | rfl | rfl
    · rfl
    · rfl
    · rfl
  exact ⟨failed, escapes fields failed⟩

end Options

end Olap
