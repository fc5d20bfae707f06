/-
Choices of a level. A level has a key and a label; what is not chosen is filled in by assignments, and
every assignment has the whole level validated again, from within the validation that made it. Each of
these runs inside one another leaves less to be filled in, as long as the attribute whose name is filled
in has one. An attribute without a name leaves the choice as open as it was, and the runs never end.
-/

import Olap.Proofs.Settled

namespace Olap

namespace Level

/-! ### Validation that validates again -/

/-- What comes of runs inside one another, if they are over at the depth that is looked into. -/
abbrev Nested (α : Type) := ExceptT Fault Option α

namespace Nested

def ended {α : Type} (result : Result α) : Nested α := ExceptT.mk (some result)

def unfinished {α : Type} : Nested α := ExceptT.mk none

end Nested

namespace Draft

def names (draft : Draft) : List (Option String) := draft.attributes.map (·.name)

def keyDefault (draft : Draft) : Option String := draft.names.head?.join

def labelDefault (draft : Draft) : Option String :=
  if 1 < draft.names.length then draft.names[1]?.join else draft.key

def withAttributes (draft : Draft) (attributes : List Attribute) : Draft :=
  { draft with attributes }

/-- A draft with an attribute of the name of the level. -/
def withOwnName (draft : Draft) (name : String) : Draft :=
  draft.withAttributes [Attribute.ofName .attribute (some name)]

/-- Makes sure that there is an attribute. -/
def ensureAttributes (assign : Draft → Nested Draft) (draft : Draft) : Nested Draft :=
  if !draft.attributes.isEmpty then pure draft
  else match draft.name with
    | some name => assign (draft.withOwnName name)
    | none => .ended (fail .levelNeedsAttribute)

def fillKey (assign : Draft → Nested Draft) (draft : Draft) : Nested Draft :=
  if isOpen draft.key then assign { draft with key := draft.keyDefault } else pure draft

def fillLabel (assign : Draft → Nested Draft) (draft : Draft) : Nested Draft :=
  if isOpen draft.labelAttribute then assign { draft with labelAttribute := draft.labelDefault }
  else pure draft

/-- Attributes have different names, and what is chosen is one of them. -/
def checkChoices (draft : Draft) : Result Draft := do
  if hasRepeats draft.names then fail (.repeatedAttribute draft.name)
  requireAttribute "Key" draft.names draft.name draft.key
  requireAttribute "Label" draft.names draft.name draft.labelAttribute
  requireAttribute "Order" draft.names draft.name draft.orderAttribute
  return draft

/-- Validates a draft. Each assignment validates what has been assigned to, one run deeper. -/
def validated : Nat → Draft → Nested Draft
  | 0, _ => .unfinished
  | depth + 1, draft => do
    let draft ← draft.ensureAttributes (validated depth)
    let draft ← draft.fillKey (validated depth)
    let draft ← draft.fillLabel (validated depth)
    .ended draft.checkChoices

/-- The level that a draft has become. -/
def toLevel (draft : Draft) : Level :=
  { name := draft.name, header := draft.header, attributes := draft.attributes
    key := draft.key.getD "", labelAttribute := draft.labelAttribute.getD ""
    orderAttribute := draft.orderAttribute, dimension := none }

/-- The attributes that choices default to have names. -/
structure IsFillable (draft : Draft) : Prop where
  key : isOpen draft.key = true → draft.names.head? ≠ some none
  label : isOpen draft.labelAttribute = true → draft.names[1]? ≠ some none

instance (draft : Draft) : Decidable draft.IsFillable :=
  decidable_of_iff ((isOpen draft.key = true → draft.names.head? ≠ some none) ∧
      (isOpen draft.labelAttribute = true → draft.names[1]? ≠ some none))
    ⟨fun both => ⟨both.1, both.2⟩, fun fillable => ⟨fillable.key, fillable.label⟩⟩

/-- Names are absent or not blank. -/
structure IsChecked (draft : Draft) : Prop where
  name : IsName draft.name
  attributes : ∀ a ∈ draft.attributes, IsName a.name

/-- The number of assignments that are still to be made. -/
def openChoices (draft : Draft) : Nat :=
  draft.attributes.isEmpty.toNat + (isOpen draft.key).toNat + (isOpen draft.labelAttribute).toNat

def withKey (draft : Draft) : Draft :=
  { draft with key := if isOpen draft.key then draft.keyDefault else draft.key }

def withLabel (draft : Draft) : Draft :=
  { draft with
    labelAttribute := if isOpen draft.labelAttribute then draft.labelDefault
                      else draft.labelAttribute }

/-- What validation comes to if it ends. -/
def outcome (draft : Draft) : Result Draft :=
  draft.ownAttributes >>= fun attributes =>
    (draft.withAttributes attributes).withKey.withLabel.checkChoices

/-! ### Choices that are filled in -/

variable {draft : Draft} {choice : Option String}

theorem isOpen_of_isName (valid : IsName choice) (named : choice ≠ none) : isOpen choice = false := by
  obtain ⟨text, rfl⟩ := Option.ne_none_iff_exists'.mp named
  have filled : text ≠ "" := valid.ne_empty
  simpa [isOpen] using filled

theorem isName_of_mem_names (checked : draft.IsChecked) {name : Option String}
    (member : name ∈ draft.names) : IsName name := by
  obtain ⟨a, inside, rfl⟩ := List.mem_map.mp member
  exact checked.attributes a inside

theorem isOpen_keyDefault (checked : draft.IsChecked) (filled : draft.attributes ≠ [])
    (named : draft.names.head? ≠ some none) : isOpen draft.keyDefault = false := by
  obtain ⟨first, rest, same⟩ := List.exists_cons_of_ne_nil filled
  have head : draft.names.head? = some first.name := by rw [names, same]; rfl
  have own : first.name ≠ none := fun none => named (head.trans (congrArg some none))
  rw [keyDefault, head]
  exact isOpen_of_isName (checked.attributes first (same ▸ List.mem_cons_self)) own

theorem isOpen_labelDefault (checked : draft.IsChecked) (keyed : isOpen draft.key = false)
    (named : draft.names[1]? ≠ some none) : isOpen draft.labelDefault = false := by
  unfold labelDefault
  split
  · rename_i more
    rw [List.getElem?_eq_getElem more] at named ⊢
    exact isOpen_of_isName (isName_of_mem_names checked (List.getElem_mem more))
      fun none => named (congrArg some none)
  · exact keyed

/-! ### What an assignment changes -/

theorem withKey_of_closed (keyed : isOpen draft.key = false) : draft.withKey = draft := by
  rw [withKey, if_neg (by rw [keyed]; decide)]

theorem withLabel_of_closed (labelled : isOpen draft.labelAttribute = false) :
    draft.withLabel = draft := by
  rw [withLabel, if_neg (by rw [labelled]; decide)]

theorem IsChecked.withKey (checked : draft.IsChecked) : draft.withKey.IsChecked :=
  ⟨checked.name, checked.attributes⟩

theorem IsChecked.withLabel (checked : draft.IsChecked) : draft.withLabel.IsChecked :=
  ⟨checked.name, checked.attributes⟩

theorem IsChecked.withOwnName (checked : draft.IsChecked) {name : String}
    (named : draft.name = some name) : (draft.withOwnName name).IsChecked :=
  ⟨checked.name, List.forall_mem_singleton.mpr (named ▸ checked.name)⟩

/-- An attribute of the name of the level has a name, and there is no second one. -/
theorem isFillable_withOwnName (draft : Draft) (name : String) :
    (draft.withOwnName name).IsFillable :=
  ⟨fun _ => nofun, fun _ => nofun⟩

/-- The name of a nameless attribute is no key. -/
theorem withKey_of_nameless (opened : isOpen draft.key = true)
    (nameless : draft.names.head? = some none) : draft.withKey.key = none := by
  rw [Draft.withKey, if_pos opened, keyDefault, nameless]
  rfl

theorem withLabel_of_nameless (opened : isOpen draft.labelAttribute = true)
    (nameless : draft.names[1]? = some none) : draft.withLabel.labelAttribute = none := by
  obtain ⟨more, -⟩ := List.getElem?_eq_some_iff.mp nameless
  rw [Draft.withLabel, if_pos opened, labelDefault, if_pos more, nameless]
  rfl

/-- Filling in the key does not decide whether the draft can be filled in. -/
theorem isFillable_withKey : draft.withKey.IsFillable ↔ draft.IsFillable := by
  constructor
  · rintro ⟨key, label⟩
    refine ⟨fun opened nameless => ?_, label⟩
    exact key (congrArg isOpen (withKey_of_nameless opened nameless)) nameless
  · rintro ⟨key, label⟩
    refine ⟨fun opened => ?_, label⟩
    cases closed : isOpen draft.key with
    | true => exact key closed
    | false =>
      rw [withKey_of_closed closed, closed] at opened
      cases opened

theorem isFillable_withLabel : draft.withLabel.IsFillable ↔ draft.IsFillable := by
  constructor
  · rintro ⟨key, label⟩
    refine ⟨key, fun opened nameless => ?_⟩
    exact label (congrArg isOpen (withLabel_of_nameless opened nameless)) nameless
  · rintro ⟨key, label⟩
    refine ⟨key, fun opened => ?_⟩
    cases closed : isOpen draft.labelAttribute with
    | true => exact label closed
    | false =>
      rw [withLabel_of_closed closed, closed] at opened
      cases opened

theorem isOpen_withKey (checked : draft.IsChecked) (filled : draft.attributes ≠ [])
    (fillable : draft.IsFillable) : isOpen draft.withKey.key = false := by
  cases opened : isOpen draft.key with
  | true =>
    rw [withKey, if_pos opened]
    exact isOpen_keyDefault checked filled (fillable.key opened)
  | false => rw [withKey_of_closed opened, opened]

theorem isOpen_withLabel (checked : draft.IsChecked) (keyed : isOpen draft.key = false)
    (fillable : draft.IsFillable) : isOpen draft.withLabel.labelAttribute = false := by
  cases opened : isOpen draft.labelAttribute with
  | true =>
    rw [withLabel, if_pos opened]
    exact isOpen_labelDefault checked keyed (fillable.label opened)
  | false => rw [withLabel_of_closed opened, opened]

/-! ### Assignments that are left -/

theorem openChoices_withOwnName (empty : draft.attributes = []) (name : String) :
    (draft.withOwnName name).openChoices < draft.openChoices := by
  unfold openChoices
  rw [empty]
  exact Nat.add_lt_add_right (Nat.add_lt_add_right Nat.zero_lt_one _) _

theorem openChoices_withKey (checked : draft.IsChecked) (filled : draft.attributes ≠ [])
    (fillable : draft.IsFillable) (opened : isOpen draft.key = true) :
    draft.withKey.openChoices < draft.openChoices := by
  unfold openChoices
  rw [opened, isOpen_withKey checked filled fillable]
  exact Nat.add_lt_add_right (Nat.lt_succ_self _) _

theorem openChoices_withLabel (checked : draft.IsChecked) (keyed : isOpen draft.key = false)
    (fillable : draft.IsFillable) (opened : isOpen draft.labelAttribute = true) :
    draft.withLabel.openChoices < draft.openChoices := by
  unfold openChoices
  rw [opened, isOpen_withLabel checked keyed fillable]
  exact Nat.lt_succ_self _

/-! ### Runs that end -/

/-- Nothing is left to be filled in. -/
structure IsFilled (draft : Draft) : Prop where
  attributes : draft.attributes ≠ []
  key : isOpen draft.key = false
  label : isOpen draft.labelAttribute = false

theorem ensureAttributes_of_filled (assign : Draft → Nested Draft) (filled : draft.attributes ≠ []) :
    draft.ensureAttributes assign = pure draft := by
  rw [ensureAttributes, List.isEmpty_eq_false_iff.mpr filled]
  rfl

theorem ensureAttributes_of_nameless (assign : Draft → Nested Draft) (empty : draft.attributes = [])
    (nameless : draft.name = none) :
    draft.ensureAttributes assign = .ended (fail .levelNeedsAttribute) := by
  rw [ensureAttributes, empty, nameless]
  rfl

theorem ensureAttributes_of_name (assign : Draft → Nested Draft) (empty : draft.attributes = [])
    {name : String} (named : draft.name = some name) :
    draft.ensureAttributes assign = assign (draft.withOwnName name) := by
  rw [ensureAttributes, empty, named]
  rfl

theorem fillKey_of_closed (assign : Draft → Nested Draft) (keyed : isOpen draft.key = false) :
    draft.fillKey assign = pure draft := by
  rw [fillKey, keyed, if_neg Bool.false_ne_true]

theorem fillLabel_of_closed (assign : Draft → Nested Draft)
    (labelled : isOpen draft.labelAttribute = false) : draft.fillLabel assign = pure draft := by
  rw [fillLabel, labelled, if_neg Bool.false_ne_true]

theorem fillKey_of_open (assign : Draft → Nested Draft) (opened : isOpen draft.key = true) :
    draft.fillKey assign = assign draft.withKey := by
  rw [fillKey, withKey, if_pos opened, if_pos opened]

theorem fillLabel_of_open (assign : Draft → Nested Draft)
    (opened : isOpen draft.labelAttribute = true) :
    draft.fillLabel assign = assign draft.withLabel := by
  rw [fillLabel, withLabel, if_pos opened, if_pos opened]

theorem checkChoices_ok {result : Draft} :
    draft.checkChoices = .ok result ↔
      result = draft ∧ hasRepeats draft.names = false ∧
        requireAttribute "Key" draft.names draft.name draft.key = .ok () ∧
        requireAttribute "Label" draft.names draft.name draft.labelAttribute = .ok () ∧
        requireAttribute "Order" draft.names draft.name draft.orderAttribute = .ok () := by
  unfold checkChoices
  cases repeated : hasRepeats draft.names with
  | true => simp [fail, bind, Except.bind]
  | false =>
    constructor
    · intro done
      obtain ⟨⟨⟩, keyed, done⟩ := Result.bind_ok.1 done
      obtain ⟨⟨⟩, labelled, done⟩ := Result.bind_ok.1 done
      obtain ⟨⟨⟩, ordered, done⟩ := Result.bind_ok.1 done
      exact ⟨(Except.ok.inj done).symm, rfl, keyed, labelled, ordered⟩
    · rintro ⟨rfl, -, keyed, labelled, ordered⟩
      exact Result.bind_ok.2 ⟨_, keyed, Result.bind_ok.2 ⟨_, labelled, Result.bind_ok.2
        ⟨_, ordered, rfl⟩⟩⟩

theorem ownAttributes_of_filled (filled : draft.attributes ≠ []) :
    draft.ownAttributes = .ok draft.attributes := by
  rw [ownAttributes, List.isEmpty_eq_false_iff.mpr filled]
  rfl

theorem outcome_of_filled (filled : draft.attributes ≠ []) :
    draft.outcome = draft.withKey.withLabel.checkChoices := by
  rw [outcome, ownAttributes_of_filled filled]
  rfl

theorem outcome_of_nameless (empty : draft.attributes = []) (nameless : draft.name = none) :
    draft.outcome = fail .levelNeedsAttribute := by
  rw [outcome, ownAttributes, empty, nameless]
  rfl

theorem outcome_withOwnName (empty : draft.attributes = []) {name : String}
    (named : draft.name = some name) : (draft.withOwnName name).outcome = draft.outcome := by
  have own : draft.ownAttributes = .ok [Attribute.ofName .attribute (some name)] := by
    rw [ownAttributes, empty, named]
    rfl
  have outcome : draft.outcome = (draft.withOwnName name).withKey.withLabel.checkChoices := by
    rw [Draft.outcome, own]
    rfl
  exact outcome.symm

theorem outcome_withKey (checked : draft.IsChecked) (filled : draft.attributes ≠ [])
    (fillable : draft.IsFillable) : draft.withKey.outcome = draft.outcome := by
  have keyed := isOpen_withKey checked filled fillable
  have again : draft.withKey.withKey = draft.withKey := withKey_of_closed keyed
  have outcome : draft.withKey.outcome = draft.withKey.withKey.withLabel.checkChoices :=
    outcome_of_filled filled
  rw [outcome_of_filled filled, outcome, again]

theorem outcome_withLabel (checked : draft.IsChecked) (filled : draft.attributes ≠ [])
    (keyed : isOpen draft.key = false) (fillable : draft.IsFillable) :
    draft.withLabel.outcome = draft.outcome := by
  have labelled := isOpen_withLabel checked keyed fillable
  have again : draft.withLabel.withLabel = draft.withLabel := withLabel_of_closed labelled
  have same : draft.withLabel.withKey = draft.withLabel := withKey_of_closed keyed
  have outcome : draft.withLabel.outcome = draft.withLabel.withKey.withLabel.checkChoices :=
    outcome_of_filled filled
  rw [outcome_of_filled filled, outcome, same, again, withKey_of_closed keyed]

/-- A level without attributes gets one of its own name, of which everything can be filled in. -/
theorem ownAttributes_ok (checked : draft.IsChecked) (fillable : draft.IsFillable)
    {attributes : List Attribute} (owned : draft.ownAttributes = .ok attributes) :
    attributes ≠ [] ∧ (draft.withAttributes attributes).IsChecked ∧
      (draft.withAttributes attributes).IsFillable := by
  unfold ownAttributes at owned
  split at owned
  · rename_i filled
    cases owned
    exact ⟨by simpa using filled, checked, fillable⟩
  · split at owned
    · rename_i name named
      cases owned
      exact ⟨List.cons_ne_nil _ _, checked.withOwnName named, isFillable_withOwnName draft name⟩
    · cases owned

/-- What validation comes to has nothing to be filled in, and passes its own checks. -/
theorem isFilled_of_outcome (checked : draft.IsChecked) (fillable : draft.IsFillable)
    {result : Draft} (done : draft.outcome = .ok result) :
    result.IsFilled ∧ result.checkChoices = .ok result := by
  obtain ⟨attributes, owned, done⟩ := Result.bind_ok.1 done
  obtain ⟨filled, own, choices⟩ := ownAttributes_ok checked fillable owned
  obtain ⟨rfl, -⟩ := checkChoices_ok.1 done
  have keyed := isOpen_withKey own filled choices
  exact ⟨⟨filled, keyed, isOpen_withLabel own.withKey keyed (isFillable_withKey.mpr choices)⟩, done⟩

/-- What runs inside have come to is not changed any more by the run that made the assignment. -/
theorem outcome_bind (checked : draft.IsChecked) (fillable : draft.IsFillable)
    {rest : Draft → Nested Draft}
    (checks : ∀ result : Draft, result.IsFilled → rest result = .ended result.checkChoices) :
    (.ended draft.outcome >>= rest) = .ended draft.outcome := by
  cases done : draft.outcome with
  | error fault => rfl
  | ok result =>
    obtain ⟨filled, again⟩ := isFilled_of_outcome checked fillable done
    exact (checks result filled).trans (congrArg Nested.ended again)

/-- One run is enough for each assignment that is still to be made, and one to check what has become of
the draft. -/
theorem validated_of_isFillable (checked : draft.IsChecked) (fillable : draft.IsFillable)
    {depth : Nat} (enough : draft.openChoices < depth) :
    validated depth draft = .ended draft.outcome := by
  induction depth generalizing draft with
  | zero => exact absurd enough (Nat.not_lt_zero _)
  | succ depth inductionHypothesis =>
    have checkLabel (result : Draft) (filled : result.IsFilled) :
        (result.fillLabel (validated depth) >>= fun draft => .ended draft.checkChoices) =
          .ended result.checkChoices := by
      rw [fillLabel_of_closed _ filled.label, pure_bind]
    have checkKey (result : Draft) (filled : result.IsFilled) :
        (result.fillKey (validated depth) >>= fun draft => draft.fillLabel (validated depth) >>=
          fun draft => .ended draft.checkChoices) = .ended result.checkChoices := by
      rw [fillKey_of_closed _ filled.key, pure_bind, checkLabel result filled]
    rw [validated]
    by_cases filled : draft.attributes = []
    · cases named : draft.name with
      | none =>
        rw [ensureAttributes_of_nameless _ filled named, outcome_of_nameless filled named]
        rfl
      | some name =>
        have fewer : (draft.withOwnName name).openChoices < depth :=
          Nat.lt_of_lt_of_le (openChoices_withOwnName filled name) (Nat.le_of_lt_succ enough)
        have nested := inductionHypothesis (checked.withOwnName named)
          (isFillable_withOwnName draft name) fewer
        rw [ensureAttributes_of_name _ filled named, nested, outcome_withOwnName filled named]
        exact outcome_bind checked fillable checkKey
    · rw [ensureAttributes_of_filled _ filled, pure_bind]
      cases keyed : isOpen draft.key with
      | true =>
        have fewer : draft.withKey.openChoices < depth := Nat.lt_of_lt_of_le
          (openChoices_withKey checked filled fillable keyed) (Nat.le_of_lt_succ enough)
        have nested := inductionHypothesis checked.withKey (isFillable_withKey.mpr fillable) fewer
        rw [fillKey_of_open _ keyed, nested, outcome_withKey checked filled fillable]
        exact outcome_bind checked fillable checkLabel
      | false =>
        rw [fillKey_of_closed _ keyed, pure_bind]
        cases labelled : isOpen draft.labelAttribute with
        | true =>
          have fewer : draft.withLabel.openChoices < depth := Nat.lt_of_lt_of_le
            (openChoices_withLabel checked keyed fillable labelled) (Nat.le_of_lt_succ enough)
          have nested := inductionHypothesis checked.withLabel (isFillable_withLabel.mpr fillable) fewer
          rw [fillLabel_of_open _ labelled, nested, outcome_withLabel checked filled keyed fillable]
          exact outcome_bind checked fillable fun _ _ => rfl
        | false =>
          rw [checkLabel draft ⟨filled, keyed, labelled⟩, outcome_of_filled filled,
            withKey_of_closed keyed, withLabel_of_closed labelled]

/-! ### Runs that never end -/

theorem attributes_ne_nil_of_not_isFillable (unfillable : ¬draft.IsFillable) : draft.attributes ≠ [] := by
  intro empty
  exact unfillable ⟨fun _ => by simp [names, empty], fun _ => by simp [names, empty]⟩

/-- While a default has no name, an assignment leaves the draft as open as it was. -/
theorem validated_of_not_isFillable (unfillable : ¬draft.IsFillable) (depth : Nat) :
    validated depth draft = .unfinished := by
  induction depth generalizing draft with
  | zero => rfl
  | succ depth inductionHypothesis =>
    have filled := attributes_ne_nil_of_not_isFillable unfillable
    rw [validated, ensureAttributes_of_filled _ filled, pure_bind]
    cases keyed : isOpen draft.key with
    | true =>
      have nested := inductionHypothesis (mt isFillable_withKey.mp unfillable)
      rw [fillKey_of_open _ keyed, nested]
      rfl
    | false =>
      rw [fillKey_of_closed _ keyed, pure_bind]
      cases labelled : isOpen draft.labelAttribute with
      | true =>
        have nested := inductionHypothesis (mt isFillable_withLabel.mp unfillable)
        rw [fillLabel_of_open _ labelled, nested]
        rfl
      | false =>
        refine absurd ⟨fun opened => ?_, fun opened => ?_⟩ unfillable
        · exact absurd (keyed.symm.trans opened) Bool.false_ne_true
        · exact absurd (labelled.symm.trans opened) Bool.false_ne_true

/-! ### Levels that are completed -/

/-- Validation ends, with a key and a label that name attributes or with a refusal. -/
def IsCompleted (draft : Draft) : Prop :=
  ∃ depth, (∃ result key label, validated depth draft = .ended (.ok result) ∧
      result.key = some key ∧ some key ∈ result.names ∧
      result.labelAttribute = some label ∧ some label ∈ result.names) ∨
    ∃ p : Problem, validated depth draft = .ended (.error (.problem p)) ∧ p.kind = .model

theorem requireAttribute_error {role : String} {names : List (Option String)} {level : Option String}
    {fault : Fault} (refused : requireAttribute role names level choice = .error fault) :
    ∃ p : Problem, fault = .problem p ∧ p.kind = .model := by
  unfold requireAttribute at refused
  split at refused
  · cases refused
  · split at refused <;> cases refused
    exact ⟨_, rfl, rfl⟩

theorem checkChoices_error {fault : Fault} (refused : draft.checkChoices = .error fault) :
    ∃ p : Problem, fault = .problem p ∧ p.kind = .model := by
  unfold checkChoices at refused
  cases repeated : hasRepeats draft.names with
  | true =>
    rw [repeated] at refused
    cases refused
    exact ⟨_, rfl, rfl⟩
  | false =>
    rw [repeated] at refused
    rcases Result.bind_error.1 refused with first | ⟨⟨⟩, -, refused⟩
    · exact requireAttribute_error first
    rcases Result.bind_error.1 refused with second | ⟨⟨⟩, -, refused⟩
    · exact requireAttribute_error second
    rcases Result.bind_error.1 refused with third | ⟨⟨⟩, -, refused⟩
    · exact requireAttribute_error third
    cases refused

/-- What is refused is refused as a fault of the model. -/
theorem outcome_error {fault : Fault} (refused : draft.outcome = .error fault) :
    ∃ p : Problem, fault = .problem p ∧ p.kind = .model := by
  rcases Result.bind_error.1 refused with refused | ⟨attributes, -, refused⟩
  · unfold ownAttributes at refused
    split at refused
    · cases refused
    · split at refused <;> cases refused
      exact ⟨_, rfl, rfl⟩
  · exact checkChoices_error refused

theorem not_isCompleted (unfillable : ¬draft.IsFillable) : ¬draft.IsCompleted := by
  rintro ⟨depth, ⟨result, key, label, ended, -⟩ | ⟨p, ended, -⟩⟩
  · cases (validated_of_not_isFillable unfillable depth).symm.trans ended
  · cases (validated_of_not_isFillable unfillable depth).symm.trans ended

theorem isCompleted_of_isFillable (checked : draft.IsChecked) (fillable : draft.IsFillable) :
    draft.IsCompleted := by
  have ended := validated_of_isFillable checked fillable (Nat.lt_succ_self draft.openChoices)
  refine ⟨draft.openChoices + 1, ?_⟩
  cases done : draft.outcome with
  | error fault =>
    obtain ⟨p, rfl, kind⟩ := outcome_error done
    exact .inr ⟨p, done ▸ ended, kind⟩
  | ok result =>
    obtain ⟨⟨-, keyed, labelled⟩, again⟩ := isFilled_of_outcome checked fillable done
    obtain ⟨-, -, first, second, -⟩ := checkChoices_ok.1 again
    obtain ⟨key, same, filledKey⟩ := exists_of_closed keyed
    obtain ⟨label, alike, filledLabel⟩ := exists_of_closed labelled
    exact .inl ⟨result, key, label, done ▸ ended, same, mem_of_requireAttribute (same ▸ first) filledKey,
      alike, mem_of_requireAttribute (alike ▸ second) filledLabel⟩

/-- The level that is made of a draft is what validation comes to. -/
theorem ofDraft_of_isFillable (checked : draft.IsChecked) (fillable : draft.IsFillable) :
    ofDraft draft = draft.outcome.map toLevel := by
  rw [ofDraft_eq, outcome]
  cases owned : draft.ownAttributes with
  | error fault => rfl
  | ok attributes =>
    obtain ⟨filled, own, choices⟩ := ownAttributes_ok checked fillable owned
    have keyed := isOpen_withKey own filled choices
    have labelled := isOpen_withLabel own.withKey keyed (isFillable_withKey.mpr choices)
    obtain ⟨key, sameKey, -⟩ := exists_of_closed keyed
    obtain ⟨label, sameLabel, -⟩ := exists_of_closed labelled
    have settledKey : settle draft.key (attributes.map (·.name)).head?.join = .ok key :=
      settle_of_some sameKey
    have settledLabel : settle draft.labelAttribute (if 1 < (attributes.map (·.name)).length then
        (attributes.map (·.name))[1]?.join else some key) = .ok label :=
      settle_of_some (sameKey ▸ sameLabel)
    have made : (draft.withAttributes attributes).withKey.withLabel =
        { draft with attributes, key := some key, labelAttribute := some label } := by
      rw [← sameKey, ← sameLabel]
      rfl
    dsimp only [bind, Except.bind]
    rw [made, settledKey]
    dsimp only
    rw [settledLabel]
    dsimp only
    unfold checkChoices names
    cases hasRepeats (attributes.map (·.name)) with
    | true => rfl
    | false =>
      -- What stands in the way is one of the three checks, the same for both.
      cases requireAttribute "Key" (attributes.map (·.name)) draft.name (some key) <;>
        cases requireAttribute "Label" (attributes.map (·.name)) draft.name (some label) <;>
          cases requireAttribute "Order" (attributes.map (·.name)) draft.name draft.orderAttribute <;>
            rfl

/-- Where validation never ends, no level is made. -/
theorem ofDraft_of_not_isFillable (unfillable : ¬draft.IsFillable) :
    ofDraft draft = .error (.outside .endless) := by
  have filled := attributes_ne_nil_of_not_isFillable unfillable
  rw [ofDraft_eq, ownAttributes_of_filled filled]
  refine Result.bind_error.2 (.inr ⟨draft.attributes, rfl, ?_⟩)
  cases keyed : draft.withKey.key with
  | none => exact Result.bind_error.2 (.inl (settle_of_none keyed))
  | some key =>
    refine Result.bind_error.2 (.inr ⟨key, settle_of_some keyed, ?_⟩)
    cases labelled : draft.withKey.withLabel.labelAttribute with
    | none => exact Result.bind_error.2 (.inl (settle_of_none (keyed ▸ labelled)))
    | some label =>
      refine absurd ⟨fun opened nameless => ?_, fun opened nameless => ?_⟩ unfillable
      · cases keyed.symm.trans (withKey_of_nameless opened nameless)
      · have stays : draft.withKey.withLabel.labelAttribute = none :=
          withLabel_of_nameless opened nameless
        cases labelled.symm.trans stays

end Draft

/-! ### Levels that are described -/

/-- Attributes of a list that is described have names that are not blank, if they have any. -/
theorem isName_of_listOf {d : Description} {found : List Attribute}
    (listed : Attribute.listOf .attribute d = .ok found) : ∀ a ∈ found, IsName a.name := by
  unfold Attribute.listOf at listed
  split at listed
  · cases listed
    exact List.forall_mem_nil _
  · split at listed
    · cases listed
    · intro a member
      obtain ⟨item, -, made⟩ := exists_of_mem_allOf listed member
      cases item with
      | pair => cases made
      | datum d =>
        cases d with
        | text | direction | record => exact (Attribute.isFresh_ofFields made).name
        | _ => cases made

theorem isChecked_of_checkDraft {fields : Fields Part} {draft : Draft}
    (checked : (checkDraft fields).result = .ok draft) : draft.IsChecked := by
  obtain ⟨named, -, listed, -⟩ := checkDraft_ok.1 checked
  have valid : IsName draft.name := isName_of_checkNameField named
  refine ⟨valid, ?_⟩
  rcases checkField_ok_iff.1 listed with ⟨-, empty⟩ | ⟨d, -, accepted⟩
  · rw [empty]
    exact List.forall_mem_nil _
  · unfold checkAttributes at accepted
    rw [named] at accepted
    split at accepted
    · split at accepted
      · rename_i same
        rw [← Check.result_accept.1 accepted]
        exact List.forall_mem_singleton.mpr (same ▸ valid)
      · cases accepted
    · split at accepted
      · cases accepted
      · exact isName_of_listOf (Check.result_ofResult.1 accepted)

theorem ofFields_eq {fields : Fields Part} {draft : Draft}
    (checked : (checkDraft fields).result = .ok draft) : ofFields fields = ofDraft draft := by
  rw [ofFields, checked]

/-- Whether filling in the defaults of a level comes to an end depends on the attributes that have them.
If each choice that is left open finds a name, the runs inside one another are over at a depth of one more
than the assignments that are to be made, and the level or the refusal that they end with is what becomes
of the description. If one finds no name, they are not over at any depth, and there is no answer. -/
theorem isCompleted_iff_isFillable {fields : Fields Part} {draft : Draft}
    (checked : (checkDraft fields).result = .ok draft) :
    (draft.IsCompleted ↔ draft.IsFillable) ∧
      (draft.IsFillable → ∀ depth, draft.openChoices < depth →
        ∃ result, draft.validated depth = .ended result ∧
          ofFields fields = result.map Draft.toLevel) ∧
      (¬draft.IsFillable → (∀ depth, draft.validated depth = .unfinished) ∧
        ofFields fields = .error (.outside .endless)) := by
  have named := isChecked_of_checkDraft checked
  have made := ofFields_eq checked
  refine ⟨⟨fun completed => ?_, Draft.isCompleted_of_isFillable named⟩,
    fun fillable depth enough => ⟨draft.outcome, ?_, ?_⟩, fun unfillable => ⟨?_, ?_⟩⟩
  · by_contra unfillable
    exact Draft.not_isCompleted unfillable completed
  · exact Draft.validated_of_isFillable named fillable enough
  · exact made.trans (Draft.ofDraft_of_isFillable named fillable)
  · exact Draft.validated_of_not_isFillable unfillable
  · exact made.trans (Draft.ofDraft_of_not_isFillable unfillable)

/-- A level of cities that are told apart by a code and shown by their name. -/
def codedCities : Fields Part :=
  [("name", .text "city"), ("attributes", .list [.text "code", .text "name"])]

/-- Both defaults have names, so three runs inside one another settle the key and the label. -/
theorem isCompleted_codedCities : ∃ draft level, (checkDraft codedCities).result = .ok draft ∧
    draft.IsCompleted ∧ (∃ result, draft.validated 3 = .ended (.ok result)) ∧
    ofFields codedCities = .ok level ∧ level.key = "code" ∧ level.labelAttribute = "name" := by
  obtain ⟨draft, level, checked, fillable, few, made, key, label⟩ : ∃ draft level,
      (checkDraft codedCities).result = .ok draft ∧ draft.IsFillable ∧ draft.openChoices < 3 ∧
      ofFields codedCities = .ok level ∧ level.key = "code" ∧ level.labelAttribute = "name" :=
    ⟨_, _, rfl, by decide, by decide, rfl, rfl, rfl⟩
  obtain ⟨completed, ends, -⟩ := isCompleted_iff_isFillable checked
  obtain ⟨result, ended, same⟩ := ends fillable 3 few
  obtain ⟨after, done, -⟩ := Result.map_ok.1 (same.symm.trans made)
  exact ⟨draft, level, checked, completed.mpr fillable, ⟨after, done ▸ ended⟩, made, key, label⟩

/-- A level of cities whose only attribute has no name. -/
def namelessCities : Fields Part :=
  [("name", .text "city"), ("attributes", .list [.record [("label", .text "City")]])]

/-- A valid description of a level with an attribute, for which no run ever ends. -/
theorem exists_not_isCompleted : ∃ (fields : Fields Part) (draft : Draft),
    (checkDraft fields).result = .ok draft ∧ draft.attributes ≠ [] ∧ ¬draft.IsCompleted ∧
      (∀ depth, draft.validated depth = .unfinished) ∧
      ofFields fields = .error (.outside .endless) := by
  obtain ⟨draft, checked, filled, unfillable⟩ : ∃ draft,
      (checkDraft namelessCities).result = .ok draft ∧ draft.attributes ≠ [] ∧ ¬draft.IsFillable :=
    ⟨_, rfl, List.cons_ne_nil _ _, by decide⟩
  exact ⟨namelessCities, draft, checked, filled, Draft.not_isCompleted unfillable,
    Draft.validated_of_not_isFillable unfillable, ofFields_eq checked ▸
      Draft.ofDraft_of_not_isFillable unfillable⟩

end Level

end Olap
