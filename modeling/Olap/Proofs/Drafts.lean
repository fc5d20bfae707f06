/-
What is made of descriptions. A description is accepted when each of its fields is, and what is made of
it is then completed: names are compared, defaults are filled in, and parts are given to the whole. Here
is said, object by object, when this succeeds and what it gives. A field is given under the first of
its spellings that the description has; what no field uses is kept in the header.
-/

import Olap.Metadata.Model
import Olap.Proofs.Accepted

namespace Olap

/-! ### Values as descriptions -/

mutual

/-- A value that is turned into a description is still the same value. -/
theorem Datum.plain_lift {α : Type} (f : α → Value) : ∀ value : Value,
    (value.lift : Datum α).plain f = value
  | .null | .bool _ | .int _ | .float _ | .text _ | .wildcard | .direction _ => rfl
  | .list items => by rw [lift, plain, plainItems_liftItems f items]
  | .record fields => by rw [lift, plain, plainFields_liftFields f fields]

theorem Datum.plainItems_liftItems {α : Type} (f : α → Value) : ∀ items : List Value,
    plainItems f (liftItems items : List (Datum α)) = items
  | [] => rfl
  | item :: rest => by
    rw [liftItems, plainItems, plain_lift f item, plainItems_liftItems f rest]

theorem Datum.plainFields_liftFields {α : Type} (f : α → Value) : ∀ fields : Row,
    plainFields f (liftFields fields : Fields α) = fields
  | [] => rfl
  | (key, value) :: rest => by
    rw [liftFields, plainFields, plain_lift f value, plainFields_liftFields f rest]

end

/-! ### Fields -/

/-- What a record gives for a field. -/
def givenIn {β : Type} (spellings : List String) (fields : List (String × β)) : Option β :=
  (usedKey? spellings fields).bind (Record.get? fields)

/-- A field is accepted when it is not given and has its default, or passes its check. -/
theorem checkField_ok_iff {α β : Type} {fields : Fields α} {spellings : List String} {default : β}
    {check : Datum α → Check β} {b : β} :
    (checkField fields spellings default check).result = .ok b ↔
      givenIn spellings fields = none ∧ b = default ∨
        ∃ d, givenIn spellings fields = some d ∧ (check d).result = .ok b := by
  unfold checkField givenIn
  cases usedKey? spellings fields with
  | none => simp [Check.accept, Check.result, eq_comm]
  | some key =>
    cases found : Record.get? fields key with
    | none => simp [Check.accept, Check.result, found, eq_comm]
    | some d => simp [found, Check.result_under]

/-- Records that give the same for a field are alike to its check. -/
theorem checkField_ok_congr {α β : Type} {fields others : Fields α} {spellings : List String}
    {default : β} {check : Datum α → Check β} {b : β}
    (same : givenIn spellings fields = givenIn spellings others) :
    (checkField fields spellings default check).result = .ok b ↔
      (checkField others spellings default check).result = .ok b := by
  rw [checkField_ok_iff, checkField_ok_iff, same]

theorem givenIn_one {β : Type} (key : String) (fields : List (String × β)) :
    givenIn [key] fields = Record.get? fields key := by
  unfold givenIn usedKey?
  rw [List.find?_singleton, Record.contains_eq_isSome_get?]
  cases found : Record.get? fields key with
  | none => rfl
  | some value => exact found

theorem givenIn_two {β : Type} (first second : String) (fields : List (String × β)) :
    givenIn [first, second] fields =
      (Record.get? fields first).or (Record.get? fields second) := by
  have later := givenIn_one second fields
  unfold givenIn usedKey? at later ⊢
  rw [List.find?_cons, Record.contains_eq_isSome_get?]
  cases found : Record.get? fields first with
  | none => exact later
  | some value => exact found

namespace Check

variable {α β γ : Type}

theorem result_ofResult {result : Result β} {b : β} :
    (ofResult result).result = .ok b ↔ result = .ok b := by
  unfold ofResult
  split <;> simp [accept, refuse, abort, Check.result]

theorem result_thenCheck {check : Check β} {next : β → Check γ} {c : γ} :
    (check.thenCheck next).result = .ok c ↔
      ∃ b, check.result = .ok b ∧ (next b).result = .ok c := by
  rcases check with ⟨fault | details | b⟩ <;>
    simp [thenCheck, abort, refuse, Check.result]

theorem result_accept {b c : β} : (accept b).result = .ok c ↔ b = c := by
  simp [accept, Check.result]

end Check

theorem text_ok {α : Type} {d : Datum α} {s : String} :
    (Coerce.text d).result = .ok s ↔ d.text? = some s := by
  unfold Coerce.text
  cases given : d.text? with
  | none => simp [Check.flaw, Check.refuse, Check.result]
  | some text => rw [Check.result_accept, Option.some.injEq]

/-- What may be absent is nothing, or it passes its check. -/
theorem optional_ok {α β : Type} {check : Datum α → Check β} {d : Datum α} {b : Option β} :
    (Coerce.optional check d).result = .ok b ↔
      d = .null ∧ b = none ∨ d ≠ .null ∧ ∃ c, (check d).result = .ok c ∧ some c = b := by
  cases d with
  | null =>
    rw [Coerce.optional, Check.result_accept]
    simp [eq_comm]
  | _ =>
    show (some <$> check _).result = .ok b ↔ _
    rw [Check.result_map]
    simp

theorem optionalText_ok {α : Type} {d : Datum α} {text : Option String} :
    (Coerce.optional Coerce.text d).result = .ok text ↔
      d = .null ∧ text = none ∨ ∃ s, d.text? = some s ∧ some s = text := by
  rw [optional_ok]
  refine or_congr_right ?_
  simp only [text_ok]
  constructor
  · exact And.right
  · rintro ⟨s, given, same⟩
    refine ⟨?_, s, given, same⟩
    rintro rfl
    cases given

theorem checkName_ok {d : Description} {name : Option String} :
    (checkName d).result = .ok name ↔
      d = .null ∧ name = none ∨
        ∃ s, d.text? = some s ∧ (Text.strip s).isEmpty = false ∧ some s = name := by
  unfold checkName
  rw [Check.result_thenCheck]
  constructor
  · rintro ⟨text, coerced, checked⟩
    rcases optionalText_ok.1 coerced with ⟨rfl, rfl⟩ | ⟨s, given, rfl⟩
    · exact Or.inl ⟨rfl, (Check.result_accept.1 checked).symm⟩
    · dsimp only at checked
      split at checked
      · cases checked
      · rename_i filled
        exact Or.inr ⟨s, given, by simpa using filled, Check.result_accept.1 checked⟩
  · rintro (⟨rfl, rfl⟩ | ⟨s, given, filled, rfl⟩)
    · exact ⟨none, optionalText_ok.2 (Or.inl ⟨rfl, rfl⟩), rfl⟩
    · refine ⟨some s, optionalText_ok.2 (Or.inr ⟨s, given, rfl⟩), ?_⟩
      dsimp only
      rw [filled]
      rfl

/-! ### Headers -/

theorem checkHeader_ok {known : List (List String)} {fields : Fields Part} {header : Header} :
    (checkHeader known fields).result = .ok header ↔
      (checkField fields ["label"] none (Coerce.optional Coerce.text)).result = .ok header.label ∧
        (checkField fields ["description"] none (Coerce.optional Coerce.text)).result =
          .ok header.description ∧
        (checkField fields ["info"] [] checkInfo).result = .ok header.info ∧
        Description.fieldsToData (leftOver (headerKeys ++ known) fields) = header.extra := by
  simp only [checkHeader, Check.result_seq, Check.result_map]
  constructor
  · rintro ⟨_, info, ⟨_, description, ⟨label, labelled, rfl⟩, described, rfl⟩, informed, rfl⟩
    exact ⟨labelled, described, informed, rfl⟩
  · obtain ⟨label, description, info, extra⟩ := header
    rintro ⟨labelled, described, informed, rfl⟩
    exact ⟨_, _, ⟨_, _, ⟨_, labelled, rfl⟩, described, rfl⟩, informed, rfl⟩

/-! ### Attributes, levels and hierarchies -/

theorem Attribute.ofFields_ok {kind : AttributeKind} {fields : Fields Part} {a : Attribute} :
    Attribute.ofFields kind fields = .ok a ↔
      a.kind = kind ∧ a.dimension = none ∧ (checkNameField fields).result = .ok a.name ∧
        (checkHeader [] fields).result = .ok a.header := by
  unfold Attribute.ofFields
  simp only [Check.result_seq, Check.result_map]
  constructor
  · rintro ⟨_, header, ⟨name, named, rfl⟩, headed, rfl⟩
    exact ⟨rfl, rfl, named, headed⟩
  · rintro ⟨rfl, none, named, headed⟩
    refine ⟨_, _, ⟨_, named, rfl⟩, headed, ?_⟩
    rw [← none]

namespace Level

theorem checkDraft_ok {fields : Fields Part} {draft : Draft} :
    (checkDraft fields).result = .ok draft ↔
      (checkNameField fields).result = .ok draft.name ∧
        (checkHeader knownKeys fields).result = .ok draft.header ∧
        (checkField fields ["attributes"] []
          (checkAttributes (checkNameField fields).result.toOption.join)).result =
            .ok draft.attributes ∧
        (checkField fields ["key"] none (Coerce.optional Coerce.text)).result = .ok draft.key ∧
        (checkField fields ["label_attribute"] none (Coerce.optional Coerce.text)).result =
          .ok draft.labelAttribute ∧
        (checkField fields ["order_attribute"] none (Coerce.optional Coerce.text)).result =
          .ok draft.orderAttribute := by
  simp only [checkDraft, Check.result_seq, Check.result_map]
  constructor
  · rintro ⟨_, _, ⟨_, _, ⟨_, _, ⟨_, _, ⟨_, _, ⟨_, named, rfl⟩, headed, rfl⟩, listed, rfl⟩, keyed,
      rfl⟩, labelled, rfl⟩, ordered, rfl⟩
    exact ⟨named, headed, listed, keyed, labelled, ordered⟩
  · rintro ⟨named, headed, listed, keyed, labelled, ordered⟩
    exact ⟨_, _, ⟨_, _, ⟨_, _, ⟨_, _, ⟨_, _, ⟨_, named, rfl⟩, headed, rfl⟩, listed, rfl⟩, keyed,
      rfl⟩, labelled, rfl⟩, ordered, rfl⟩

/-- The attributes of a level before its key is chosen. -/
def Draft.ownAttributes (draft : Draft) : Result (List Attribute) :=
  if !draft.attributes.isEmpty then .ok draft.attributes
  else match draft.name with
    | some name => .ok [Attribute.ofName .attribute (some name)]
    | none => fail .levelNeedsAttribute

/-- A choice that passes its check is the name of an attribute. -/
theorem mem_of_requireAttribute {role text : String} {names : List (Option String)}
    {level : Option String} (required : requireAttribute role names level (some text) = .ok ())
    (filled : text ≠ "") : some text ∈ names := by
  unfold requireAttribute at required
  dsimp only at required
  split at required
  · rename_i held
    simpa [filled] using held
  · cases required

/-- A draft is completed in turn: its attributes, its key, its label, and the checks of these. -/
theorem ofDraft_eq (draft : Draft) :
    ofDraft draft = draft.ownAttributes >>= fun attributes => do
      let names := attributes.map (·.name)
      let key ← settle draft.key names.head?.join
      let labelAttribute ←
        settle draft.labelAttribute (if 1 < names.length then names[1]?.join else some key)
      if hasRepeats names then fail (.repeatedAttribute draft.name)
      requireAttribute "Key" names draft.name (some key)
      requireAttribute "Label" names draft.name (some labelAttribute)
      requireAttribute "Order" names draft.name draft.orderAttribute
      return ⟨draft.name, draft.header, attributes, key, labelAttribute, draft.orderAttribute,
        none⟩ := by
  unfold ofDraft Draft.ownAttributes
  cases draft.attributes.isEmpty with
  | false => rfl
  | true => cases draft.name <;> rfl

/-- A draft is completed when there are attributes, a key and a label among them, and none twice. -/
theorem ofDraft_ok {draft : Draft} {level : Level} :
    ofDraft draft = .ok level ↔
      level.name = draft.name ∧ level.header = draft.header ∧ level.dimension = none ∧
        level.orderAttribute = draft.orderAttribute ∧
        draft.ownAttributes = .ok level.attributes ∧
        settle draft.key level.attributeNames.head?.join = .ok level.key ∧
        settle draft.labelAttribute
          (if 1 < level.attributeNames.length then level.attributeNames[1]?.join
            else some level.key) = .ok level.labelAttribute ∧
        hasRepeats level.attributeNames = false ∧
        requireAttribute "Key" level.attributeNames draft.name (some level.key) = .ok () ∧
        requireAttribute "Label" level.attributeNames draft.name (some level.labelAttribute) =
          .ok () ∧
        requireAttribute "Order" level.attributeNames draft.name draft.orderAttribute = .ok () := by
  rw [ofDraft_eq]
  constructor
  · intro made
    obtain ⟨attributes, owned, made⟩ := Result.bind_ok.1 made
    obtain ⟨key, keyed, made⟩ := Result.bind_ok.1 made
    obtain ⟨label, labelled, made⟩ := Result.bind_ok.1 made
    dsimp only at made
    split at made
    · cases made
    · rename_i once
      obtain ⟨_, first, made⟩ := Result.bind_ok.1 made
      obtain ⟨_, second, made⟩ := Result.bind_ok.1 made
      obtain ⟨_, third, made⟩ := Result.bind_ok.1 made
      cases made
      exact ⟨rfl, rfl, rfl, rfl, owned, keyed, labelled, Bool.eq_false_iff.mpr once, first, second,
        third⟩
  · obtain ⟨name, header, attributes, key, label, order, dimension⟩ := level
    rintro ⟨rfl, rfl, rfl, rfl, owned, keyed, labelled, once, first, second, third⟩
    refine Result.bind_ok.2 ⟨attributes, owned, Result.bind_ok.2 ⟨key, keyed,
      Result.bind_ok.2 ⟨label, labelled, ?_⟩⟩⟩
    rw [if_neg (by rw [Bool.not_eq_true]; exact once)]
    exact Result.bind_ok.2 ⟨(), first, Result.bind_ok.2 ⟨(), second, Result.bind_ok.2
      ⟨(), third, rfl⟩⟩⟩

theorem ofFields_ok {fields : Fields Part} {level : Level} :
    ofFields fields = .ok level ↔
      ∃ draft, (checkDraft fields).result = .ok draft ∧ ofDraft draft = .ok level := by
  unfold ofFields
  cases (checkDraft fields).result <;> simp

end Level

namespace Hierarchy

theorem validate_ok {h other : Hierarchy} :
    h.validate = .ok other ↔
      h.levels.isEmpty = false ∧ hasRepeats h.levelNames = false ∧ h = other := by
  unfold validate
  cases h.levels.isEmpty <;> cases hasRepeats h.levelNames <;> simp [fail]

theorem ofFields_ok {fields : Fields Part} {h : Hierarchy} :
    ofFields fields = .ok h ↔
      h.dimension = none ∧ (checkNameField fields).result = .ok h.name ∧
        (checkHeader knownKeys fields).result = .ok h.header ∧
        (checkField fields ["levels"] [] checkLevels).result = .ok h.levels ∧
        h.levels.isEmpty = false ∧ hasRepeats h.levelNames = false := by
  unfold ofFields
  constructor
  · intro made
    split at made
    · cases made
    · rename_i drafted combined
      obtain ⟨filled, once, rfl⟩ := validate_ok.1 made
      simp only [Check.result_seq, Check.result_map] at combined
      obtain ⟨_, _, ⟨_, _, ⟨_, named, rfl⟩, headed, rfl⟩, listed, rfl⟩ := combined
      exact ⟨rfl, named, headed, listed, filled, once⟩
  · obtain ⟨name, header, levels, dimension⟩ := h
    rintro ⟨rfl, named, headed, listed, filled, once⟩
    have combined : ((fun name header levels => ⟨name, header, levels, none⟩) <$>
        checkNameField fields <*> checkHeader knownKeys fields <*>
        checkField fields ["levels"] [] checkLevels : Check Hierarchy).result =
          .ok ⟨name, header, levels, none⟩ := by
      simp only [Check.result_seq, Check.result_map]
      exact ⟨_, _, ⟨_, _, ⟨_, named, rfl⟩, headed, rfl⟩, listed, rfl⟩
    rw [combined]
    exact validate_ok.2 ⟨filled, once, rfl⟩

end Hierarchy

/-! ### Dimensions -/

namespace Dimension

theorem checkLevels_ok {d : Description} {levels : List Level} :
    (checkLevels d).result = .ok levels ↔
      ∃ entries, namedObjects "level" d = .ok entries ∧
        allOf (fun entry => Level.ofEntry (.datum entry)) entries = .ok levels := by
  unfold checkLevels
  rw [Check.result_ofResult]
  cases namedObjects "level" d <;> simp

theorem checkHierarchies_ok {d : Description} {hierarchies : List Hierarchy} :
    (checkHierarchies d).result = .ok hierarchies ↔
      ∃ entries, namedObjects "hierarchy" d = .ok entries ∧
        allOf Hierarchy.ofEntry entries = .ok hierarchies := by
  unfold checkHierarchies
  rw [Check.result_ofResult]
  cases namedObjects "hierarchy" d <;> simp

theorem checkDraft_ok {fields : Fields Part} {draft : Draft} :
    (checkDraft fields).result = .ok draft ↔
      (checkNameField fields).result = .ok draft.name ∧
        (checkHeader knownKeys fields).result = .ok draft.header ∧
        (checkField fields ["levels"] [] checkLevels).result = .ok draft.levels ∧
        (checkField fields ["hierarchies"] [] checkHierarchies).result = .ok draft.hierarchies ∧
        (checkField fields ["default_hierarchy_name", "default_hierarchy"] none
          (Coerce.optional Coerce.text)).result = .ok draft.defaultHierarchyName ∧
        (checkField fields ["key_field"] none (Coerce.optional Coerce.text)).result =
          .ok draft.keyField := by
  simp only [checkDraft, Check.result_seq, Check.result_map]
  constructor
  · rintro ⟨_, _, ⟨_, _, ⟨_, _, ⟨_, _, ⟨_, _, ⟨_, named, rfl⟩, headed, rfl⟩, listed, rfl⟩, ordered,
      rfl⟩, settled, rfl⟩, keyed, rfl⟩
    exact ⟨named, headed, listed, ordered, settled, keyed⟩
  · rintro ⟨named, headed, listed, ordered, settled, keyed⟩
    exact ⟨_, _, ⟨_, _, ⟨_, _, ⟨_, _, ⟨_, _, ⟨_, named, rfl⟩, headed, rfl⟩, listed, rfl⟩, ordered,
      rfl⟩, settled, rfl⟩, keyed, rfl⟩

theorem ofFields_ok {fields : Fields Part} {d : Dimension} :
    ofFields fields = .ok d ↔
      ∃ draft, (checkDraft fields).result = .ok draft ∧ ofDraft draft = .ok d := by
  unfold ofFields
  cases (checkDraft fields).result <;> simp

/-- A draft is completed when it has a name and neither levels nor hierarchies of the same name, and
all its hierarchies can be given to the dimension. -/
theorem ofDraft_ok {draft : Draft} {d : Dimension} :
    ofDraft draft = .ok d ↔
      draft.name = some d.name ∧ hasRepeats (draft.levels.map (·.name)) = false ∧
        hasRepeats (draft.hierarchies.map (·.name)) = false ∧
        d.header = draft.header ∧ d.levels = draft.levels.map (·.attach d.name) ∧
        allOf (Hierarchy.attach d.name d.levels) draft.hierarchies = .ok d.hierarchies ∧
        d.defaultHierarchyName = draft.defaultHierarchyName ∧ d.keyField = draft.keyField := by
  obtain ⟨own, header, levels, hierarchies, defaultHierarchyName, keyField⟩ := d
  unfold ofDraft
  cases draft.name with
  | none => simp [fail]
  | some name =>
    cases hasRepeats (draft.levels.map (·.name)) with
    | true => simp [fail, bind, Except.bind]
    | false =>
      cases hasRepeats (draft.hierarchies.map (·.name)) with
      | true => simp [fail, bind, Except.bind]
      | false =>
        constructor
        · intro made
          obtain ⟨found, all, made⟩ := Result.bind_ok.1 made
          cases made
          exact ⟨rfl, rfl, rfl, rfl, rfl, all, rfl, rfl⟩
        · dsimp only
          rintro ⟨⟨⟩, -, -, rfl, rfl, all, rfl, rfl⟩
          exact Result.bind_ok.2 ⟨_, all, rfl⟩

end Dimension

/-! ### Cubes -/

namespace Cube

theorem checkDraft_ok {fields : Fields Part} {draft : Draft} :
    (checkDraft fields).result = .ok draft ↔
      (checkNameField fields).result = .ok draft.name ∧
        (checkHeader knownKeys fields).result = .ok draft.header ∧
        (checkField fields ["measures"] [] (checkAttributes .measure)).result =
          .ok draft.measures ∧
        (checkField fields ["details", "attributes"] [] (checkAttributes .attribute)).result =
          .ok draft.details ∧
        (checkField fields ["mappings"] [] checkMappings).result = .ok draft.mappings ∧
        (checkField fields ["fact_table", "fact"] none (Coerce.optional Coerce.text)).result =
          .ok draft.factTable ∧
        (checkField fields ["joins"] none (Coerce.optional checkJoins)).result = .ok draft.joins ∧
        (checkField fields ["key_field", "key"] "id" Coerce.text).result = .ok draft.keyField ∧
        (checkField fields ["dimensions", "dimension_links"] []
          (Coerce.list DimensionLink.check)).result = .ok draft.links := by
  simp only [checkDraft, Check.result_seq, Check.result_map]
  constructor
  · rintro ⟨_, _, ⟨_, _, ⟨_, _, ⟨_, _, ⟨_, _, ⟨_, _, ⟨_, _, ⟨_, _, ⟨_, named, rfl⟩, headed, rfl⟩,
      measured, rfl⟩, detailed, rfl⟩, mapped, rfl⟩, placed, rfl⟩, joined, rfl⟩, keyed, rfl⟩, linked,
      rfl⟩
    exact ⟨named, headed, measured, detailed, mapped, placed, joined, keyed, linked⟩
  · rintro ⟨named, headed, measured, detailed, mapped, placed, joined, keyed, linked⟩
    exact ⟨_, _, ⟨_, _, ⟨_, _, ⟨_, _, ⟨_, _, ⟨_, _, ⟨_, _, ⟨_, _, ⟨_, named, rfl⟩, headed, rfl⟩,
      measured, rfl⟩, detailed, rfl⟩, mapped, rfl⟩, placed, rfl⟩, joined, rfl⟩, keyed, rfl⟩, linked,
      rfl⟩

theorem ofFields_ok {fields : Fields Part} {c : Cube} :
    ofFields fields = .ok c ↔
      ∃ draft, (checkDraft fields).result = .ok draft ∧ ofDraft draft = .ok c := by
  unfold ofFields
  cases (checkDraft fields).result <;> simp

/-- A cube before dimensions are added to it. -/
def ofParts (name : String) (draft : Draft) : Cube :=
  { name, header := draft.header, measures := draft.measures, details := draft.details
    mappings := draft.mappings, factTable := draft.factTable, joins := draft.joins
    keyField := draft.keyField, dimensions := [], owner := .standalone }

theorem ofDraft_ok {draft : Draft} {c : Cube} :
    ofDraft draft = .ok c ↔
      ∃ name, draft.name = some name ∧ checkNames name draft.measures draft.details = .ok () ∧
        (addAll [] draft.links).made (ofParts name draft) = .ok c := by
  unfold ofDraft
  cases draft.name with
  | none => simp [fail]
  | some name =>
    constructor
    · intro made
      obtain ⟨_, checked, made⟩ := Result.bind_ok.1 made
      exact ⟨name, rfl, checked, made⟩
    · rintro ⟨_, ⟨⟩, checked, made⟩
      exact Result.bind_ok.2 ⟨(), checked, made⟩

end Cube

/-! ### Models -/

theorem Model.checkDraft_ok {fields : Fields Part} {draft : Model.Draft} :
    (Model.checkDraft fields).result = .ok draft ↔
      (checkNameField fields).result = .ok draft.name ∧
        (checkHeader Model.knownKeys fields).result = .ok draft.header ∧
        (checkField fields ["dimensions", "dimension_descs"] []
          (fun d => .ofResult (namedObjects "dimension" d))).result = .ok draft.dimensions ∧
        (checkField fields ["cubes", "cube_descs"] []
          (fun d => .ofResult (namedObjects "cube" d))).result = .ok draft.cubes := by
  simp only [Model.checkDraft, Check.result_seq, Check.result_map]
  constructor
  · rintro ⟨_, _, ⟨_, _, ⟨_, _, ⟨_, named, rfl⟩, headed, rfl⟩, dimensioned, rfl⟩, cubed, rfl⟩
    exact ⟨named, headed, dimensioned, cubed⟩
  · rintro ⟨named, headed, dimensioned, cubed⟩
    exact ⟨_, _, ⟨_, _, ⟨_, _, ⟨_, named, rfl⟩, headed, rfl⟩, dimensioned, rfl⟩, cubed, rfl⟩

/-- What is made of a record is made of its fields, some of which may be given anew. -/
theorem createFrom_record_ok {β : Type} {what : String} {make : Fields Part → Result β}
    {fields extra : Fields Part} {b : β} :
    createFrom what make (.record fields) extra = .ok b ↔ make (override fields extra) = .ok b := by
  unfold createFrom
  dsimp only
  cases make (override fields extra) with
  | ok made => simp
  | error fault => cases fault <;> simp [fail]

/-- A name stands for a record of the name. -/
theorem createFrom_of_text {β : Type} {d : Description} {name : String}
    (given : d.text? = some name) (what : String) (make : Fields Part → Result β) :
    createFrom what make d [] = make (nameOnly name) := by
  unfold createFrom
  cases d with
  | text | direction =>
    cases given
    rfl
  | _ => cases given

end Olap
