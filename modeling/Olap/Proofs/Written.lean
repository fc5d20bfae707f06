/-
Reading what was written. A record of an object starts with the fields that the object has a use for,
and the extra fields follow. When such a record is read as a description, each field is found again
under its first spelling, and what is left over is the extra fields, as no extra field has the first
spelling of a field. A second spelling may be among them: it counts when the first is absent.
-/

import Mathlib
import Olap.Proofs.Drafts
import Olap.Proofs.Fields

namespace Olap

/-! ### Values as descriptions -/

namespace Datum

variable {α : Type}

theorem liftItems_eq_map (items : List Value) :
    (liftItems items : List (Datum α)) = items.map lift := by
  induction items with
  | nil => rfl
  | cons item rest inductionHypothesis => rw [liftItems, inductionHypothesis, List.map_cons]

theorem liftFields_eq_map (fields : Row) :
    (liftFields fields : Fields α) = fields.map fun field => (field.1, field.2.lift) := by
  induction fields with
  | nil => rfl
  | cons field rest inductionHypothesis =>
    rw [liftFields, inductionHypothesis, List.map_cons]

theorem lift_ofOption (text : Option String) : (lift (.ofOption text) : Datum α) = .ofOption text := by
  cases text <;> rfl

theorem lift_texts (names : List String) :
    (lift (.list (names.map .text)) : Datum α) = .list (names.map .text) := by
  rw [lift, liftItems_eq_map, List.map_map]
  rfl

theorem get?_liftFields (fields : Row) (key : String) :
    Record.get? (liftFields fields : Fields α) key = (Record.get? fields key).map lift := by
  rw [liftFields_eq_map, Record.get?, Record.get?, List.find?_map, Option.map_map, Option.map_map]
  rfl

theorem contains_liftFields (fields : Row) :
    Record.contains (liftFields fields : Fields α) = Record.contains fields := by
  funext key
  rw [Record.contains_eq_isSome_get?, Record.contains_eq_isSome_get?, get?_liftFields,
    Option.isSome_map]

theorem usedKey?_liftFields (spellings : List String) (fields : Row) :
    usedKey? spellings (liftFields fields : Fields α) = usedKey? spellings fields := by
  rw [usedKey?, contains_liftFields, usedKey?]

theorem givenIn_liftFields (spellings : List String) (fields : Row) :
    givenIn spellings (liftFields fields : Fields α) = (givenIn spellings fields).map lift := by
  rw [givenIn, usedKey?_liftFields, givenIn]
  cases usedKey? spellings fields with
  | none => rfl
  | some key => exact get?_liftFields fields key

theorem leftOver_liftFields (known : List (List String)) (fields : Row) :
    leftOver known (liftFields fields : Fields α) = liftFields (leftOver known fields) := by
  unfold leftOver
  simp only [usedKey?_liftFields]
  rw [liftFields_eq_map, liftFields_eq_map, List.filter_map]
  rfl

theorem erase_liftFields (fields : Row) (key : String) :
    Record.erase (liftFields fields : Fields α) key = liftFields (Record.erase fields key) := by
  rw [liftFields_eq_map, liftFields_eq_map, Record.erase, List.filter_map]
  rfl

theorem set_liftFields (fields : Row) (key : String) (value : Value) :
    Record.set (liftFields fields : Fields α) key value.lift =
      liftFields (Record.set fields key value) := by
  induction fields with
  | nil => rfl
  | cons field rest inductionHypothesis =>
    obtain ⟨name, before⟩ := field
    by_cases same : name = key
    · simp [Record.set, liftFields, same]
    · simp [Record.set, liftFields, same, inductionHypothesis]

end Datum

/-! ### Lists of records -/

section Records

variable {γ : Type} (write : γ → Row) (objects : List γ)

theorem Datum.lift_records :
    (Datum.lift (.list (objects.map fun o => .record (write o))) : Description) =
      .list (objects.map fun o => .record (Datum.liftFields (write o))) := by
  rw [Datum.lift, Datum.liftItems_eq_map, List.map_map]
  rfl

theorem namedObjects_records (kind : String) :
    namedObjects kind (.list (objects.map fun o => .record (Datum.liftFields (write o)))) =
      .ok (objects.map fun o => .record (Datum.liftFields (write o))) := by
  cases objects <;> rfl

end Records

/-! ### Fields that are left over -/

theorem usedKey?_of_first {β : Type} {fields : List (String × β)} {first : String}
    (present : first ∈ Record.keys fields) (others : List String) :
    usedKey? (first :: others) fields = some first := by
  rw [usedKey?, List.find?_cons, Record.contains_eq_true_iff.mpr present]

theorem mem_leftOver {β : Type} {known : List (List String)} {fields : List (String × β)}
    {field : String × β} :
    field ∈ leftOver known fields ↔
      field ∈ fields ∧ ∀ spellings ∈ known, usedKey? spellings fields ≠ some field.1 := by
  unfold leftOver
  rw [List.mem_filter, Bool.not_eq_true', List.contains_eq_mem, decide_eq_false_iff_not,
    List.mem_filterMap]
  simp only [not_exists, not_and, ne_eq]

/-- Nothing is left over when every key is used for some field. -/
theorem leftOver_eq_nil_iff {β : Type} {known : List (List String)} {fields : List (String × β)} :
    leftOver known fields = [] ↔
      ∀ key ∈ Record.keys fields, ∃ spellings ∈ known, usedKey? spellings fields = some key := by
  rw [List.eq_nil_iff_forall_not_mem]
  constructor
  · intro none key member
    obtain ⟨field, inside, rfl⟩ := List.mem_map.mp member
    by_contra unused
    push Not at unused
    exact none field (mem_leftOver.mpr ⟨inside, unused⟩)
  · intro used field member
    obtain ⟨inside, unused⟩ := mem_leftOver.mp member
    obtain ⟨spellings, inKnown, spelled⟩ := used field.1 (Record.mem_keys_of_mem inside)
    exact unused spellings inKnown spelled

/-- Fields with one spelling each are left over when they have another name. -/
theorem leftOver_singles {β : Type} {names : List String} {fields : List (String × β)} :
    leftOver (names.map ([·])) fields = [] ↔ Record.keys fields ⊆ names := by
  rw [leftOver_eq_nil_iff]
  refine forall₂_congr fun key member => ⟨?_, fun known => ?_⟩
  · rintro ⟨_, inside, used⟩
    obtain ⟨name, known, rfl⟩ := List.mem_map.mp inside
    exact List.mem_singleton.mp (mem_of_usedKey? used) ▸ known
  · exact ⟨[key], List.mem_map_of_mem known, usedKey?_of_first member []⟩

/-- The first spellings of fields. -/
def firsts (known : List (List String)) : List String := known.filterMap List.head?

theorem exists_of_mem_firsts {known : List (List String)} {first : String}
    (member : first ∈ firsts known) : ∃ others, first :: others ∈ known := by
  obtain ⟨spellings, field, starts⟩ := List.mem_filterMap.mp member
  obtain ⟨others, rfl⟩ := List.head?_eq_some_iff.mp starts
  exact ⟨others, field⟩

theorem mem_firsts {known : List (List String)} {first : String} {others : List String}
    (field : first :: others ∈ known) : first ∈ firsts known :=
  List.mem_filterMap.mpr ⟨_, field, rfl⟩

theorem firsts_append (known more : List (List String)) :
    firsts (known ++ more) = firsts known ++ firsts more := List.filterMap_append

/-- The first spelling of a field is never left over. -/
theorem first_notMem_leftOver {β : Type} {known : List (List String)} {first : String}
    (isFirst : first ∈ firsts known) (fields : List (String × β)) :
    first ∉ Record.keys (leftOver known fields) := by
  intro member
  obtain ⟨others, field⟩ := exists_of_mem_firsts isFirst
  obtain ⟨left, inside, rfl⟩ := List.mem_map.mp member
  obtain ⟨present, unused⟩ := mem_leftOver.mp inside
  exact unused _ field (usedKey?_of_first (Record.mem_keys_of_mem present) others)

/-- A key that is no first spelling is not used for a field whose first spelling is there, or that it
does not spell. -/
theorem usedKey?_ne {β : Type} {known : List (List String)} {fields : List (String × β)} {key : String}
    (apart : key ∉ firsts known) {spellings : List String} (field : spellings ∈ known)
    (covered : ∀ first others, spellings = first :: others →
      first ∈ Record.keys fields ∨ key ∉ others) :
    usedKey? spellings fields ≠ some key := by
  intro used
  have spelled := mem_of_usedKey? used
  cases spellings with
  | nil => cases spelled
  | cons first others =>
    have notFirst : key ≠ first := fun same => apart (same ▸ mem_firsts field)
    rcases covered first others rfl with present | absent
    · rw [usedKey?_of_first present] at used
      exact notFirst (Option.some.inj used).symm
    · exact absent ((List.mem_cons.mp spelled).resolve_left notFirst)

/-- Fields under their first spellings are used, and of the fields between them the ones are left over
that no second spelling is used for. -/
theorem leftOver_between {β : Type} {known : List (List String)} (front extra back : List (String × β))
    (used : ∀ key ∈ Record.keys (front ++ back), key ∈ firsts known) (kept : String → Bool)
    (agree : ∀ key ∈ Record.keys extra,
      kept key = true ↔ ∀ spellings ∈ known, usedKey? spellings (front ++ extra ++ back) ≠ some key) :
    leftOver known (front ++ extra ++ back) = extra.filter fun field => kept field.1 := by
  have left (field : String × β) :
      (!(known.filterMap (usedKey? · (front ++ extra ++ back))).contains field.1) = true ↔
        ∀ spellings ∈ known, usedKey? spellings (front ++ extra ++ back) ≠ some field.1 := by
    rw [Bool.not_eq_true', List.contains_eq_mem, decide_eq_false_iff_not, List.mem_filterMap]
    simp only [not_exists, not_and, ne_eq]
  have gone (part : List (String × β)) (inside : Record.keys part ⊆ Record.keys (front ++ back))
      (all : Record.keys part ⊆ Record.keys (front ++ extra ++ back)) :
      part.filter (fun field =>
        !(known.filterMap (usedKey? · (front ++ extra ++ back))).contains field.1) = [] := by
    refine List.filter_eq_nil_iff.mpr fun field member unused => ?_
    have key := Record.mem_keys_of_mem member
    obtain ⟨others, spelled⟩ := exists_of_mem_firsts (used _ (inside key))
    exact (left _).mp unused _ spelled (usedKey?_of_first (all key) others)
  unfold leftOver
  rw [List.filter_append, List.filter_append, gone front, gone back, List.nil_append,
    List.append_nil]
  · refine List.filter_congr fun field member => ?_
    rw [Bool.eq_iff_iff, left, agree _ (Record.mem_keys_of_mem member)]
  all_goals
    intro key member
    simp only [Record.keys_append, List.mem_append]
    tauto

theorem keys_fieldsToData (fields : Fields Part) :
    Record.keys (Description.fieldsToData fields) = Record.keys fields := by
  induction fields with
  | nil => rfl
  | cons field rest inductionHypothesis => exact congrArg (field.1 :: ·) inductionHypothesis

/-- No extra field has the first spelling of a field. -/
def AvoidsFirsts (known : List (List String)) (extra : Row) : Prop :=
  ∀ first ∈ firsts (headerKeys ++ known), first ∉ Record.keys extra

namespace AvoidsFirsts

variable {known : List (List String)} {extra : Row}

theorem of_checkHeader {fields : Fields Part} {header : Header}
    (checked : (checkHeader known fields).result = .ok header) : AvoidsFirsts known header.extra := by
  intro first isFirst
  rw [← (checkHeader_ok.1 checked).2.2.2, keys_fieldsToData]
  exact first_notMem_leftOver isFirst fields

theorem set (avoids : AvoidsFirsts known extra) {key : String}
    (apart : key ∉ firsts (headerKeys ++ known)) (value : Value) :
    AvoidsFirsts known (Record.set extra key value) := by
  intro first isFirst member
  rcases Record.mem_keys_set.mp member with before | rfl
  · exact avoids first isFirst before
  · exact apart isFirst

theorem erase (avoids : AvoidsFirsts known extra) (key : String) :
    AvoidsFirsts known (Record.erase extra key) :=
  fun first isFirst member =>
    avoids first isFirst (List.map_subset _ (List.filter_subset_self _) member)

theorem get?_eq_none (avoids : AvoidsFirsts known extra) {first : String}
    (isFirst : first ∈ firsts (headerKeys ++ known)) : Record.get? extra first = none :=
  Record.get?_eq_none_iff.mpr (avoids first isFirst)

end AvoidsFirsts

/-! ### Extra fields -/

/-- The extra fields as they are written. -/
def Header.kept (header : Header) : Row := Record.ofPairs header.extraFields

theorem Header.mem_keys_extra_of_kept {header : Header} {key : String}
    (member : key ∈ Record.keys header.kept) : key ∈ Record.keys header.extra := by
  obtain ⟨field, inside, rfl⟩ := List.mem_map.mp member
  exact Record.mem_keys_of_mem (List.mem_of_mem_filter (Record.mem_of_mem_ofPairs inside))

/-- Extra fields without a value are not written. -/
theorem Header.notMem_keys_kept {header : Header} {key : String}
    (absent : ∀ value, (key, value) ∈ header.extra → value = .null) :
    key ∉ Record.keys header.kept := by
  intro member
  obtain ⟨⟨_, value⟩, inside, rfl⟩ := List.mem_map.mp member
  obtain ⟨given, present⟩ := List.mem_filter.mp (Record.mem_of_mem_ofPairs inside)
  rw [absent value given] at present
  cases present

theorem AvoidsFirsts.kept {known : List (List String)} {header : Header}
    (avoids : AvoidsFirsts known header.extra) : AvoidsFirsts known header.kept :=
  fun first isFirst member => avoids first isFirst (Header.mem_keys_extra_of_kept member)

/-- Extra fields are written behind fields under their first spellings. -/
theorem Header.update_extraFields {known : List (List String)} {header : Header}
    (avoids : AvoidsFirsts known header.extra) {front : Row}
    (inFront : ∀ key ∈ Record.keys front, key ∈ firsts (headerKeys ++ known)) :
    Record.update front header.extraFields = front ++ header.kept := by
  refine Record.update_of_notMem fun key member known => ?_
  obtain ⟨extra, inside, rfl⟩ := List.mem_map.mp member
  exact avoids _ (inFront _ known) (Record.mem_keys_of_mem (List.mem_of_mem_filter inside))

/-- A record that is written as it is: keys differ and every field has a value. -/
structure IsTidy (fields : Row) : Prop where
  distinct : (Record.keys fields).Nodup
  present : ∀ field ∈ fields, field.2.isNull = false

theorem isTidy_kept (header : Header) : IsTidy header.kept where
  distinct := Record.nodup_keys_ofPairs _
  present field member := by
    simpa using (List.mem_filter.mp (Record.mem_of_mem_ofPairs member)).2

theorem IsTidy.set {fields : Row} (tidy : IsTidy fields) (key : String) {value : Value}
    (present : value.isNull = false) : IsTidy (Record.set fields key value) where
  distinct := Record.nodup_keys_set tidy.distinct key value
  present field member := by
    rcases Record.mem_of_mem_set member with before | rfl
    · exact tidy.present field before
    · exact present

theorem IsTidy.erase {fields : Row} (tidy : IsTidy fields) (key : String) :
    IsTidy (Record.erase fields key) where
  distinct := tidy.distinct.sublist (List.filter_sublist.map _)
  present field member := tidy.present field (List.mem_of_mem_filter member)

theorem IsTidy.extraFields_eq {extra : Row} (tidy : IsTidy extra) (header : Header) :
    Header.extraFields { header with extra } = extra :=
  List.filter_eq_self.mpr fun field member => by simpa using tidy.present field member

/-- Extra fields that were written before are written as they are. -/
theorem IsTidy.kept_eq {extra : Row} (tidy : IsTidy extra) (header : Header) :
    Header.kept { header with extra } = extra := by
  rw [Header.kept, tidy.extraFields_eq, Record.ofPairs_of_nodup tidy.distinct]

/-! ### Reading fields that were written -/

theorem get?_textField_self (key : String) (text : Option String) :
    Record.get? (textField key text) key = text.map .text := by
  cases text with
  | none => rfl
  | some text => exact (Record.get?_cons _ _ _).trans (if_pos rfl)

theorem get?_textField_of_ne {key other : String} (different : key ≠ other) (text : Option String) :
    Record.get? (textField key text) other = none := by
  cases text with
  | none => rfl
  | some text => exact (Record.get?_cons _ _ _).trans (if_neg different)

theorem keys_textField_subset (key : String) (text : Option String) :
    Record.keys (textField key text) ⊆ [key] := by
  cases text with
  | none => exact List.nil_subset _
  | some text => exact List.Subset.refl _

section Reading

variable {β : Type} {r : Row} {spellings : List String} {default : β} {check : Description → Check β}

theorem checkField_of_given {value : Value} {b : β} (given : givenIn spellings r = some value)
    (accepted : (check value.lift).result = .ok b) :
    (checkField (Datum.liftFields r) spellings default check).result = .ok b :=
  checkField_ok_iff.2 (Or.inr ⟨_, (Datum.givenIn_liftFields spellings r).trans
    (congrArg _ given), accepted⟩)

theorem checkField_of_absent (absent : givenIn spellings r = none) :
    (checkField (Datum.liftFields r) spellings default check).result = .ok default :=
  checkField_ok_iff.2 (Or.inl ⟨(Datum.givenIn_liftFields spellings r).trans (congrArg _ absent), rfl⟩)

theorem checkText_of_written {text : Option String} (given : givenIn spellings r = text.map .text) :
    (checkField (Datum.liftFields r : Fields Part) spellings none
      (Coerce.optional Coerce.text)).result = .ok text := by
  cases text with
  | none => exact checkField_of_absent given
  | some text => exact checkField_of_given given (optionalText_ok.2 (Or.inr ⟨text, rfl, rfl⟩))

end Reading

/-- A name that is absent or not blank. -/
def IsName (name : Option String) : Prop := ∀ text, name = some text → (Text.strip text).isEmpty = false

theorem isName_of_checkNameField {fields : Fields Part} {name : Option String}
    (checked : (checkNameField fields).result = .ok name) : IsName name := by
  rintro text rfl
  rcases checkField_ok_iff.1 checked with ⟨-, ⟨⟩⟩ | ⟨d, -, accepted⟩
  rcases checkName_ok.1 accepted with ⟨-, ⟨⟩⟩ | ⟨found, -, filled, same⟩
  cases same
  exact filled

theorem checkNameField_of_written {r : Row} {name : Option String} (valid : IsName name)
    (given : Record.get? r "name" = name.map .text) :
    (checkNameField (Datum.liftFields r)).result = .ok name := by
  cases name with
  | none => exact checkField_of_absent ((givenIn_one _ _).trans given)
  | some text =>
    exact checkField_of_given ((givenIn_one _ _).trans given)
      (checkName_ok.2 (Or.inr ⟨text, rfl, valid text rfl, rfl⟩))

theorem checkHeader_of_written {known : List (List String)} {r : Row} {header : Header}
    (label : Record.get? r "label" = header.label.map .text)
    (description : Record.get? r "description" = header.description.map .text)
    (info : Record.get? r "info" = some (.record header.info)) :
    (checkHeader known (Datum.liftFields r)).result =
      .ok { header with extra := leftOver (headerKeys ++ known) r } := by
  refine checkHeader_ok.2 ⟨checkText_of_written ((givenIn_one _ _).trans label),
    checkText_of_written ((givenIn_one _ _).trans description),
    checkField_of_given ((givenIn_one _ _).trans info) ?_, ?_⟩
  · show (Check.accept (Description.fieldsToData (Datum.liftFields header.info))).result = _
    rw [Check.result_accept]
    exact Datum.plainFields_liftFields _ _
  · rw [Datum.leftOver_liftFields]
    exact Datum.plainFields_liftFields _ _

namespace Header

variable (header : Header) (name : Option String)

theorem get?_fields_name : Record.get? (header.fields name) "name" = name.map .text := by
  simp [fields, Record.get?_append, get?_textField_self, get?_textField_of_ne, Record.get?_cons,
    show Record.get? ([] : Row) "name" = none from rfl]

theorem get?_fields_label : Record.get? (header.fields name) "label" = header.label.map .text := by
  simp [fields, Record.get?_append, get?_textField_self, get?_textField_of_ne, Record.get?_cons,
    show Record.get? ([] : Row) "label" = none from rfl]

theorem get?_fields_description :
    Record.get? (header.fields name) "description" = header.description.map .text := by
  simp [fields, Record.get?_append, get?_textField_self, get?_textField_of_ne, Record.get?_cons,
    show Record.get? ([] : Row) "description" = none from rfl]

theorem get?_fields_info :
    Record.get? (header.fields name) "info" = some (.record header.info) := by
  simp [fields, Record.get?_append, get?_textField_of_ne, Record.get?_cons]

theorem mem_keys_fields {key : String} (member : key ∈ Record.keys (header.fields name)) :
    key ∈ firsts headerKeys := by
  simp only [fields, Record.keys_append, List.mem_append] at member
  rcases member with ((named | labelled) | described) | informed
  · rw [List.mem_singleton.mp (keys_textField_subset _ _ named)]
    decide
  · rw [List.mem_singleton.mp (keys_textField_subset _ _ labelled)]
    decide
  · rw [List.mem_singleton.mp (keys_textField_subset _ _ described)]
    decide
  · rw [show key = "info" from List.mem_singleton.mp informed]
    decide

end Header

/-- What stands behind the header of a written record: fields under their first spellings, and extra
fields that have none of these. -/
structure IsWritten (known : List (List String)) (front extra : Row) : Prop where
  own : Record.keys front ⊆ firsts known
  apart : ∀ key ∈ firsts known, key ∉ firsts headerKeys
  avoids : AvoidsFirsts known extra

namespace IsWritten

variable {known : List (List String)} {front extra : Row} (header : Header) (name : Option String)

theorem get?_header (written : IsWritten known front extra) {key : String}
    (inHeader : key ∈ firsts headerKeys) :
    Record.get? (header.fields name ++ front ++ extra) key = Record.get? (header.fields name) key := by
  have absent : Record.get? front key = none :=
    Record.get?_eq_none_iff.mpr fun member => written.apart key (written.own member) inHeader
  have none : Record.get? extra key = none :=
    written.avoids.get?_eq_none (firsts_append headerKeys known ▸ List.mem_append_left _ inHeader)
  rw [Record.get?_append, Record.get?_append, absent, none, Option.or_none, Option.or_none]

theorem get?_front (written : IsWritten known front extra) {first : String}
    (isFirst : first ∈ firsts known) :
    Record.get? (header.fields name ++ front ++ extra) first = Record.get? front first := by
  have absent : Record.get? (header.fields name) first = none :=
    Record.get?_eq_none_iff.mpr fun member =>
      written.apart first isFirst (header.mem_keys_fields name member)
  have none : Record.get? extra first = none :=
    written.avoids.get?_eq_none (firsts_append headerKeys known ▸ List.mem_append_right _ isFirst)
  rw [Record.get?_append, Record.get?_append, absent, none, Option.none_or, Option.or_none]

/-- A field of one spelling is given by the fields in front. -/
theorem givenIn_front (written : IsWritten known front extra) {first : String}
    (isFirst : first ∈ firsts known) :
    givenIn [first] (header.fields name ++ front ++ extra) = Record.get? front first :=
  (givenIn_one first _).trans (written.get?_front header name isFirst)

/-- A key that is no first spelling is found among the extra fields only. -/
theorem get?_extra (written : IsWritten known front extra) {key : String}
    (apart : key ∉ firsts (headerKeys ++ known)) :
    Record.get? (header.fields name ++ front ++ extra) key = Record.get? extra key := by
  rw [firsts_append, List.mem_append, not_or] at apart
  have inHeader : Record.get? (header.fields name) key = none :=
    Record.get?_eq_none_iff.mpr fun member => apart.1 (header.mem_keys_fields name member)
  have inFront : Record.get? front key = none :=
    Record.get?_eq_none_iff.mpr fun member => apart.2 (written.own member)
  rw [Record.get?_append, Record.get?_append, inHeader, inFront, Option.or_none, Option.none_or]

/-- A computed field is stored among the extra fields. -/
theorem set_eq (written : IsWritten known front extra) {key : String}
    (apart : key ∉ firsts (headerKeys ++ known)) (value : Value) :
    Record.set (header.fields name ++ front ++ extra) key value =
      header.fields name ++ front ++ Record.set extra key value := by
  refine Record.set_append (fun member => apart ?_) extra value
  rw [firsts_append, List.mem_append]
  rw [Record.keys_append, List.mem_append] at member
  exact member.imp (header.mem_keys_fields name) fun inFront => written.own inFront

theorem set (written : IsWritten known front extra) {key : String}
    (apart : key ∉ firsts (headerKeys ++ known)) (value : Value) :
    IsWritten known front (Record.set extra key value) :=
  { written with avoids := written.avoids.set apart value }

theorem checkNameField_ok (written : IsWritten known front extra) (valid : IsName name) :
    (checkNameField (Datum.liftFields (header.fields name ++ front ++ extra))).result = .ok name := by
  refine checkNameField_of_written valid ?_
  rw [written.get?_header header name (by decide), header.get?_fields_name]

theorem checkHeader_ok (written : IsWritten known front extra) :
    (checkHeader known (Datum.liftFields (header.fields name ++ front ++ extra))).result =
      .ok { header with
        extra := leftOver (headerKeys ++ known) (header.fields name ++ front ++ extra) } := by
  refine checkHeader_of_written ?_ ?_ ?_
  · rw [written.get?_header header name (by decide), header.get?_fields_label]
  · rw [written.get?_header header name (by decide), header.get?_fields_description]
  · rw [written.get?_header header name (by decide), header.get?_fields_info]

theorem firsts_front (written : IsWritten known front extra) :
    ∀ key ∈ Record.keys (header.fields name ++ front), key ∈ firsts (headerKeys ++ known) := by
  intro key member
  rw [firsts_append, List.mem_append]
  rw [Record.keys_append, List.mem_append] at member
  exact member.imp (header.mem_keys_fields name) fun inFront => written.own inFront

/-- The extra fields are left over, if the second spellings among them have first ones in front. -/
theorem leftOver_eq (written : IsWritten known front extra)
    (settled : ∀ first others, first :: others ∈ headerKeys ++ known →
      first ∈ Record.keys front ∨ ∀ key ∈ others, key ∉ Record.keys extra) :
    leftOver (headerKeys ++ known) (header.fields name ++ front ++ extra) = extra := by
  have used := written.firsts_front header name
  rw [← List.append_nil (header.fields name ++ front)] at used
  have between := leftOver_between (header.fields name ++ front) extra [] used fun _ => true
  rw [List.append_nil] at between
  rw [between]
  · exact List.filter_eq_self.mpr fun _ _ => rfl
  · refine fun key member => iff_of_true rfl fun spellings field => ?_
    refine usedKey?_ne (fun isFirst => written.avoids key isFirst member) field ?_
    rintro first others rfl
    refine (settled first others field).imp (fun inFront => ?_) fun absent second =>
      absent key second member
    rw [Record.keys_append, Record.keys_append, List.append_assoc]
    exact List.mem_append_right _ (List.mem_append_left _ inFront)

/-- The header is read with the extra fields, if the second spellings among them have first ones. -/
theorem checkHeader_eq (written : IsWritten known front extra)
    (settled : ∀ first others, first :: others ∈ headerKeys ++ known →
      first ∈ Record.keys front ∨ ∀ key ∈ others, key ∉ Record.keys extra) :
    (checkHeader known (Datum.liftFields (header.fields name ++ front ++ extra))).result =
      .ok { header with extra } := by
  rw [written.checkHeader_ok header name, written.leftOver_eq header name settled]

/-- The header is read with the extra fields, if there are no second spellings. -/
theorem checkHeader_eq_of_single (written : IsWritten known front extra)
    (single : ∀ spellings ∈ headerKeys ++ known, spellings.tail = []) :
    (checkHeader known (Datum.liftFields (header.fields name ++ front ++ extra))).result =
      .ok { header with extra } := by
  refine written.checkHeader_eq header name fun first others field => Or.inr ?_
  rw [show others = [] from single _ field]
  exact List.forall_mem_nil _

end IsWritten

end Olap
