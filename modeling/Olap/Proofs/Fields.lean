/-
Records field by field. Storing a value under a key that is there keeps the place of the key, and a new
key goes to the end. So storing new keys is appending, and a record in which all keys differ is what it
is when its fields are stored one by one.
-/

import Mathlib
import Olap.Proofs.Rows

namespace Olap

/-- Where all names differ, each item is found by its own. -/
theorem find?_of_mem_of_nodup {β κ : Type} [BEq κ] [LawfulBEq κ] {name : β → κ} {items : List β}
    (distinct : (items.map name).Nodup) {item : β} (member : item ∈ items) :
    items.find? (fun other => name other == name item) = some item := by
  induction items with
  | nil => cases member
  | cons first rest inductionHypothesis =>
    rw [List.map_cons, List.nodup_cons] at distinct
    rcases List.mem_cons.mp member with rfl | later
    · rw [List.find?_cons, beq_self_eq_true]
    · rw [List.find?_cons_of_neg, inductionHypothesis distinct.2 later]
      rw [beq_iff_eq]
      intro same
      exact distinct.1 (same ▸ List.mem_map_of_mem later)

/-- Names still differ after an item of a new name was added. -/
theorem nodup_map_concat {β κ : Type} {name : β → κ} {items : List β} {item : β}
    (distinct : (items.map name).Nodup) (fresh : ∀ other ∈ items, name other ≠ name item) :
    ((items ++ [item]).map name).Nodup := by
  rw [List.map_append, List.map_singleton]
  refine List.nodup_append.mpr ⟨distinct, List.nodup_singleton _, ?_⟩
  intro known member new single same
  obtain ⟨other, here, rfl⟩ := List.mem_map.mp member
  exact fresh other here (same.trans (List.mem_singleton.mp single))

/-- Where all names differ, nothing before an item has its name. -/
theorem ne_of_nodup_map_append {β κ : Type} {name : β → κ} {before rest : List β} {item : β}
    (distinct : ((before ++ item :: rest).map name).Nodup) :
    ∀ other ∈ before, name other ≠ name item := by
  rw [List.map_append] at distinct
  exact fun other member same =>
    List.disjoint_of_nodup_append distinct (List.mem_map.mpr ⟨other, member, same⟩) List.mem_cons_self

namespace Record

variable {β : Type}

theorem get?_eq_none_iff {fields : List (String × β)} {key : String} :
    get? fields key = none ↔ key ∉ keys fields := by
  unfold get? keys
  rw [Option.map_eq_none_iff, List.find?_eq_none, List.mem_map]
  constructor
  · rintro none ⟨field, member, same⟩
    exact none field member (beq_iff_eq.mpr same)
  · intro absent field member same
    exact absent ⟨field, member, beq_iff_eq.mp same⟩

theorem mem_of_get?_eq_some {fields : List (String × β)} {key : String} {value : β}
    (found : get? fields key = some value) : (key, value) ∈ fields := by
  obtain ⟨field, looked, rfl⟩ := Option.map_eq_some_iff.1 found
  have same : field.1 = key := by simpa using List.find?_some looked
  exact same ▸ List.mem_of_find?_eq_some looked

theorem get?_append (front back : List (String × β)) (key : String) :
    get? (front ++ back) key = (get? front key).or (get? back key) := by
  unfold get?
  rw [List.find?_append]
  cases front.find? (·.1 == key) <;> rfl

theorem mem_keys_of_mem {fields : List (String × β)} {field : String × β} (member : field ∈ fields) :
    field.1 ∈ keys fields := List.mem_map_of_mem member

theorem keys_append (front back : List (String × β)) :
    keys (front ++ back) = keys front ++ keys back := List.map_append

theorem contains_eq_true_iff {fields : List (String × β)} {key : String} :
    contains fields key = true ↔ key ∈ keys fields := by
  rw [contains_eq_isSome_get?, Option.isSome_iff_ne_none, Ne, get?_eq_none_iff, not_not]

/-! ### Leaving out a field -/

theorem get?_erase_self (fields : List (String × β)) (key : String) :
    get? (erase fields key) key = none := by
  unfold get? erase
  rw [Option.map_eq_none_iff, List.find?_eq_none]
  intro field member
  simpa using (List.mem_filter.mp member).2

theorem get?_erase_of_ne (fields : List (String × β)) {key other : String}
    (different : key ≠ other) : get? (erase fields key) other = get? fields other := by
  unfold get? erase
  rw [List.find?_filter]
  congr 1
  refine congrArg (List.find? · fields) (funext fun field => ?_)
  by_cases same : field.1 = other
  · simp [same, Ne.symm different]
  · simp [same]

theorem erase_of_notMem {fields : List (String × β)} {key : String} (absent : key ∉ keys fields) :
    erase fields key = fields := by
  refine List.filter_eq_self.mpr fun field member => ?_
  rw [bne_iff_ne]
  rintro rfl
  exact absent (mem_keys_of_mem member)

theorem erase_append (front back : List (String × β)) (key : String) :
    erase (front ++ back) key = erase front key ++ erase back key := List.filter_append ..

/-! ### Storing fields -/

theorem set_append {front : List (String × β)} {key : String} (absent : key ∉ keys front)
    (back : List (String × β)) (value : β) :
    set (front ++ back) key value = front ++ set back key value := by
  induction front with
  | nil => rfl
  | cons field rest inductionHypothesis =>
    rw [keys, List.map_cons, List.mem_cons, not_or] at absent
    rw [List.cons_append, set, if_neg (Ne.symm absent.1), inductionHypothesis absent.2]
    rfl

theorem set_of_notMem {fields : List (String × β)} {key : String} (absent : key ∉ keys fields)
    (value : β) : set fields key value = fields ++ [(key, value)] := by
  have appended := set_append absent [] value
  rwa [List.append_nil] at appended

theorem set_set (fields : List (String × β)) (key : String) (value other : β) :
    set (set fields key value) key other = set fields key other := by
  induction fields with
  | nil => simp [set]
  | cons field rest inductionHypothesis =>
    by_cases same : field.1 = key
    · simp [set, same]
    · simp [set, same, inductionHypothesis]

theorem mem_keys_set {fields : List (String × β)} {key other : String} {value : β} :
    other ∈ keys (set fields key value) ↔ other ∈ keys fields ∨ other = key := by
  rw [keys_set]
  by_cases known : key ∈ keys fields
  · rw [if_pos known]
    constructor
    · exact Or.inl
    · rintro (member | rfl)
      · exact member
      · exact known
  · rw [if_neg known, List.mem_append, List.mem_singleton]

theorem nodup_keys_set {fields : List (String × β)} (distinct : (keys fields).Nodup) (key : String)
    (value : β) : (keys (set fields key value)).Nodup := by
  rw [keys_set]
  by_cases known : key ∈ keys fields
  · rwa [if_pos known]
  · rw [if_neg known]
    refine List.nodup_append.mpr ⟨distinct, List.nodup_singleton _, ?_⟩
    rintro name member _ single rfl
    exact known (List.mem_singleton.mp single ▸ member)

theorem mem_of_mem_set {fields : List (String × β)} {key : String} {value : β} {field : String × β}
    (member : field ∈ set fields key value) : field ∈ fields ∨ field = (key, value) := by
  induction fields with
  | nil => exact Or.inr (List.mem_singleton.mp member)
  | cons first rest inductionHypothesis =>
    rw [set] at member
    split at member
    · rename_i same
      rcases List.mem_cons.mp member with rfl | later
      · exact Or.inr (by rw [same])
      · exact Or.inl (List.mem_cons_of_mem _ later)
    · rcases List.mem_cons.mp member with rfl | later
      · exact Or.inl List.mem_cons_self
      · exact (inductionHypothesis later).imp_left (List.mem_cons_of_mem _)

/-- A field is found wherever it stands among others. -/
theorem perm_erase_append {fields : List (String × β)} (distinct : (keys fields).Nodup)
    {key : String} {value : β} (found : get? fields key = some value) :
    fields.Perm (erase fields key ++ [(key, value)]) := by
  induction fields with
  | nil => cases found
  | cons field rest inductionHypothesis =>
    rw [keys, List.map_cons, List.nodup_cons] at distinct
    rw [get?_cons] at found
    split at found
    · rename_i same
      cases found
      have kept : erase (field :: rest) key = rest := by
        unfold erase
        rw [List.filter_cons_of_neg (by simpa using same)]
        exact erase_of_notMem (same ▸ distinct.1)
      rw [kept, show field = (key, field.2) from Prod.ext same rfl]
      exact (List.perm_append_singleton _ _).symm
    · rename_i different
      have kept : erase (field :: rest) key = field :: erase rest key :=
        List.filter_cons_of_pos (by simpa using different)
      rw [kept]
      exact (inductionHypothesis distinct.2 found).cons field

/-! ### Storing records -/

theorem update_cons (fields : List (String × β)) (field : String × β) (more : List (String × β)) :
    update fields (field :: more) = update (set fields field.1 field.2) more := rfl

/-- What holds of a record holds after storing fields if storing one keeps it. -/
theorem update_induction (property : List (String × β) → Prop) {fields more : List (String × β)}
    (holds : property fields)
    (keeps : ∀ before, property before → ∀ field ∈ more, property (set before field.1 field.2)) :
    property (update fields more) := by
  induction more generalizing fields with
  | nil => exact holds
  | cons field rest inductionHypothesis =>
    rw [update_cons]
    exact inductionHypothesis (keeps fields holds field List.mem_cons_self)
      fun before known other member => keeps before known other (List.mem_cons_of_mem _ member)

/-- Storing new keys is storing them behind. -/
theorem update_append_of_notMem {front : List (String × β)} {more : List (String × β)}
    (absent : ∀ key ∈ keys more, key ∉ keys front) (back : List (String × β)) :
    update (front ++ back) more = front ++ update back more := by
  induction more generalizing back with
  | nil => rfl
  | cons field rest inductionHypothesis =>
    rw [update_cons, update_cons, set_append (absent field.1 List.mem_cons_self)]
    exact inductionHypothesis (fun key member => absent key (List.mem_cons_of_mem _ member)) _

theorem update_of_notMem {fields more : List (String × β)}
    (absent : ∀ key ∈ keys more, key ∉ keys fields) :
    update fields more = fields ++ ofPairs more := by
  have appended := update_append_of_notMem absent []
  rwa [List.append_nil] at appended

theorem nodup_keys_ofPairs (pairs : List (String × β)) : (keys (ofPairs pairs)).Nodup :=
  update_induction (fun fields => (keys fields).Nodup) List.nodup_nil
    fun _ distinct _ _ => nodup_keys_set distinct _ _

theorem mem_of_mem_ofPairs {pairs : List (String × β)} {field : String × β}
    (member : field ∈ ofPairs pairs) : field ∈ pairs := by
  refine update_induction (fun fields => ∀ field ∈ fields, field ∈ pairs)
    (fun _ none => (List.not_mem_nil none).elim) ?_ field member
  intro before known other among stored inside
  rcases mem_of_mem_set inside with old | rfl
  · exact known stored old
  · exact among

/-- The fields of a record in which all keys differ are stored as they are. -/
theorem ofPairs_of_nodup {fields : List (String × β)} (distinct : (keys fields).Nodup) :
    ofPairs fields = fields := by
  induction fields with
  | nil => rfl
  | cons field rest inductionHypothesis =>
    rw [keys, List.map_cons, List.nodup_cons] at distinct
    show update ([field] ++ []) rest = _
    rw [update_append_of_notMem, show update [] rest = ofPairs rest from rfl,
      inductionHypothesis distinct.2]
    · rfl
    · intro key member known
      rw [List.mem_singleton.mp known] at member
      exact distinct.1 member

end Record

end Olap
