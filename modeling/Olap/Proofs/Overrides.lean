/-
Options that override accepted ones. Accepted options are written under their own names, as they were
accepted, and the overrides are stored among them before everything is accepted once more. That is as if
the overrides had been given from the start: what was accepted for an option is accepted again as it is
written, and the names of options are what they are written under. Only the operators have a second name,
and under it they do not override what is written under the first.
-/

import Mathlib
import Olap.Proofs.Consistency
import Olap.Proofs.Listings
import Olap.Proofs.Written

namespace Olap

/-! ### Records that are changed -/

namespace Record

variable {β : Type}

/-- What is found of the fields that are kept. -/
theorem get?_filter (kept : String → Bool) (fields : List (String × β)) (key : String) :
    get? (fields.filter fun field => kept field.1) key =
      if kept key then get? fields key else none := by
  unfold get?
  rw [List.find?_filter]
  split
  · rename_i keeps
    refine congrArg (fun found => Option.map Prod.snd (List.find? found fields)) (funext fun field => ?_)
    by_cases same : field.1 = key
    · simp [same, keeps]
    · simp [same]
  · rename_i drops
    rw [List.find?_eq_none.mpr, Option.map_none]
    rintro field - both
    rw [decide_eq_true_iff, beq_iff_eq] at both
    exact drops (both.2 ▸ both.1)

theorem get?_without_of_kept {dropped : List String} {key : String} (kept : key ∉ dropped)
    (fields : List (String × β)) : get? (without dropped fields) key = get? fields key := by
  rw [without, get?_filter (!dropped.contains ·), if_pos (by simpa using kept)]

theorem get?_without_of_dropped {dropped : List String} {key : String} (gone : key ∈ dropped)
    (fields : List (String × β)) : get? (without dropped fields) key = none := by
  rw [without, get?_filter (!dropped.contains ·), if_neg (by simpa using gone)]

theorem mem_keys_without {dropped : List String} {fields : List (String × β)} {key : String} :
    key ∈ keys (without dropped fields) ↔ key ∈ keys fields ∧ key ∉ dropped := by
  rw [← contains_eq_true_iff, contains_without, Bool.and_eq_true, contains_eq_true_iff, and_comm,
    Bool.not_eq_true', List.contains_eq_mem, decide_eq_false_iff_not]

/-- What is stored last is found, and before it what was there. -/
theorem get?_update (fields more : List (String × β)) (key : String) :
    get? (update fields more) key = (get? (ofPairs more) key).or (get? fields key) := by
  induction more generalizing fields with
  | nil => rfl
  | cons field rest inductionHypothesis =>
    have alone := inductionHypothesis (set [] field.1 field.2)
    rw [ofPairs, update_cons, inductionHypothesis, update_cons, alone]
    by_cases same : field.1 = key
    · rw [← same, get?_set_self, get?_set_self, Option.or_assoc, Option.some_or]
    · rw [get?_set_of_ne _ _ same, get?_set_of_ne _ _ same, show get? [] key = (none : Option β) from rfl,
        Option.or_none]

theorem mem_keys_iff {fields : List (String × β)} {key : String} :
    key ∈ keys fields ↔ (get? fields key).isSome = true := by
  rw [← contains_eq_isSome_get?, contains_eq_true_iff]

theorem mem_keys_update {fields more : List (String × β)} {key : String} :
    key ∈ keys (update fields more) ↔ key ∈ keys fields ∨ key ∈ keys more := by
  induction more generalizing fields with
  | nil => simp [update, keys]
  | cons field rest inductionHypothesis =>
    rw [update_cons, inductionHypothesis, mem_keys_set, or_assoc]
    exact or_congr_right List.mem_cons.symm

theorem mem_keys_ofPairs {more : List (String × β)} {key : String} :
    key ∈ keys (ofPairs more) ↔ key ∈ keys more := by
  refine mem_keys_update.trans (or_iff_right fun none => ?_)
  cases none

end Record

section Spellings

variable {β : Type} {spellings : List String} {fields others : List (String × β)}

/-- Whether a field is given under some spelling. -/
theorem isSome_usedKey?_iff :
    (usedKey? spellings fields).isSome = true ↔ ∃ key ∈ spellings, key ∈ Record.keys fields := by
  unfold usedKey?
  rw [List.find?_isSome]
  simp only [Record.contains_eq_true_iff]

/-- Spellings are used alike of records that have the same under each of them. -/
theorem usedKey?_congr (same : ∀ key ∈ spellings, Record.get? fields key = Record.get? others key) :
    usedKey? spellings fields = usedKey? spellings others := by
  unfold usedKey?
  induction spellings with
  | nil => rfl
  | cons key rest inductionHypothesis =>
    rw [List.find?_cons, List.find?_cons, Record.contains_eq_isSome_get?,
      Record.contains_eq_isSome_get?, same key List.mem_cons_self,
      inductionHypothesis fun other member => same other (List.mem_cons_of_mem _ member)]

theorem givenIn_congr (same : ∀ key ∈ spellings, Record.get? fields key = Record.get? others key) :
    givenIn spellings fields = givenIn spellings others := by
  unfold givenIn
  rw [usedKey?_congr same]
  cases used : usedKey? spellings others with
  | none => rfl
  | some key => exact same key (mem_of_usedKey? used)

end Spellings

/-! ### What was accepted is accepted as it is written -/

namespace Options

theorem checkText_written (text : Option String) :
    (Coerce.optional Coerce.text (Datum.lift (.ofOption text) : Description)).result = .ok text := by
  cases text <;> rfl

theorem checkInt_written (number : Option Int) :
    (Coerce.optional Coerce.int (Datum.lift (number.elim .null .int) : Description)).result =
      .ok number := by
  cases number <;> rfl

theorem checkDimension_written (name : Option String) :
    (checkDimension (Datum.lift (.ofOption name))).result = .ok name := by
  cases name <;> rfl

/-- The word for a direction is accepted again, which may have been the direction itself. -/
theorem checkDirection_written {what : String} {word : Option String}
    (known : parseDirection what (directionWords what) (.ofOption word) =
      .ok (directionOf (directionWords what) word)) :
    (checkDirection what (Datum.lift (.ofOption word))).result = .ok word := by
  unfold checkDirection
  rw [Datum.lift_ofOption, known, ← Datum.lift_ofOption]
  exact checkText_written word

theorem checkLevels_written (names : Option (List String)) :
    (checkLevels (Datum.lift (names.elim .null fun names => .list (names.map .text)))).result =
      .ok names := by
  cases names with
  | none => rfl
  | some names =>
    rw [Option.elim_some, Datum.lift_texts]
    exact AggregateOptions.checkLevels_texts names

theorem checkOperator_text {name : String}
    (known : Record.contains aggregationOperators name = true) :
    (checkOperator (.datum (.text name))).result = .ok name := by
  unfold checkOperator
  dsimp only [Description.itemKey, Description.lookupKey, Datum.text?]
  rw [Option.filter_some, if_pos known]
  rfl

theorem checkOperators_written {names : Option (List String)}
    (known : ∀ all, names = some all → ∀ name ∈ all, Record.contains aggregationOperators name = true) :
    (checkOperators (Datum.lift (names.elim .null fun names => .list (names.map .text)))).result =
      .ok names := by
  cases names with
  | none => rfl
  | some names =>
    have each : (Check.eachFrom checkOperator 0 ((names.map Datum.text).map Item.datum)).result =
        .ok names := by
      rw [List.map_map]
      exact Check.eachFrom_map_ok (fun name member => checkOperator_text (known names rfl name member)) 0
    rw [Option.elim_some, Datum.lift_texts]
    exact Check.result_map.2 ⟨names, each, rfl⟩

theorem checkLimit_written {limit : Option String}
    (known : ∀ kind, limit = some kind → kind = "rank" ∨ kind = "top_10") :
    (checkLimit (Datum.lift (.ofOption limit))).result = .ok limit := by
  cases limit with
  | none => rfl
  | some kind =>
    rcases known kind rfl with rfl | rfl
    · rfl
    · rfl

end Options

namespace AggregateOptions

/-! ### The final options -/

/-- All spellings of the options that a record gives. -/
def spellingsOf (fields : Fields Part) : List String :=
  (knownKeys.filter fun spellings => (usedKey? spellings fields).isSome).flatten

/-- Each option as the overrides give it, under whatever spelling, or else as it was given before. -/
def finalFields (fields overrides : Fields Part) : Fields Part :=
  Record.update (Record.without (spellingsOf overrides) fields) overrides

/-- The options as they are written, with the overrides among them. -/
def overriddenFields (o : AggregateOptions) (overrides : Fields Part) : Fields Part :=
  Record.update (Datum.liftFields o.givenRecord) overrides

/-- Operators that were given are overridden under their second name only. -/
def RespellsOperators (fields overrides : Fields Part) : Prop :=
  "operators" ∈ Record.keys overrides ∧ "aggregations" ∉ Record.keys overrides ∧
    ("aggregations" ∈ Record.keys fields ∨ "operators" ∈ Record.keys fields)

variable {fields overrides : Fields Part} {o r : AggregateOptions} {spellings others : List String}
  {head key : String}

/-! ### Names of options -/

/-- No two options share a spelling. -/
theorem eq_of_mem_spellings {spellings others : List String} (known : spellings ∈ knownKeys)
    (knownToo : others ∈ knownKeys) (spelled : key ∈ spellings) (spelledToo : key ∈ others) :
    spellings = others := by
  have apart : ∀ spellings ∈ knownKeys, ∀ others ∈ knownKeys, ∀ key ∈ spellings, key ∈ others →
      spellings = others := by decide
  exact apart spellings known others knownToo key spelled spelledToo

/-- Only the operators have a second name. -/
theorem spellings_cases : ∀ spellings ∈ knownKeys,
    spellings = ["aggregations", "operators"] ∨ ∃ key, spellings = [key] := by
  have few : ∀ spellings ∈ knownKeys,
      spellings = ["aggregations", "operators"] ∨ spellings.length = 1 := by decide
  exact fun spellings known => (few spellings known).imp_right List.length_eq_one_iff.mp

theorem exists_cons_of_mem (known : spellings ∈ knownKeys) :
    ∃ head others, spellings = head :: others := by
  rcases spellings_cases spellings known with rfl | ⟨key, rfl⟩
  · exact ⟨_, _, rfl⟩
  · exact ⟨key, [], rfl⟩

theorem mem_spellingsOf (known : spellings ∈ knownKeys) (spelled : key ∈ spellings) :
    key ∈ spellingsOf fields ↔ (usedKey? spellings fields).isSome = true := by
  unfold spellingsOf
  rw [List.mem_flatten]
  constructor
  · rintro ⟨others, member, spelledToo⟩
    obtain ⟨knownToo, used⟩ := List.mem_filter.mp member
    rwa [eq_of_mem_spellings known knownToo spelled spelledToo]
  · exact fun used => ⟨spellings, List.mem_filter.mpr ⟨known, used⟩, spelled⟩

theorem mem_givenNames (known : head :: others ∈ knownKeys) :
    head ∈ givenNames knownKeys fields ↔ (usedKey? (head :: others) fields).isSome = true := by
  unfold givenNames
  rw [List.mem_map]
  constructor
  · rintro ⟨spellings, member, rfl⟩
    obtain ⟨knownToo, used⟩ := List.mem_filter.mp member
    obtain ⟨first, rest, rfl⟩ := exists_cons_of_mem knownToo
    rwa [eq_of_mem_spellings known knownToo List.mem_cons_self List.mem_cons_self]
  · exact fun used => ⟨_, List.mem_filter.mpr ⟨known, used⟩, rfl⟩

theorem exists_of_mem_givenNames (member : key ∈ givenNames knownKeys fields) :
    ∃ others, key :: others ∈ knownKeys := by
  obtain ⟨spellings, inside, rfl⟩ := List.mem_map.mp member
  have known := List.mem_of_mem_filter inside
  obtain ⟨head, others, rfl⟩ := exists_cons_of_mem known
  exact ⟨others, known⟩

/-! ### Options as they are written -/

/-- Options are written that were given. -/
theorem get?_givenRecord (key : String) :
    Record.get? (Datum.liftFields o.givenRecord : Fields Part) key =
      if key ∈ o.given then Record.get? (Datum.liftFields o.all) key else none := by
  unfold givenRecord
  rw [Datum.get?_liftFields, Record.get?_filter (o.given.contains ·), Datum.get?_liftFields]
  by_cases given : key ∈ o.given
  · rw [if_pos given, if_pos (List.contains_iff_mem.mpr given)]
  · rw [if_neg given, if_neg (by simpa using given), Option.map_none]

/-- The names of all options are their first spellings. -/
theorem mem_keys_all (known : head :: others ∈ knownKeys) :
    head ∈ Record.keys (Datum.liftFields o.all : Fields Part) := by
  have names : Record.keys (Datum.liftFields o.all : Fields Part) = knownKeys.map (·.headD "") := rfl
  rw [names]
  exact List.mem_map.mpr ⟨_, known, rfl⟩

theorem mem_keys_givenRecord (given : o.given = givenNames knownKeys fields) :
    key ∈ Record.keys (Datum.liftFields o.givenRecord : Fields Part) ↔ key ∈ givenNames knownKeys fields := by
  rw [Record.mem_keys_iff, get?_givenRecord, given]
  constructor
  · intro found
    by_contra absent
    rw [if_neg absent] at found
    cases found
  · intro named
    obtain ⟨others, known⟩ := exists_of_mem_givenNames named
    rw [if_pos named]
    exact Record.mem_keys_iff.mp (mem_keys_all known)

/-- The same options are written that were given. -/
theorem isSome_usedKey?_givenRecord (given : o.given = givenNames knownKeys fields)
    (known : head :: others ∈ knownKeys) :
    (usedKey? (head :: others) (Datum.liftFields o.givenRecord : Fields Part)).isSome = true ↔
      (usedKey? (head :: others) fields).isSome = true := by
  rw [isSome_usedKey?_iff, ← mem_givenNames known]
  constructor
  · rintro ⟨key, spelled, member⟩
    have named := (mem_keys_givenRecord given).mp member
    obtain ⟨rest, knownToo⟩ := exists_of_mem_givenNames named
    have same := eq_of_mem_spellings known knownToo spelled List.mem_cons_self
    rwa [(List.cons.inj same).1]
  · exact fun named => ⟨head, List.mem_cons_self, (mem_keys_givenRecord given).mpr named⟩

/-- What was accepted for an option is accepted of the options as they are written. -/
theorem checkField_givenRecord {β : Type} {check : Description → Check (Option β)} {b : Option β}
    {value : Description} (given : o.given = givenNames knownKeys fields) (known : head :: others ∈ knownKeys)
    (accepted : (checkField fields (head :: others) none check).result = .ok b)
    (written : Record.get? (Datum.liftFields o.all) head = some value)
    (again : (check value).result = .ok b) :
    (checkField (Datum.liftFields o.givenRecord) (head :: others) none check).result = .ok b := by
  by_cases used : (usedKey? (head :: others) fields).isSome = true
  · have named : head ∈ givenNames knownKeys fields := (mem_givenNames known).mpr used
    refine checkField_ok_iff.mpr (Or.inr ⟨value, ?_, again⟩)
    unfold givenIn
    rw [usedKey?_of_first ((mem_keys_givenRecord given).mpr named), Option.bind_some,
      get?_givenRecord, given, if_pos named, written]
  · have unwritten := mt (isSome_usedKey?_givenRecord given known).mp used
    rw [Option.not_isSome_iff_eq_none] at used unwritten
    rw [← accepted]
    unfold checkField
    rw [used, unwritten]

/-! ### Options that are overridden -/

/-- The name of an option that is overridden under another name was not given before, unless the operators
were and are spelled anew. -/
theorem not_mem_givenNames (apart : ¬RespellsOperators fields overrides)
    (known : spellings ∈ knownKeys) (spelled : key ∈ spellings)
    (overridden : (usedKey? spellings overrides).isSome = true) (unstored : key ∉ Record.keys overrides) :
    key ∉ givenNames knownKeys fields := by
  intro named
  obtain ⟨others, first⟩ := exists_of_mem_givenNames named
  obtain rfl := eq_of_mem_spellings known first spelled List.mem_cons_self
  obtain ⟨other, spelledToo, stored⟩ := isSome_usedKey?_iff.mp overridden
  obtain ⟨before, spelledBefore, given⟩ := isSome_usedKey?_iff.mp ((mem_givenNames known).mp named)
  -- Only the operators can be overridden under another name than they were given under.
  rcases spellings_cases _ known with operators | ⟨only, single⟩
  · rw [operators] at spelledToo spelledBefore
    obtain ⟨rfl, -⟩ := List.cons.inj operators
    refine apart ⟨?_, unstored, ?_⟩
    · rcases List.mem_pair.mp spelledToo with rfl | rfl
      · exact absurd stored unstored
      · exact stored
    · rcases List.mem_pair.mp spelledBefore with rfl | rfl
      · exact Or.inl given
      · exact Or.inr given
  · rw [single] at spelled spelledToo
    rw [List.mem_singleton.mp spelled] at unstored
    exact unstored (List.mem_singleton.mp spelledToo ▸ stored)

/-- An overridden option is what the overrides give for it. -/
theorem get?_overridden (given : o.given = givenNames knownKeys fields)
    (apart : ¬RespellsOperators fields overrides) (known : spellings ∈ knownKeys)
    (spelled : key ∈ spellings) (overridden : (usedKey? spellings overrides).isSome = true) :
    Record.get? (overriddenFields o overrides) key =
      Record.get? (finalFields fields overrides) key := by
  unfold overriddenFields finalFields
  rw [Record.get?_update, Record.get?_update,
    Record.get?_without_of_dropped ((mem_spellingsOf known spelled).mpr overridden), Option.or_none]
  by_cases stored : key ∈ Record.keys overrides
  · obtain ⟨value, found⟩ :=
      Option.isSome_iff_exists.mp (Record.mem_keys_iff.mp (Record.mem_keys_ofPairs.mpr stored))
    rw [found, Option.some_or]
  · have unwritten : Record.get? (Datum.liftFields o.givenRecord : Fields Part) key = none := by
      refine Record.get?_eq_none_iff.mpr fun member => ?_
      exact not_mem_givenNames apart known spelled overridden stored
        ((mem_keys_givenRecord given).mp member)
    rw [unwritten, Option.or_none]

theorem get?_ofPairs_of_kept (spelled : key ∈ spellings)
    (kept : ¬(usedKey? spellings overrides).isSome = true) :
    Record.get? (Record.ofPairs overrides) key = none :=
  Record.get?_eq_none_iff.mpr fun stored =>
    kept (isSome_usedKey?_iff.mpr ⟨key, spelled, Record.mem_keys_ofPairs.mp stored⟩)

/-- An option that is not overridden is as it was written. -/
theorem get?_overriddenFields_of_kept (o : AggregateOptions) (spelled : key ∈ spellings)
    (kept : ¬(usedKey? spellings overrides).isSome = true) :
    Record.get? (overriddenFields o overrides) key =
      Record.get? (Datum.liftFields o.givenRecord) key := by
  unfold overriddenFields
  rw [Record.get?_update, get?_ofPairs_of_kept spelled kept, Option.none_or]

/-- An option that is not overridden is as it was given. -/
theorem get?_finalFields_of_kept (fields : Fields Part) (known : spellings ∈ knownKeys)
    (spelled : key ∈ spellings) (kept : ¬(usedKey? spellings overrides).isSome = true) :
    Record.get? (finalFields fields overrides) key = Record.get? fields key := by
  unfold finalFields
  rw [Record.get?_update, get?_ofPairs_of_kept spelled kept, Option.none_or,
    Record.get?_without_of_kept (mt (mem_spellingsOf known spelled).mp kept)]

/-- An option is accepted of the overridden options as it is of the final ones. -/
theorem checkField_overridden {β : Type} {check : Description → Check (Option β)} {b c : Option β}
    {value : Description} (given : o.given = givenNames knownKeys fields)
    (apart : ¬RespellsOperators fields overrides) (known : head :: others ∈ knownKeys)
    (accepted : (checkField fields (head :: others) none check).result = .ok b)
    (written : Record.get? (Datum.liftFields o.all) head = some value)
    (again : (check value).result = .ok b) :
    (checkField (overriddenFields o overrides) (head :: others) none check).result = .ok c ↔
      (checkField (finalFields fields overrides) (head :: others) none check).result = .ok c := by
  by_cases overridden : (usedKey? (head :: others) overrides).isSome = true
  · exact checkField_ok_congr (givenIn_congr fun key spelled =>
      get?_overridden given apart known spelled overridden)
  · have before := checkField_givenRecord given known accepted written again
    rw [checkField_ok_congr (givenIn_congr fun _ spelled =>
        get?_overriddenFields_of_kept o spelled overridden),
      checkField_ok_congr (givenIn_congr fun _ spelled =>
        get?_finalFields_of_kept fields known spelled overridden), before, accepted]

/-- The same options are given in the end. -/
theorem givenNames_overridden (given : o.given = givenNames knownKeys fields)
    (apart : ¬RespellsOperators fields overrides) :
    givenNames knownKeys (overriddenFields o overrides) =
      givenNames knownKeys (finalFields fields overrides) := by
  refine congrArg (List.map _) (List.filter_congr fun spellings known => ?_)
  by_cases overridden : (usedKey? spellings overrides).isSome = true
  · rw [usedKey?_congr fun key spelled => get?_overridden given apart known spelled overridden]
  · rw [usedKey?_congr fun _ spelled => get?_overriddenFields_of_kept o spelled overridden,
      usedKey?_congr fun _ spelled => get?_finalFields_of_kept fields known spelled overridden]
    obtain ⟨head, others, rfl⟩ := exists_cons_of_mem known
    exact Bool.eq_iff_iff.mpr (isSome_usedKey?_givenRecord given known)

/-- Nothing is left over of the overridden options when nothing is of the final ones. -/
theorem leftOver_overridden (given : o.given = givenNames knownKeys fields)
    (none : leftOver knownKeys fields = []) (apart : ¬RespellsOperators fields overrides) :
    leftOver knownKeys (overriddenFields o overrides) = [] ↔
      leftOver knownKeys (finalFields fields overrides) = [] := by
  have alike : ∀ {key : String} {spellings : List String}, key ∈ Record.keys overrides →
      spellings ∈ knownKeys → key ∈ spellings →
        usedKey? spellings (overriddenFields o overrides) =
          usedKey? spellings (finalFields fields overrides) := by
    intro key spellings stored known spelled
    have overridden := isSome_usedKey?_iff.mpr ⟨key, spelled, stored⟩
    exact usedKey?_congr fun key spelled => get?_overridden given apart known spelled overridden
  rw [leftOver_eq_nil_iff, leftOver_eq_nil_iff]
  constructor
  · intro used key member
    rcases Record.mem_keys_update.mp member with before | stored
    · -- What is kept was used for an option that is not overridden, and still is.
      obtain ⟨inside, kept⟩ := Record.mem_keys_without.mp before
      obtain ⟨spellings, known, found⟩ := leftOver_eq_nil_iff.mp none key inside
      have unchanged := mt (mem_spellingsOf known (mem_of_usedKey? found)).mpr kept
      refine ⟨spellings, known, ?_⟩
      rwa [usedKey?_congr fun _ spelled => get?_finalFields_of_kept fields known spelled unchanged]
    · obtain ⟨spellings, known, found⟩ := used key (Record.mem_keys_update.mpr (Or.inr stored))
      exact ⟨spellings, known, alike stored known (mem_of_usedKey? found) ▸ found⟩
  · intro used key member
    rcases Record.mem_keys_update.mp member with before | stored
    · -- What was written is the first spelling of an option, so it is used.
      obtain ⟨others, known⟩ := exists_of_mem_givenNames ((mem_keys_givenRecord given).mp before)
      exact ⟨_, known, usedKey?_of_first member others⟩
    · obtain ⟨spellings, known, found⟩ := used key (Record.mem_keys_update.mpr (Or.inr stored))
      exact ⟨spellings, known, (alike stored known (mem_of_usedKey? found)).trans found⟩

/-- The operators are left over that are written under one name and overridden under the other. -/
theorem leftOver_overridden_of_respells (given : o.given = givenNames knownKeys fields)
    (respells : RespellsOperators fields overrides) :
    leftOver knownKeys (overriddenFields o overrides) ≠ [] := by
  obtain ⟨second, -, before⟩ := respells
  have group : ["aggregations", "operators"] ∈ knownKeys := by decide
  have used : (usedKey? ["aggregations", "operators"] fields).isSome = true := by
    rw [isSome_usedKey?_iff]
    exact before.elim (fun first => ⟨_, List.mem_cons_self, first⟩)
      fun second => ⟨_, List.mem_cons_of_mem _ (List.mem_singleton_self _), second⟩
  have written : "aggregations" ∈ Record.keys (overriddenFields o overrides) :=
    Record.mem_keys_update.mpr (Or.inl ((mem_keys_givenRecord given).mpr
      ((mem_givenNames group).mpr used)))
  intro none
  obtain ⟨spellings, known, found⟩ :=
    leftOver_eq_nil_iff.mp none "operators" (Record.mem_keys_update.mpr (Or.inr second))
  obtain rfl := eq_of_mem_spellings known group (mem_of_usedKey? found)
    (List.mem_cons_of_mem _ (List.mem_singleton_self _))
  rw [usedKey?_of_first written] at found
  exact absurd found (by decide)

/-- A limit that was checked is one of those that are implemented. -/
theorem IsChecked.limit_known (checked : IsChecked fields o) :
    ∀ kind, o.limit = some kind → kind = "rank" ∨ kind = "top_10" := by
  intro kind given
  rcases checkField_ok checked.limit with absent | ⟨d, passed⟩
  · cases given.symm.trans absent
  · exact checkLimit_ok (given ▸ passed)

/-- Operators that were checked are known. -/
theorem IsChecked.operators_known (checked : IsChecked fields o) :
    ∀ all, o.aggregations = some all →
      ∀ name ∈ all, Record.contains aggregationOperators name = true := by
  intro all given
  rcases checkField_ok checked.aggregations with absent | ⟨d, passed⟩
  · cases given.symm.trans absent
  · exact Options.checkOperators_ok (given ▸ passed)

/-- Overridden options are checked like the final ones. -/
theorem isChecked_overridden (checked : IsChecked fields o)
    (apart : ¬RespellsOperators fields overrides) :
    IsChecked (overriddenFields o overrides) r ↔ IsChecked (finalFields fields overrides) r := by
  have directed := Options.checkDirection_written (parseDirection_of_checkField checked.orderDirection)
  have sorted := Options.checkDirection_written (parseDirection_of_checkField checked.limitSort)
  rw [isChecked_iff, isChecked_iff, QueryOptions.isChecked_iff, QueryOptions.isChecked_iff,
    givenNames_overridden checked.given apart,
    checkField_overridden checked.given apart (by decide) checked.orderBy rfl
      (Options.checkText_written _),
    checkField_overridden checked.given apart (by decide) checked.orderDirection rfl directed,
    checkField_overridden checked.given apart (by decide) checked.page rfl
      (Options.checkInt_written _),
    checkField_overridden checked.given apart (by decide) checked.pageSize rfl
      (Options.checkInt_written _),
    checkField_overridden checked.given apart (by decide) checked.rowDimension rfl
      (Options.checkDimension_written _),
    checkField_overridden checked.given apart (by decide) checked.rowLevels rfl
      (Options.checkLevels_written _),
    checkField_overridden checked.given apart (by decide) checked.aggregations rfl
      (Options.checkOperators_written checked.operators_known),
    checkField_overridden checked.given apart (by decide) checked.limit rfl
      (Options.checkLimit_written checked.limit_known),
    checkField_overridden checked.given apart (by decide) checked.limitValue rfl
      (Options.checkInt_written _),
    checkField_overridden checked.given apart (by decide) checked.limitSort rfl sorted,
    checkField_overridden checked.given apart (by decide) checked.limitAggregation rfl
      (Options.checkText_written _)]

/-! ### Accepting -/

theorem reportInvalid_ok {β : Type} {result : Result β} {b : β} :
    Options.reportInvalid result = .ok b ↔ result = .ok b := by
  unfold Options.reportInvalid
  split
  · exact ⟨fun failed => (by cases failed), fun made => (by cases made)⟩
  · rfl

theorem accept_record_ok : accept (.record fields) [] = .ok r ↔ ofFields fields = .ok r :=
  reportInvalid_ok

/-- Options that are not overridden stay what they are, which is what they were accepted of. -/
theorem accept_object_nil (made : ofFields fields = .ok o) :
    accept (.object (.aggregateOptions o)) [] = .ok r ↔ ofFields (finalFields fields []) = .ok r := by
  have none : finalFields fields [] = fields := List.filter_eq_self.mpr fun _ _ => rfl
  rw [none, made]
  rfl

theorem accept_object_ok (some : overrides ≠ []) :
    accept (.object (.aggregateOptions o)) overrides = .ok r ↔
      ofFields (overriddenFields o overrides) = .ok r := by
  cases overrides with
  | nil => exact absurd rfl some
  | cons field rest => exact reportInvalid_ok

/-- Overriding accepted options is accepting the final options: whatever is accepted of one is accepted of
the other. But operators that were given can not be overridden under their second name. -/
theorem override_iff_final (made : accept (.record fields) [] = .ok o) (overrides : Fields Part) :
    (¬RespellsOperators fields overrides → ∀ r,
      accept (.object (.aggregateOptions o)) overrides = .ok r ↔
        accept (.record (finalFields fields overrides)) [] = .ok r) ∧
    (RespellsOperators fields overrides → ∀ r,
      accept (.object (.aggregateOptions o)) overrides ≠ .ok r) := by
  have built := accept_record_ok.mp made
  obtain ⟨⟨checked, none⟩, -⟩ := ofFields_ok.1 built
  constructor
  · intro apart r
    rw [accept_record_ok]
    by_cases bare : overrides = []
    · subst bare
      exact accept_object_nil built
    · rw [accept_object_ok bare, ofFields_ok, ofFields_ok, isChecked_overridden checked apart,
        leftOver_overridden checked.given none apart]
  · intro respells r accepted
    have some : overrides ≠ [] := by
      rintro rfl
      cases respells.1
    obtain ⟨⟨-, nothing⟩, -⟩ := ofFields_ok.1 ((accept_object_ok some).mp accepted)
    exact leftOver_overridden_of_respells checked.given respells nothing

/-- Sums of the cities of a country, by country first. -/
def sumsByCity : Fields Part :=
  [("operators", .text "sum"), ("row_dimension", .text "place"),
    ("row_levels", .list [.text "country", .text "city"]), ("order_direction", .direction .desc)]

/-- Counts of the three best countries, as overrides of other options. -/
def countsOfBest : Fields Part :=
  [("aggregations", .list [.text "count"]), ("row_levels", .text "country"), ("limit", .text "rank"),
    ("limit_value", .text "3"), ("limit_aggregation", .text "count")]

theorem override_iff_final_countsOfBest :
    ∃ o r, accept (.record sumsByCity) [] = .ok o ∧ ¬RespellsOperators sumsByCity countsOfBest ∧
      accept (.object (.aggregateOptions o)) countsOfBest = .ok r ∧
      accept (.record (finalFields sumsByCity countsOfBest)) [] = .ok r ∧ r.operators = ["count"] ∧
      r.levels = ["country"] ∧ r.limitRank = some 3 ∧ r.direction = .desc := by
  obtain ⟨o, made⟩ : ∃ o, accept (.record sumsByCity) [] = .ok o := ⟨_, rfl⟩
  have apart : ¬RespellsOperators sumsByCity countsOfBest := fun respells =>
    respells.2.1 (by decide)
  obtain ⟨r, final⟩ : ∃ r, accept (.record (finalFields sumsByCity countsOfBest)) [] = .ok r :=
    ⟨_, rfl⟩
  have overridden := ((override_iff_final made countsOfBest).1 apart r).mpr final
  refine ⟨o, r, made, apart, overridden, final, ?_⟩
  cases final
  exact ⟨rfl, rfl, rfl, rfl⟩

/-- Counts are not accepted instead of sums when they are given under the second name. -/
theorem exists_final_not_override :
    ∃ o r, accept (.record [("aggregations", .list [.text "sum"])]) [] = .ok o ∧
      accept (.record (finalFields [("aggregations", .list [.text "sum"])]
        [("operators", .list [.text "count"])])) [] = .ok r ∧
      accept (.object (.aggregateOptions o)) [("operators", .list [.text "count"])] =
        fail (.optionsInvalid [⟨[.field "operators"], .extraForbidden⟩]) :=
  ⟨_, _, rfl, rfl, rfl⟩

end AggregateOptions

end Olap
