/-
Cuts that are made by the constructors. A constructor writes the wildcard for every asterisk that stands
in a path by itself, so no path of a cut has an asterisk left. Therefore an asterisk can be written for
the wildcard where cuts are told apart and where they are turned into records, and nothing is confused:
fingerprints agree exactly when the cuts do, and a record is read as the cut that it was written for.
Asterisks and wildcards further down, inside a list or a record, and those that bound a range are left
as they are on both ways.

A range is the exception among records. Its record has a hierarchy, as the records of all cuts do, but
nothing is read of it.
-/

import Mathlib
import Olap.Slice
import Olap.Proofs.Limits
import Olap.Proofs.Points
import Olap.Proofs.Rereading

namespace Olap

/-! ### Paths -/

/-- A path in which every asterisk has become the wildcard. -/
def IsNormalPath (path : List Value) : Prop := ∀ value ∈ path, value ≠ .text "*"

theorem pathElement_ne_asterisk (value : Value) : pathElement value ≠ .text "*" := by
  unfold pathElement
  split
  · exact fun same => nomatch same
  · assumption

theorem isNormalPath_of_normalizePath {d : Value} {path : List Value}
    (normalized : normalizePath d = .ok path) : IsNormalPath path := by
  cases d with
  | null =>
    cases normalized
    exact List.forall_mem_nil _
  | list items =>
    cases normalized
    intro value member
    obtain ⟨item, -, rfl⟩ := List.mem_map.mp member
    exact pathElement_ne_asterisk item
  | record fields =>
    cases normalized
    intro value member
    obtain ⟨field, -, rfl⟩ := List.mem_map.mp member
    exact pathElement_ne_asterisk _
  | _ => cases normalized

/-- A written element of a path is read as it was. -/
theorem pathElement_describeElement {value : Value} (plain : value ≠ .text "*") :
    pathElement (describeElement value) = value := by
  cases value with
  | wildcard => rfl
  | text s =>
    show pathElement (.text s) = .text s
    unfold pathElement
    split
    · rename_i same
      exact absurd same plain
    · rfl
  | _ => rfl

theorem normalizePath_describePath {path : List Value} (normal : IsNormalPath path) :
    normalizePath (describePath path) = .ok path := by
  show Except.ok ((path.map describeElement).map pathElement) = _
  rw [List.map_map]
  refine congrArg _ ((List.map_congr_left fun value member => ?_).trans (List.map_id _))
  exact pathElement_describeElement (normal value member)

namespace Cut

/-! ### What the constructors make -/

/-- A cut of one of the three kinds, along a dimension that has a name, with no asterisk by itself in
its paths. -/
def IsFormed : Cut → Prop
  | point dimension _ path => dimension ≠ "" ∧ IsNormalPath path
  | range dimension .. => dimension ≠ ""
  | set dimension _ paths => dimension ≠ "" ∧ ∀ path ∈ paths, IsNormalPath path
  | bare .. => False

/-- A cut that a constructor of points, ranges or sets makes of some fields. If a finished dimension
stands for its name, it is one that is made of a description. -/
def IsMade (c : Cut) : Prop :=
  ∃ title ∈ ["PointCut", "RangeCut", "SetCut"], ∃ fields : Fields Part,
    (∀ d, Record.get? fields "dimension" = some (.object (.dimension d)) →
      ∃ given, Dimension.ofDescription given [] = .ok d) ∧ ofTitle title fields = .ok c

theorem requireField_ok {fields : Fields Part} {key : String} {β : Type}
    {check : Description → Check β} {b : β} :
    (requireField fields [key] check).result = .ok b ↔
      ∃ d, Record.get? fields key = some d ∧ (check d).result = .ok b := by
  rw [← givenIn_one]
  unfold requireField givenIn
  cases usedKey? [key] fields with
  | none => simp [Check.refuse, Check.result]
  | some used =>
    cases found : Record.get? fields used with
    | none => simp [Check.refuse, Check.result, found]
    | some d => simp [found, Check.result_under]

/-- What is accepted for a dimension is a name. -/
theorem checkDimension_ne_empty {d : Description} {name : String}
    (finished : ∀ dimension, d = .object (.dimension dimension) →
      ∃ given, Dimension.ofDescription given [] = .ok dimension)
    (checked : (checkDimension d).result = .ok name) : name ≠ "" := by
  have written {s : String} (filled : (!s.isEmpty) = true)
      (checked : (Check.accept s).result = .ok name) : name ≠ "" := by
    rw [← Check.result_accept.1 checked]
    rintro rfl
    cases filled
  cases d with
  | text s =>
    unfold checkDimension at checked
    dsimp only [Description.dimension?] at checked
    split at checked
    · rename_i filled
      exact written filled checked
    · cases checked
  | direction d => exact written (by cases d <;> rfl) checked
  | object part =>
    cases part with
    | dimension dimension =>
      obtain ⟨given, made⟩ := finished dimension rfl
      rw [← Check.result_accept.1 checked]
      exact (Dimension.isName_of_ofDescription made).ne_empty
    | _ => cases checked
  | _ =>
    unfold checkDimension at checked
    dsimp only [Description.dimension?] at checked
    split at checked <;> cases checked

theorem pointOfFields_ok {fields : Fields Part} {c : Cut} :
    pointOfFields fields = .ok c ↔
      ∃ dimension hierarchy path, c = point dimension hierarchy path ∧
        (requireField fields ["dimension"] checkDimension).result = .ok dimension ∧
        (checkField fields ["hierarchy"] none checkHierarchy).result = .ok hierarchy ∧
        (checkField fields ["path"] [] checkPath).result = .ok path ∧
        leftOver (sharedKeys ++ [["path"]]) fields = [] := by
  simp only [pointOfFields, Check.result_seq, Check.result_map]
  constructor
  · rintro ⟨_, _, ⟨_, path, ⟨_, hierarchy, ⟨dimension, named, rfl⟩, chosen, rfl⟩, placed, rfl⟩,
      refused, rfl⟩
    exact ⟨dimension, hierarchy, path, rfl, named, chosen, placed, refuseExtra_ok.1 refused⟩
  · rintro ⟨dimension, hierarchy, path, rfl, named, chosen, placed, none⟩
    exact ⟨_, (), ⟨_, path, ⟨_, hierarchy, ⟨dimension, named, rfl⟩, chosen, rfl⟩, placed, rfl⟩,
      refuseExtra_ok.2 none, rfl⟩

theorem rangeOfFields_ok {fields : Fields Part} {c : Cut} :
    rangeOfFields fields = .ok c ↔
      ∃ dimension hierarchy low high, c = range dimension hierarchy low high ∧
        (requireField fields ["dimension"] checkDimension).result = .ok dimension ∧
        (checkField fields ["hierarchy"] none checkHierarchy).result = .ok hierarchy ∧
        (checkField fields ["from_key"] .null
          (fun d => .accept (Description.toValue d))).result = .ok low ∧
        (checkField fields ["to_key"] .null
          (fun d => .accept (Description.toValue d))).result = .ok high ∧
        leftOver (sharedKeys ++ [["from_key"], ["to_key"]]) fields = [] := by
  simp only [rangeOfFields, Check.result_seq, Check.result_map]
  constructor
  · rintro ⟨_, _, ⟨_, high, ⟨_, low, ⟨_, hierarchy, ⟨dimension, named, rfl⟩, chosen, rfl⟩, least,
      rfl⟩, greatest, rfl⟩, refused, rfl⟩
    exact ⟨dimension, hierarchy, low, high, rfl, named, chosen, least, greatest,
      refuseExtra_ok.1 refused⟩
  · rintro ⟨dimension, hierarchy, low, high, rfl, named, chosen, least, greatest, none⟩
    exact ⟨_, (), ⟨_, high, ⟨_, low, ⟨_, hierarchy, ⟨dimension, named, rfl⟩, chosen, rfl⟩, least,
      rfl⟩, greatest, rfl⟩, refuseExtra_ok.2 none, rfl⟩

theorem setOfFields_ok {fields : Fields Part} {c : Cut} :
    setOfFields fields = .ok c ↔
      ∃ dimension hierarchy paths, c = set dimension hierarchy paths ∧
        (requireField fields ["dimension"] checkDimension).result = .ok dimension ∧
        (checkField fields ["hierarchy"] none checkHierarchy).result = .ok hierarchy ∧
        (checkField fields ["paths"] [] checkPaths).result = .ok paths ∧
        leftOver (sharedKeys ++ [["paths"]]) fields = [] := by
  simp only [setOfFields, Check.result_seq, Check.result_map]
  constructor
  · rintro ⟨_, _, ⟨_, paths, ⟨_, hierarchy, ⟨dimension, named, rfl⟩, chosen, rfl⟩, placed, rfl⟩,
      refused, rfl⟩
    exact ⟨dimension, hierarchy, paths, rfl, named, chosen, placed, refuseExtra_ok.1 refused⟩
  · rintro ⟨dimension, hierarchy, paths, rfl, named, chosen, placed, none⟩
    exact ⟨_, (), ⟨_, paths, ⟨_, hierarchy, ⟨dimension, named, rfl⟩, chosen, rfl⟩, placed, rfl⟩,
      refuseExtra_ok.2 none, rfl⟩

theorem bareOfFields_ok {fields : Fields Part} {c : Cut} :
    bareOfFields fields = .ok c ↔
      ∃ dimension hierarchy, c = bare dimension hierarchy ∧
        (requireField fields ["dimension"] checkDimension).result = .ok dimension ∧
        (checkField fields ["hierarchy"] none checkHierarchy).result = .ok hierarchy ∧
        leftOver sharedKeys fields = [] := by
  simp only [bareOfFields, Check.result_seq, Check.result_map]
  constructor
  · rintro ⟨_, _, ⟨_, hierarchy, ⟨dimension, named, rfl⟩, chosen, rfl⟩, refused, rfl⟩
    exact ⟨dimension, hierarchy, rfl, named, chosen, refuseExtra_ok.1 refused⟩
  · rintro ⟨dimension, hierarchy, rfl, named, chosen, none⟩
    exact ⟨_, (), ⟨_, hierarchy, ⟨dimension, named, rfl⟩, chosen, rfl⟩, refuseExtra_ok.2 none, rfl⟩

theorem isNormalPath_of_checkPath {fields : Fields Part} {path : List Value}
    (checked : (checkField fields ["path"] [] checkPath).result = .ok path) :
    IsNormalPath path := by
  rcases checkField_ok checked with rfl | ⟨d, accepted⟩
  · exact List.forall_mem_nil _
  · exact isNormalPath_of_normalizePath (Check.result_ofResult.1 accepted)

theorem isNormalPath_of_checkPaths {fields : Fields Part} {paths : List (List Value)}
    (checked : (checkField fields ["paths"] [] checkPaths).result = .ok paths) :
    ∀ path ∈ paths, IsNormalPath path := by
  rcases checkField_ok checked with rfl | ⟨d, accepted⟩
  · exact List.forall_mem_nil _
  · unfold checkPaths at accepted
    split at accepted
    · cases accepted
      exact List.forall_mem_nil _
    · rw [Check.result_ofResult] at accepted
      split at accepted
      · cases accepted
      · intro path member
        obtain ⟨item, -, read⟩ := exists_of_mem_allOf accepted member
        cases item with
        | datum d => exact isNormalPath_of_normalizePath read
        | pair => cases read

theorem isFormed_of_isMade {c : Cut} (made : c.IsMade) : c.IsFormed := by
  obtain ⟨title, known, fields, finished, built⟩ := made
  have filled {name : String}
      (named : (requireField fields ["dimension"] checkDimension).result = .ok name) :
      name ≠ "" := by
    obtain ⟨d, given, checked⟩ := requireField_ok.1 named
    exact checkDimension_ne_empty (fun dimension same => finished dimension (same ▸ given)) checked
  rcases List.mem_cons.mp known with rfl | known
  · obtain ⟨_, _, _, rfl, named, -, placed, -⟩ := pointOfFields_ok.1 built
    exact ⟨filled named, isNormalPath_of_checkPath placed⟩
  rcases List.mem_cons.mp known with rfl | known
  · obtain ⟨_, _, _, _, rfl, named, -⟩ := rangeOfFields_ok.1 built
    exact filled named
  · rw [List.mem_singleton.mp known] at built
    obtain ⟨_, _, _, rfl, named, -, placed, -⟩ := setOfFields_ok.1 built
    exact ⟨filled named, isNormalPath_of_checkPaths placed⟩

end Cut

/-! ### Values of the same size -/

namespace Datum

variable {sameFloat : Bool} {x y : Value}

/-- Lists agree when their items do, one by one. -/
theorem alikeItems_map_iff {β : Type} {f : β → Value} {agree : β → β → Prop} {xs ys : List β}
    (same : ∀ x ∈ xs, ∀ y ∈ ys, (f x).alikeBy sameFloat (f y) = true ↔ agree x y) :
    alikeItems sameFloat (xs.map f) (ys.map f) = true ↔ List.Forall₂ agree xs ys := by
  induction xs generalizing ys with
  | nil =>
    cases ys with
    | nil => exact iff_of_true rfl .nil
    | cons => exact iff_of_false (fun none => nomatch none) (fun none => nomatch none)
  | cons x rest inductionHypothesis =>
    cases ys with
    | nil => exact iff_of_false (fun none => nomatch none) (fun none => nomatch none)
    | cons y others =>
      rw [List.map_cons, List.map_cons, alikeItems, Bool.and_eq_true, List.forall₂_cons,
        same x List.mem_cons_self y List.mem_cons_self,
        inductionHypothesis fun x member y memberToo =>
          same x (List.mem_cons_of_mem _ member) y (List.mem_cons_of_mem _ memberToo)]

/-- Two ways to write items make no difference when any two items agree in both or in neither. -/
theorem alikeItems_map_congr {β : Type} {f g : β → Value} {xs ys : List β}
    (same : ∀ x ∈ xs, ∀ y ∈ ys, (f x).alikeBy sameFloat (f y) = (g x).alikeBy sameFloat (g y)) :
    alikeItems sameFloat (xs.map f) (ys.map f) = alikeItems sameFloat (xs.map g) (ys.map g) := by
  rw [Bool.eq_iff_iff, alikeItems_map_iff fun x member y memberToo =>
    Bool.eq_iff_iff.mp (same x member y memberToo)]
  exact (alikeItems_map_iff fun _ _ _ _ => Iff.rfl).symm

theorem alikeBy_text (s t : String) : (text s : Value).alikeBy sameFloat (text t) = (s == t) := rfl

theorem alikeBy_ofOption (s t : Option String) :
    (ofOption s : Value).alikeBy sameFloat (ofOption t) = (s == t) := by
  cases s with
  | none => cases t <;> rfl
  | some s =>
    cases t with
    | none => rfl
    | some t => exact alikeBy_text s t

/-- The wildcard agrees with nothing else. -/
theorem alikeBy_wildcard (other : x ≠ .wildcard) :
    (wildcard : Value).alikeBy sameFloat x = false ∧ x.alikeBy sameFloat wildcard = false := by
  cases x with
  | wildcard => exact absurd rfl other
  | object o => exact nomatch o
  | _ => exact ⟨rfl, rfl⟩

/-- An asterisk agrees with nothing else. -/
theorem alikeBy_asterisk (other : x ≠ .text "*") :
    (text "*" : Value).alikeBy sameFloat x = false ∧ x.alikeBy sameFloat (text "*") = false := by
  cases x with
  | text s =>
    have different : s ≠ "*" := fun same => other (same ▸ rfl)
    rw [alikeBy_text, alikeBy_text]
    exact ⟨beq_eq_false_iff_ne.mpr different.symm, beq_eq_false_iff_ne.mpr different⟩
  | direction d => cases d <;> exact ⟨rfl, rfl⟩
  | object o => exact nomatch o
  | _ => exact ⟨rfl, rfl⟩

end Datum

theorem describeElement_of_ne_wildcard {value : Value} (closed : value ≠ .wildcard) :
    describeElement value = value := by
  cases value with
  | wildcard => exact absurd rfl closed
  | _ => rfl

/-- Where no asterisk is left, one can be written for the wildcard. -/
theorem alikeBy_describeElement {sameFloat : Bool} {x y : Value} (plain : x ≠ .text "*")
    (plainToo : y ≠ .text "*") :
    (describeElement x).alikeBy sameFloat (describeElement y) = x.alikeBy sameFloat y := by
  by_cases free : x = .wildcard
  · rw [free]
    by_cases freeToo : y = .wildcard
    · rw [freeToo]
      rfl
    · rw [describeElement_of_ne_wildcard freeToo, (Datum.alikeBy_wildcard freeToo).1]
      exact (Datum.alikeBy_asterisk plainToo).1
  · rw [describeElement_of_ne_wildcard free]
    by_cases freeToo : y = .wildcard
    · rw [freeToo, (Datum.alikeBy_wildcard free).2]
      exact (Datum.alikeBy_asterisk plain).2
    · rw [describeElement_of_ne_wildcard freeToo]

theorem alikeBy_describePath {sameFloat : Bool} {path other : List Value} (normal : IsNormalPath path)
    (normalToo : IsNormalPath other) :
    (describePath path).alikeBy sameFloat (describePath other) =
      Datum.alikeItems sameFloat path other := by
  have same : Datum.alikeItems sameFloat (path.map describeElement) (other.map describeElement) =
      Datum.alikeItems sameFloat (path.map id) (other.map id) :=
    Datum.alikeItems_map_congr fun x member y memberToo =>
      alikeBy_describeElement (normal x member) (normalToo y memberToo)
  rw [List.map_id, List.map_id] at same
  exact same

namespace Cut

/-! ### Fingerprints -/

/-- What a cut says besides its kind, its dimension and its hierarchy. -/
def content : Cut → List Value
  | point _ _ path => [describePath path]
  | range _ _ low high => [low, high]
  | set _ _ paths => [.list (paths.map describePath)]
  | bare .. => []

/-- What a cut of one of the three kinds is told apart by. -/
def mark (c : Cut) : Value :=
  .list (.text c.typeWord :: .text c.dimension :: .ofOption c.hierarchy :: c.content)

theorem fingerprint_eq {c : Cut} (formed : c.IsFormed) : c.fingerprint = .ok c.mark := by
  cases c with
  | bare => cases formed
  | _ => rfl

theorem alikeBy_mark (sameFloat : Bool) (a b : Cut) :
    a.mark.alikeBy sameFloat b.mark =
      (a.typeWord == b.typeWord && a.dimension == b.dimension && a.hierarchy == b.hierarchy &&
        Datum.alikeItems sameFloat a.content b.content) := by
  show (Datum.alikeBy _ _ _ && (Datum.alikeBy _ _ _ && (Datum.alikeBy _ _ _ && _))) = _
  rw [Datum.alikeBy_text, Datum.alikeBy_text, Datum.alikeBy_ofOption, Bool.and_assoc, Bool.and_assoc]

/-- Cuts agree when their marks do. Marks of different kinds begin with different words; of one kind,
they agree in what is written for the wildcard as in everything else. -/
theorem alikeBy_mark_eq (sameFloat : Bool) {a b : Cut} (formed : a.IsFormed)
    (formedToo : b.IsFormed) : a.mark.alikeBy sameFloat b.mark = a.alikeBy sameFloat b := by
  rw [alikeBy_mark]
  cases a with
  | point _ _ path =>
    cases b with
    | point _ _ other =>
      have contents : ((describePath path).alikeBy sameFloat (describePath other) && true) =
          Datum.alikeItems sameFloat path other := by
        rw [Bool.and_true, alikeBy_describePath formed.2 formedToo.2]
      exact congrArg _ contents
    | bare => cases formedToo
    | _ => rfl
  | range _ _ low high =>
    cases b with
    | range _ _ low' high' =>
      have contents : (low.alikeBy sameFloat low' && (high.alikeBy sameFloat high' && true)) =
          (low.alikeBy sameFloat low' && high.alikeBy sameFloat high') := by rw [Bool.and_true]
      exact congrArg _ contents
    | bare => cases formedToo
    | _ => rfl
  | set _ _ paths =>
    cases b with
    | set _ _ others =>
      have contents : (Datum.alikeItems sameFloat (paths.map describePath)
          (others.map describePath) && true) =
            Datum.alikeItems sameFloat (paths.map .list) (others.map .list) := by
        rw [Bool.and_true]
        exact Datum.alikeItems_map_congr fun path member other memberToo =>
          alikeBy_describePath (formed.2 path member) (formedToo.2 other memberToo)
      exact congrArg _ contents
    | bare => cases formedToo
    | _ => rfl
  | bare => cases formed

/-- Cuts that constructors have made are told apart by their fingerprints, and so are slices of such
cuts: fingerprints of two cuts agree exactly when the cuts do, and those of two slices exactly when the
slices have cuts that agree, one by one and in the same order. This is so whether a float that is no
number counts as equal to itself or not. -/
theorem fingerprints_identify (sameFloat : Bool) :
    (∀ a b : Cut, a.IsMade → b.IsMade → ∃ mark other, a.fingerprint = .ok mark ∧
      b.fingerprint = .ok other ∧
        (mark.alikeBy sameFloat other = true ↔ a.alikeBy sameFloat b = true)) ∧
    ∀ s t : Slice, (∀ c ∈ s.cuts, c.IsMade) → (∀ c ∈ t.cuts, c.IsMade) →
      ∃ marks others, s.fingerprint = .ok marks ∧ t.fingerprint = .ok others ∧
        (Datum.alikeItems sameFloat marks others = true ↔
          List.Forall₂ (fun a b : Cut => a.alikeBy sameFloat b = true) s.cuts t.cuts) := by
  refine ⟨fun a b made madeToo => ?_, fun s t made madeToo => ?_⟩
  · have formed := isFormed_of_isMade made
    have formedToo := isFormed_of_isMade madeToo
    exact ⟨_, _, fingerprint_eq formed, fingerprint_eq formedToo,
      Bool.eq_iff_iff.mp (alikeBy_mark_eq sameFloat formed formedToo)⟩
  · refine ⟨_, _, allOf_of_each fun c member => fingerprint_eq (isFormed_of_isMade (made c member)),
      allOf_of_each fun c member => fingerprint_eq (isFormed_of_isMade (madeToo c member)), ?_⟩
    exact Datum.alikeItems_map_iff fun a member b memberToo => Bool.eq_iff_iff.mp
      (alikeBy_mark_eq sameFloat (isFormed_of_isMade (made a member))
        (isFormed_of_isMade (madeToo b memberToo)))

/-- A cut along a dimension that is given by its name. -/
theorem isMade_of_name {c : Cut} {title name : String} {fields : Fields Part}
    (made : ofTitle title fields = .ok c) (known : title ∈ ["PointCut", "RangeCut", "SetCut"])
    (given : Record.get? fields "dimension" = some (.text name)) : c.IsMade := by
  refine ⟨title, known, fields, fun d same => ?_, made⟩
  rw [given] at same
  cases same

/-- The fields of a point in time: a year, any quarter and a month. -/
def monthOfYear (quarter month : Description) : Fields Part :=
  [("dimension", .text "date"), ("path", .list [.int 2023, quarter, month])]

/-- A point is the same with an asterisk for the wildcard, and with `true` for one. -/
theorem fingerprints_identify_january :
    ∃ a b : Cut, ofTitle "PointCut" (monthOfYear (.text "*") (.int 1)) = .ok a ∧
      ofTitle "PointCut" (monthOfYear .wildcard (.bool true)) = .ok b ∧
      ∃ marks others, (Slice.ofCuts default [a]).fingerprint = .ok marks ∧
        (Slice.ofCuts default [b]).fingerprint = .ok others ∧
          Datum.alikeItems false marks others = true := by
  have made : ofTitle "PointCut" (monthOfYear (.text "*") (.int 1)) =
    .ok (point "date" none [.int 2023, .wildcard, .int 1]) := rfl
  have madeToo : ofTitle "PointCut" (monthOfYear .wildcard (.bool true)) =
    .ok (point "date" none [.int 2023, .wildcard, .bool true]) := rfl
  refine ⟨_, _, made, madeToo, ?_⟩
  obtain ⟨marks, others, marked, markedToo, same⟩ := (fingerprints_identify false).2
    (Slice.ofCuts default [_]) (Slice.ofCuts default [_])
    (List.forall_mem_singleton.mpr (isMade_of_name made List.mem_cons_self rfl))
    (List.forall_mem_singleton.mpr (isMade_of_name madeToo List.mem_cons_self rfl))
  exact ⟨marks, others, marked, markedToo, same.mpr (.cons (by decide +kernel) .nil)⟩

/-! ### Records -/

/-- What is read of the record of a cut: a range is read without its hierarchy. -/
def reread : Cut → Cut
  | range dimension _ low high => range dimension none low high
  | c => c

theorem checkDimension_text {name : String} (filled : name ≠ "") :
    (checkDimension (.text name)).result = .ok name := by
  have truthy : (Datum.text name : Description).isTruthy = true := by
    show (!name.isEmpty) = true
    simpa using filled
  show ((if (Datum.text name : Description).isTruthy then _ else _ : Check String)).result = _
  rw [truthy]
  rfl

theorem checkHierarchy_ofOption (hierarchy : Option String) :
    (checkHierarchy (Datum.lift (.ofOption hierarchy))).result = .ok hierarchy := by
  cases hierarchy <;> rfl

theorem toValue_lift (value : Value) : Description.toValue (Datum.lift value) = value :=
  Datum.plain_lift _ value

theorem checkPaths_described {paths : List (List Value)}
    (normal : ∀ path ∈ paths, IsNormalPath path) :
    (checkPaths (Datum.lift (.list (paths.map describePath)))).result = .ok paths := by
  show (Check.ofResult _).result = _
  rw [Check.result_ofResult, toValue_lift]
  show allOf _ ((paths.map describePath).map Item.datum) = _
  rw [List.map_map]
  refine (allOf_map_ok fun path member => ?_).trans (congrArg _ (List.map_id paths))
  exact normalizePath_describePath (normal path member)

theorem byRange_ok {dimension low high : Description} {name : String}
    (named : (checkDimension dimension).result = .ok name) :
    byRange dimension low high = .ok (.range name none low.toValue high.toValue) :=
  rangeOfFields_ok.2 ⟨name, none, _, _, rfl, Check.result_under.2 named, rfl, rfl, rfl, rfl⟩

theorem bySet_ok {dimension paths hierarchy : Description} {name : String}
    {hierarchyName : Option String} {points : List (List Value)}
    (named : (checkDimension dimension).result = .ok name)
    (chosen : (checkHierarchy hierarchy).result = .ok hierarchyName)
    (collected : (checkPaths paths).result = .ok points) :
    bySet dimension paths hierarchy = .ok (.set name hierarchyName points) :=
  setOfFields_ok.2 ⟨name, hierarchyName, points, rfl, Check.result_under.2 named,
    Check.result_under.2 chosen, Check.result_under.2 collected, rfl⟩

theorem ofFields_toRecord {c : Cut} (formed : c.IsFormed) :
    ofFields (Datum.liftFields c.toRecord) = .ok c.reread := by
  cases c with
  | point dimension hierarchy path =>
    show byPoint (.text dimension) (Datum.lift (describePath path))
      (Datum.lift (.ofOption hierarchy)) = _
    refine byPoint_ok (checkDimension_text formed.1) (checkHierarchy_ofOption hierarchy) ?_
    rw [toValue_lift, normalizePath_describePath formed.2]
  | range dimension hierarchy low high =>
    show byRange (.text dimension) (Datum.lift low) (Datum.lift high) = _
    rw [byRange_ok (checkDimension_text formed), toValue_lift, toValue_lift]
    rfl
  | set dimension hierarchy paths =>
    show bySet (.text dimension) (Datum.lift (.list (paths.map describePath)))
      (Datum.lift (.ofOption hierarchy)) = _
    exact bySet_ok (checkDimension_text formed.1) (checkHierarchy_ofOption hierarchy)
      (checkPaths_described formed.2)
  | bare => cases formed

/-- A range that says along which hierarchy it is. -/
def IsRangeAlong (c : Cut) : Prop := c.typeWord = "range" ∧ c.hierarchy ≠ none

theorem reread_eq {c : Cut} (none : ¬c.IsRangeAlong) : c.reread = c := by
  cases c with
  | range dimension hierarchy low high =>
    cases hierarchy with
    | none => rfl
    | some name => exact absurd ⟨rfl, fun same => nomatch same⟩ none
  | _ => rfl

theorem alikeBy_reread {c : Cut} (along : c.IsRangeAlong) (sameFloat : Bool) :
    c.reread.alikeBy sameFloat c = false := by
  obtain ⟨word, named⟩ := along
  cases c with
  | range dimension hierarchy low high =>
    cases hierarchy with
    | none => exact absurd rfl named
    | some name =>
      show (_ && ((none : Option String) == some name) && _) = false
      rw [show ((none : Option String) == some name) = false from rfl, Bool.and_false]
      rfl
  | point | set | bare => simp [typeWord] at word

/-- Every cut that a constructor makes can be read back from its record. It is the same cut, unless it is
a range that says along which hierarchy it is: then it is read as one that does not, and this is another
cut. -/
theorem record_read_back {c : Cut} (made : c.IsMade) :
    ∃ back, ofFields (Datum.liftFields c.toRecord) = .ok back ∧
      (¬c.IsRangeAlong → back = c) ∧
      (c.IsRangeAlong → ∀ sameFloat, back.alikeBy sameFloat c = false) :=
  ⟨c.reread, ofFields_toRecord (isFormed_of_isMade made), reread_eq, alikeBy_reread⟩

/-- A set of points along a hierarchy, one of them with a wildcard. -/
theorem record_read_back_cities : ∃ c,
    ofTitle "SetCut" [("dimension", .text "place"), ("hierarchy", .text "cities"),
      ("paths", .list [.list [.text "AT", .text "*"], .list [.text "DE", .text "Ulm"]])] = .ok c ∧
    ofFields (Datum.liftFields c.toRecord) = .ok c := by
  have made : ofTitle "SetCut" [("dimension", .text "place"), ("hierarchy", .text "cities"),
      ("paths", .list [.list [.text "AT", .text "*"], .list [.text "DE", .text "Ulm"]])] =
    .ok (set "place" (some "cities") [[.text "AT", .wildcard], [.text "DE", .text "Ulm"]]) := rfl
  refine ⟨_, made, ?_⟩
  obtain ⟨back, read, same, -⟩ := record_read_back (isMade_of_name made (by simp) rfl)
  rw [read, same fun along => absurd along.1 (by simp [typeWord])]

/-- The record of a range is not read as the range when it is along a hierarchy. -/
theorem exists_range_read_otherwise : ∃ c back,
    ofTitle "RangeCut" [("dimension", .text "date"), ("from_key", .int 1), ("to_key", .int 2),
      ("hierarchy", .text "months")] = .ok c ∧
    ofFields (Datum.liftFields c.toRecord) = .ok back ∧ back.alike c = false :=
  ⟨_, _, rfl, rfl, rfl⟩

end Cut

end Olap
