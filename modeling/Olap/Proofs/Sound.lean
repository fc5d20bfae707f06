/-
Sound cubes. The dimensions of a cube that is made of descriptions are settled, so whatever is looked up
in them has what queries need: a hierarchy has at least one level, has its levels once and from among
those of its dimension, and every level has an attribute that is its key.
-/

import Olap.Proofs.Family
import Olap.Proofs.Settled

namespace Olap

/-! ### What is looked up in a settled dimension -/

/-- What the checks of a level require is found in it. -/
theorem Level.exists_attributeNamed {level : Level} {role text : String} {name : Option String}
    (required : requireAttribute role level.attributeNames name (some text) = .ok ())
    (filled : text ≠ "") : ∃ a, level.attributeNamed (.text text) = .ok a := by
  obtain ⟨a, member, same⟩ := List.mem_map.mp (mem_of_requireAttribute required filled)
  unfold attributeNamed
  cases looked : level.attributes.find? (isNamed ·.name (.text text)) with
  | some found => exact ⟨found, rfl⟩
  | none =>
    have other := List.find?_eq_none.mp looked a member
    exact absurd (by simp [isNamed, Datum.text?, same]) other

/-- A settled level has its key. -/
theorem Level.IsSettled.exists_keyAttribute {level : Level} (settled : level.IsSettled) :
    ∃ key, level.keyAttribute = .ok key := exists_attributeNamed settled.keyed settled.key

/-- A settled level has its label. -/
theorem Level.IsSettled.exists_labelAttribute {level : Level} (settled : level.IsSettled) :
    ∃ label, level.labelAttributeOf = .ok label :=
  exists_attributeNamed settled.labelled settled.label

namespace Dimension

variable {d : Dimension} {h : Hierarchy} {a : Attribute}

/-- A hierarchy that is looked up is one of the dimension, or it is made of the only level. -/
theorem mem_of_hierarchy {name : Description} (found : d.hierarchy name = .ok h) :
    h ∈ d.hierarchies ∨ ∃ level, d.levels = [level] ∧ h = d.flatHierarchy level := by
  unfold hierarchy at found
  split at found
  · unfold defaultHierarchy at found
    split at found
    · rename_i chosen looked
      cases found
      unfold chosenHierarchy? at looked
      split at looked
      · split at looked
        · cases looked
        · exact Or.inl (List.mem_of_find?_eq_some looked)
      · cases looked
    · split at found
      · rename_i only
        cases found
        exact Or.inl (by rw [only]; exact List.mem_singleton_self _)
      · cases found
      · rename_i level none only
        cases found
        exact Or.inr ⟨level, only, rfl⟩
      · cases found
      · cases found
  · split at found
    · rename_i looked
      cases found
      exact Or.inl (List.mem_of_find?_eq_some looked)
    · cases found

/-- Attributes of a settled dimension belong to it and measure nothing. -/
theorem IsSettled.attribute (settled : d.IsSettled) (member : a ∈ d.attributes) :
    a.dimension = some d.name ∧ a.kind = .attribute := by
  obtain ⟨level, inside, member⟩ := List.mem_flatMap.mp member
  obtain ⟨known, owned⟩ := settled.levels level inside
  exact ⟨owned a member, (known.attributes a member).2⟩

theorem IsSettled.ref_eq (settled : d.IsSettled) (member : a ∈ d.attributes) :
    a.ref = some (d.name ++ "." ++ shownName a.name) := by
  have filled : d.name.isEmpty = false := by simpa using settled.name.ne_empty
  unfold Attribute.ref
  rw [(settled.attribute member).1]
  dsimp only
  rw [filled]
  rfl

/-- What queries need of a hierarchy: it has levels, each of them once and with a key, and they are
levels of its dimension. -/
structure Provides (d : Dimension) (h : Hierarchy) : Prop where
  filled : h.levels ≠ []
  once : h.levels.Nodup
  own : h.levels ⊆ d.levels
  keyed : ∀ level ∈ h.levels, ∃ key, level.keyAttribute = .ok key

theorem IsSettled.provides (settled : d.IsSettled) {name : Description}
    (found : d.hierarchy name = .ok h) : d.Provides h := by
  rcases mem_of_hierarchy found with declared | ⟨level, only, rfl⟩
  · obtain ⟨hierarchy, looked⟩ := settled.hierarchies h declared
    have own : h.levels ⊆ d.levels := fun level member =>
      List.mem_of_find?_eq_some (looked level member)
    exact ⟨hierarchy.filled, .of_map _ (nodup_of_hasRepeats hierarchy.once), own,
      fun level member => (settled.levels level (own member)).1.exists_keyAttribute⟩
  · have member : level ∈ d.levels := by
      rw [only]
      exact List.mem_singleton_self level
    refine ⟨List.cons_ne_nil _ _, List.nodup_singleton _, ?_, ?_⟩
    · exact fun other same => List.mem_singleton.mp same ▸ member
    · exact List.forall_mem_singleton.mpr (settled.levels level member).1.exists_keyAttribute

end Dimension

/-! ### Sound cubes -/

namespace Cube

/-- A cube whose dimensions are what descriptions make. -/
def IsSound (c : Cube) : Prop := ∀ d ∈ c.dimensions, d.IsSettled

variable {c : Cube} {d : Dimension} {h : Hierarchy}

theorem mem_of_dimension {name : String} (held : c.dimension name = .ok d) :
    d ∈ c.dimensions := by
  unfold dimension at held
  split at held
  · cases held
  · split at held
    · rename_i looked
      cases held
      exact List.mem_of_find?_eq_some looked
    · cases held

theorem mem_of_dimensionOf {wanted : Description} (held : c.dimensionOf wanted = .ok d) :
    d ∈ c.dimensions := by
  unfold dimensionOf at held
  dsimp only at held
  split at held
  · cases held
  · split at held
    · exact mem_of_dimension held
    · cases held

/-- What a point is resolved to has what queries need. -/
theorem IsSound.provides_of_resolve (sound : c.IsSound) {cut : Cut}
    (resolved : cut.resolve c = .ok (d, h)) : d.Provides h := by
  obtain ⟨held, known, resolved⟩ := Result.bind_ok.1 resolved
  obtain ⟨hierarchy, found, resolved⟩ := Result.bind_ok.1 resolved
  cases resolved
  exact (sound d (mem_of_dimension known)).provides found

theorem IsSound.provides_of_dimensionOf (sound : c.IsSound) {dimension hierarchy : Description}
    (held : c.dimensionOf dimension = .ok d) (found : d.hierarchy hierarchy = .ok h) :
    d.Provides h := (sound d (mem_of_dimensionOf held)).provides found

end Cube

/-- The cubes of a model that is made of data and owns its dimensions are sound. -/
theorem Model.IsSettled.isSound {m : Model} (settled : m.IsSettled) (owns : m.OwnsDimensions)
    {c : Cube} (member : c ∈ m.cubes) : c.IsSound := fun d held =>
  settled.dimensions d (List.mem_of_find?_eq_some (owns.owned c member d held))

/-! ### What is made of data is sound -/

/-- A link that is described by data is a name, or holds a dimension that is settled. -/
theorem DimensionLink.isSettled_of_check {d : Description} (plain : d.IsPlain) {dimension : Dimension}
    (checked : (check (.datum d)).result = .ok (.finished dimension)) : dimension.IsSettled := by
  cases d with
  | record fields =>
    unfold check at checked
    dsimp only [Description.dimension?, Datum.text?] at checked
    split at checked
    · rename_i known made
      cases checked
      exact Dimension.isSettled_ofFields (Datum.isPlain_record.mp plain) made
    · cases checked
    · cases checked
  | object => exact absurd plain Datum.not_isPlain_object
  | _ => cases checked

namespace Cube

/-- All links that are described by data hold settled dimensions. -/
theorem isSettled_of_checkLinks {fields : Fields Part} (plain : ArePlain fields)
    {spellings : List String} {links : List DimensionLink}
    (checked : (checkField fields spellings [] (Coerce.list DimensionLink.check)).result = .ok links)
    {d : Dimension} (linked : .finished d ∈ links) : d.IsSettled := by
  rcases checkField_ok_iff.1 checked with ⟨-, rfl⟩ | ⟨given, present, accepted⟩
  · cases linked
  · have datum := plain.of_givenIn present
    cases given with
    | list items =>
      obtain ⟨item, inside, passed⟩ := Check.exists_of_mem_eachFrom accepted linked
      obtain ⟨entry, member, rfl⟩ := List.mem_map.mp inside
      exact DimensionLink.isSettled_of_check (Datum.isPlain_list datum entry member) passed
    | object => exact absurd datum Datum.not_isPlain_object
    | _ => cases accepted

open Edit in
/-- What a cube of its own is given are the dimensions of its links. -/
theorem mem_or_mem_links_of_addAll {c after : Cube} {registry : List Dimension}
    (alone : c.owner = .standalone) {links : List DimensionLink}
    (done : (addAll registry links).made c = .ok after) :
    ∀ d ∈ after.dimensions, d ∈ c.dimensions ∨ .finished d ∈ links := by
  induction links generalizing c with
  | nil =>
    cases done
    exact fun d member => Or.inl member
  | cons link rest inductionHypothesis =>
    obtain ⟨d, middle, added, done⟩ := made_bind_ok.1 done
    obtain ⟨resolved, -, grown⟩ := addDimension_ok.1 added
    have given : link = .finished d := by
      unfold resolveLink at resolved
      rw [alone] at resolved
      cases link with
      | named => cases resolved
      | finished => exact congrArg DimensionLink.finished (Except.ok.inj resolved)
    intro other member
    rcases inductionHypothesis (grown ▸ alone) done other member with before | later
    · rw [grown] at before
      rcases List.mem_append.mp before with held | last
      · exact Or.inl held
      · rw [List.mem_singleton.mp last, given]
        exact Or.inr List.mem_cons_self
    · exact Or.inr (List.mem_cons_of_mem _ later)

theorem isSound_ofFields {fields : Fields Part} (plain : ArePlain fields) {c : Cube}
    (made : ofFields fields = .ok c) : c.IsSound := by
  obtain ⟨draft, checked, completed⟩ := ofFields_ok.1 made
  obtain ⟨-, -, -, -, -, -, -, -, linked⟩ := checkDraft_ok.1 checked
  obtain ⟨name, -, -, held⟩ := ofDraft_ok.1 completed
  intro d member
  rcases mem_or_mem_links_of_addAll rfl held d member with none | given
  · cases none
  · exact isSettled_of_checkLinks plain linked given

theorem IsSound.of_becomes {allowed : Dimension → Prop} {c after : Cube} (sound : c.IsSound)
    (becomes : Becomes allowed c after) (settled : ∀ d, allowed d → d.IsSettled) : after.IsSound :=
  fun d member => (becomes.added d member).elim (sound d) (settled d)

end Cube

namespace Model

open Edit

/-- A model whose dimensions, and those of its cubes, are what descriptions make. -/
structure HoldsSettled (m : Model) : Prop where
  dimensions : ∀ d ∈ m.dimensions, d.IsSettled
  cubes : ∀ c ∈ m.cubes, c.IsSound

theorem keeps_holdsSettled_addDimension {d : Description} (plain : d.IsPlain) :
    Keeps HoldsSettled (addDimension d) := by
  refine keeps_of_isAtomic (isAtomic_addDimension d) fun m dimension after holds done => ?_
  obtain ⟨made, -, rfl⟩ := addDimension_ok.1 done
  exact { holds with
    dimensions := List.forall_mem_append.mpr ⟨holds.dimensions,
      List.forall_mem_singleton.mpr (Dimension.isSettled_toAdd plain made)⟩ }

theorem keeps_holdsSettled_createCube {given info : Description} (plain : given.IsPlain)
    (data : ∀ fields named, info.asFields = .ok (fields, named) → ArePlain fields) :
    Keeps HoldsSettled (createCube given info) := by
  refine keeps_of_isAtomic (isAtomic_createCube given info) fun m c after holds done => ?_
  obtain ⟨key, fields, named, bare, entries, -, -, described, made, -, linked, rfl⟩ :=
    createCube_ok.1 done
  obtain ⟨-, owned, -, -⟩ := bareCube_ok made
  have sound : bare.IsSound := by
    unfold bareCube at made
    split at made
    · cases made
    · obtain ⟨before, created, rfl⟩ := Result.map_ok.1 made
      have known : before.IsSound := Cube.isSound_ofFields
        (((data fields named described).erase "dimensions").set "name" plain)
        (createFrom_record_ok.1 created)
      exact known
  refine { holds with
    cubes := List.forall_mem_append.mpr ⟨holds.cubes, List.forall_mem_singleton.mpr ?_⟩ }
  exact sound.of_becomes (Cube.becomes_of_linkAll owned linked) fun d registered =>
    holds.dimensions d (List.mem_of_find?_eq_some registered)

/-- All cubes of a model that is made of data are sound, those with dimensions of their own, too. -/
theorem isSound_ofRecord {d : Description} (plain : d.IsPlain) {m : Model}
    (made : ofRecord d = .ok m) {c : Cube} (member : c ∈ m.cubes) : c.IsSound := by
  obtain ⟨_, _, -, holds⟩ := exists_draft_of_ofRecord (fun _ _ => HoldsSettled)
    (fun _ _ => ⟨List.forall_mem_nil _, List.forall_mem_nil _⟩)
    (fun _ _ _ => keeps_holdsSettled_addDimension)
    (fun _ _ _ _ => keeps_holdsSettled_createCube) plain made
  exact holds.cubes c member

end Model

namespace Market

/-- A level whose name is not blank is settled. -/
theorem isSettled_level {name : String} (named : IsName (some name)) : (level name).IsSettled where
  name := named
  extra _ _ := List.not_mem_nil
  filled := List.cons_ne_nil _ _
  attributes := List.forall_mem_singleton.mpr ⟨⟨named, fun _ _ => List.not_mem_nil⟩, rfl⟩
  key := named.ne_empty
  label := named.ne_empty
  once := rfl
  keyed := if_pos (by simp [level, Level.attach, Level.attributeNames, Attribute.attach,
    Attribute.ofName])
  labelled := if_pos (by simp [level, Level.attach, Level.attributeNames, Attribute.attach,
    Attribute.ofName])
  ordered := rfl

theorem isName_of_strip {name : String} (filled : (Text.strip name).isEmpty = false) :
    IsName (some name) := by
  rintro text ⟨⟩
  exact filled

theorem isSettled_place : place.IsSettled where
  name := isName_of_strip (by decide)
  extra _ _ := List.not_mem_nil
  levels := by
    have own (name : String) : ∀ a ∈ (level name).attributes, a.dimension = some place.name :=
      List.forall_mem_singleton.mpr rfl
    exact List.forall_mem_cons.mpr ⟨⟨isSettled_level (isName_of_strip (by decide)), own _⟩,
      List.forall_mem_singleton.mpr ⟨isSettled_level (isName_of_strip (by decide)), own _⟩⟩
  levelsOnce := by decide
  hierarchies := List.forall_mem_singleton.mpr
    ⟨⟨isName_of_strip (by decide), fun _ _ => List.not_mem_nil, List.cons_ne_nil _ _, by decide⟩,
      List.forall_mem_cons.mpr ⟨rfl, List.forall_mem_singleton.mpr rfl⟩⟩
  hierarchiesOnce := rfl

theorem isSettled_sales : sales.IsSettled where
  name := isName_of_strip (by decide)
  extra _ _ := List.not_mem_nil
  measures := List.forall_mem_singleton.mpr (Attribute.isFresh_ofName (isName_of_strip (by decide)))
  details := List.forall_mem_nil _
  names := rfl

theorem isSound_sales : sales.IsSound := List.forall_mem_singleton.mpr isSettled_place

end Market

end Olap
