/-
The registry of a model. A model keeps dimensions and cubes under their names, and a cube gets its
dimensions by name, so whatever a cube holds under a name is what the model has registered under it.
This is said of every change for itself: a change that fails leaves the model as it was, and a change
that succeeds leaves names different and cubes with dimensions of the model. So it holds in every state
that changes lead to.

There is one way around the registry. A description of a cube may give dimensions under a second
spelling, which the model does not look at; then the cube is made with dimensions of its own and belongs
to the model afterwards.
-/

import Mathlib
import Olap.Proofs.Changes
import Olap.Proofs.Fields

namespace Olap

/-! ### Dimensions of a cube -/

theorem name_of_findDimension? {name : String} {registry : List Dimension} {d : Dimension}
    (found : findDimension? name registry = some d) : d.name = name := by
  simpa using List.find?_some found

theorem concat_ne_self {β : Type} (items : List β) (item : β) : items ++ [item] ≠ items :=
  fun same => List.cons_ne_nil _ _ (List.append_right_eq_self.mp same)

theorem filter_ne_self {key : String} {dimensions : List Dimension}
    (held : dimensions.any (·.name == key) = true) :
    dimensions.filter (·.name != key) ≠ dimensions := by
  intro same
  obtain ⟨d, member, named⟩ := List.any_eq_true.mp held
  have kept := List.filter_eq_self.mp same d member
  rw [bne, named] at kept
  cases kept

namespace Cube

open Edit

/-- A cube after dimensions were taken out of it and dimensions of some kind were added. -/
structure Becomes (allowed : Dimension → Prop) (c after : Cube) : Prop where
  same : after = { c with dimensions := after.dimensions }
  distinct : (c.dimensions.map (·.name)).Nodup → (after.dimensions.map (·.name)).Nodup
  added : ∀ d ∈ after.dimensions, d ∈ c.dimensions ∨ allowed d

variable {allowed : Dimension → Prop} {c middle after : Cube} {registry : List Dimension}

theorem Becomes.name (becomes : Becomes allowed c after) : after.name = c.name := by
  rw [becomes.same]

theorem Becomes.owner (becomes : Becomes allowed c after) : after.owner = c.owner := by
  rw [becomes.same]

theorem Becomes.refl (c : Cube) : Becomes allowed c c :=
  ⟨rfl, id, fun _ member => Or.inl member⟩

theorem Becomes.trans (first : Becomes allowed c middle) (later : Becomes allowed middle after) :
    Becomes allowed c after where
  same := by rw [later.same, first.same]
  distinct := later.distinct ∘ first.distinct
  added d member := (later.added d member).elim (first.added d) Or.inr

/-- A dimension is held once. -/
theorem becomes_of_fresh {d : Dimension} (may : allowed d)
    (fresh : (findDimension? d.name c.dimensions).isSome = false) :
    Becomes allowed c { c with dimensions := c.dimensions ++ [d] } := by
  refine ⟨rfl, fun distinct => ?_, fun other member => ?_⟩
  · refine nodup_map_concat distinct fun other member same => ?_
    rw [Bool.eq_false_iff, Ne, findDimension?, List.find?_isSome] at fresh
    exact fresh ⟨other, member, beq_iff_eq.mpr same⟩
  · rcases List.mem_append.mp member with before | last
    · exact Or.inl before
    · rw [List.mem_singleton.mp last]
      exact Or.inr may

theorem addDimension_ok {link : DimensionLink} {d : Dimension} :
    perform (addDimension registry link) c = (.ok d, after) ↔
      c.resolveLink registry link = .ok d ∧ (findDimension? d.name c.dimensions).isSome = false ∧
        after = { c with dimensions := c.dimensions ++ [d] } := by
  constructor
  · intro done
    obtain ⟨_, _, ⟨⟩, done⟩ := perform_bind_ok.1 done
    obtain ⟨found, _, required, done⟩ := perform_bind_ok.1 done
    obtain ⟨resolved, rfl⟩ := perform_require_ok.1 required
    obtain ⟨_, _, ⟨⟩, done⟩ := perform_bind_ok.1 done
    dsimp only at done
    split at done
    · cases done
    · rename_i fresh
      cases done
      exact ⟨resolved, Bool.eq_false_iff.mpr fresh, rfl⟩
  · rintro ⟨resolved, fresh, rfl⟩
    refine perform_bind_ok.2 ⟨c, c, rfl, perform_bind_ok.2 ⟨d, c,
      perform_require_ok.2 ⟨resolved, rfl⟩, perform_bind_ok.2 ⟨c, c, rfl, ?_⟩⟩⟩
    dsimp only
    rw [fresh]
    rfl

/-- A cube of a model is given dimensions by their names. -/
theorem resolveLink_ok {model : Option String} (owned : c.owner = .ofModel model)
    {link : DimensionLink} {d : Dimension} :
    c.resolveLink registry link = .ok d ↔
      ∃ name, link = .named name ∧ findDimension? name registry = some d := by
  unfold resolveLink
  rw [owned]
  cases link with
  | named name => cases found : findDimension? name registry <;> simp [DimensionLink.name, found, fail]
  | finished given =>
    cases found : findDimension? given.name registry <;> simp [DimensionLink.name, found, fail]

/-- A cube of a model is given dimensions that are registered. -/
theorem becomes_of_addDimension {model : Option String} (owned : c.owner = .ofModel model)
    {link : DimensionLink} {d : Dimension}
    (done : perform (addDimension registry link) c = (.ok d, after)) :
    Becomes (fun d => findDimension? d.name registry = some d) c after := by
  obtain ⟨resolved, fresh, rfl⟩ := addDimension_ok.1 done
  obtain ⟨name, rfl, found⟩ := (resolveLink_ok owned).1 resolved
  refine becomes_of_fresh ?_ fresh
  rw [name_of_findDimension? found]
  exact found

theorem becomes_of_linkAll {model : Option String} (owned : c.owner = .ofModel model)
    {entries : List (Item Part)} (done : (Model.linkAll registry entries).made c = .ok after) :
    Becomes (fun d => findDimension? d.name registry = some d) c after := by
  induction entries generalizing c with
  | nil =>
    cases done
    exact Becomes.refl _
  | cons entry rest inductionHypothesis =>
    obtain ⟨link, _, read, done⟩ := made_bind_ok.1 done
    obtain ⟨-, rfl⟩ := perform_require_ok.1 read
    obtain ⟨_, middle, added, done⟩ := made_bind_ok.1 done
    have first := becomes_of_addDimension owned added
    exact first.trans (inductionHypothesis (first.owner.trans owned) done)

/-- A cube of its own is given any dimensions. -/
theorem becomes_of_addAll {links : List DimensionLink}
    (done : (addAll registry links).made c = .ok after) : Becomes (fun _ => True) c after := by
  induction links generalizing c with
  | nil =>
    cases done
    exact Becomes.refl _
  | cons link rest inductionHypothesis =>
    obtain ⟨_, middle, added, done⟩ := made_bind_ok.1 done
    obtain ⟨-, fresh, rfl⟩ := addDimension_ok.1 added
    exact (becomes_of_fresh trivial fresh).trans (inductionHypothesis done)

theorem removeDimension_ok {name : Description} {u : Unit}
    (done : perform (removeDimension name) c = (.ok u, after)) :
    ∃ key, c.hasDimension key = true ∧
      after = { c with dimensions := c.dimensions.filter (·.name != key) } := by
  obtain ⟨_, _, ⟨⟩, done⟩ := perform_bind_ok.1 done
  obtain ⟨looked, _, required, done⟩ := perform_bind_ok.1 done
  obtain ⟨-, rfl⟩ := perform_require_ok.1 required
  split at done
  · rename_i key found
    cases done
    exact ⟨key, (Option.filter_eq_some_iff.mp found).2, rfl⟩
  · cases done

theorem becomes_of_removeDimension {name : Description} {u : Unit}
    (done : perform (removeDimension name) c = (.ok u, after)) : Becomes allowed c after := by
  obtain ⟨key, -, rfl⟩ := removeDimension_ok done
  exact ⟨rfl, fun distinct => distinct.sublist (List.filter_sublist.map _),
    fun _ member => Or.inl (List.mem_of_mem_filter member)⟩

end Cube

/-- A description of a cube that gives no dimensions under the second spelling. -/
def Description.NamesDimensions (info : Description) : Prop :=
  ∀ fields named, info.asFields = .ok (fields, named) →
    Record.contains fields "dimension_links" = false

theorem Description.asFields_record (fields : Fields Part) :
    asFields (.record fields) = .ok (fields, true) := by
  cases fields <;> rfl

theorem Description.entries_names (names : List String) :
    entries (.list (names.map .text)) = .ok (names.map fun name => .datum (.text name)) := by
  cases names with
  | nil => rfl
  | cons name rest =>
    show Except.ok (((name :: rest).map _).map Item.datum) = _
    rw [List.map_map]
    rfl

theorem Description.lookupKey_of_text {d : Description} {text : String} {key : Option String}
    (given : d.text? = some text) (keyed : d.lookupKey = .ok key) : key = some text := by
  cases d with
  | text | direction =>
    cases keyed
    exact given
  | _ => cases given

/-- The descriptions of cubes in the description of a model. -/
def Description.cubeEntries (d : Description) : List Description :=
  match d with
  | .record fields =>
    ((givenIn ["cubes", "cube_descs"] fields).bind
      fun given => (namedObjects "cube" given).toOption).getD []
  | _ => []

theorem Description.cubeEntries_of_checkDraft {fields : Fields Part} {draft : Model.Draft}
    (checked : (Model.checkDraft fields).result = .ok draft) :
    cubeEntries (.record fields) = draft.cubes := by
  unfold cubeEntries
  rcases checkField_ok_iff.1 (Model.checkDraft_ok.1 checked).2.2.2 with
    ⟨absent, empty⟩ | ⟨given, present, accepted⟩
  · simp [absent, empty]
  · simp [present, Check.result_ofResult.1 accepted, Except.toOption]

theorem Description.namesDimensions_null : NamesDimensions .null := by
  intro fields named described
  cases described
  rfl

theorem Description.namesDimensions_record {fields : Fields Part} :
    NamesDimensions (.record fields) ↔ Record.contains fields "dimension_links" = false := by
  cases fields with
  | nil =>
    refine iff_of_true ?_ rfl
    intro _ _ described
    cases described
    rfl
  | cons =>
    refine ⟨fun names => names _ true rfl, ?_⟩
    intro absent _ _ described
    cases described
    exact absent

theorem Description.namesDimensions_erase {fields : Fields Part}
    (names : NamesDimensions (.record fields)) (key : String) :
    NamesDimensions (.record (Record.erase fields key)) := by
  rw [namesDimensions_record, Record.contains, List.any_eq_false] at names ⊢
  exact fun field member => names field (List.mem_of_mem_filter member)

namespace Model

open Edit

variable {m after : Model}

/-- A cube that belongs to a model but was not linked yet has the name it is registered under, and
no dimensions unless the description gives some. -/
theorem bareCube_ok {m : Model} {name : Description} {fields : Fields Part} {named : Bool}
    {bare : Cube} (made : m.bareCube name fields named = .ok bare) :
    name.text? = some bare.name ∧ bare.owner = .ofModel m.name ∧
      (bare.dimensions.map (·.name)).Nodup ∧
      (Record.contains fields "dimension_links" = false → bare.dimensions = []) := by
  unfold bareCube at made
  split at made
  · cases made
  · obtain ⟨c, created, rfl⟩ := Result.map_ok.1 made
    obtain ⟨draft, checked, completed⟩ := Cube.ofFields_ok.1 (createFrom_record_ok.1 created)
    obtain ⟨cubeName, present, -, held⟩ := Cube.ofDraft_ok.1 completed
    obtain ⟨nameChecked, -, -, -, -, -, -, -, linked⟩ := Cube.checkDraft_ok.1 checked
    have becomes := Cube.becomes_of_addAll held
    refine ⟨?_, rfl, becomes.distinct List.nodup_nil, fun absent => ?_⟩
    · rw [present, checkNameField, checkField_ok_iff, givenIn_one] at nameChecked
      have given : Record.get? (override (Record.erase fields "dimensions") [("name", name)]) "name" =
          some name := Record.get?_set_self _ _ _
      rw [given] at nameChecked
      rcases nameChecked with ⟨⟨⟩, -⟩ | ⟨d, same, accepted⟩
      cases same
      rcases checkName_ok.1 accepted with ⟨-, ⟨⟩⟩ | ⟨text, given, -, ⟨⟩⟩
      rw [given]
      exact congrArg some becomes.name.symm
    · rw [checkField_ok_iff, givenIn_two] at linked
      have none : (Record.get? (override (Record.erase fields "dimensions") [("name", name)])
          "dimensions").or (Record.get? (override (Record.erase fields "dimensions")
          [("name", name)]) "dimension_links") = none := by
        show ((Record.get? (Record.set _ "name" name) "dimensions").or
          (Record.get? (Record.set _ "name" name) "dimension_links")) = none
        rw [Record.get?_set_of_ne _ _ (by decide), Record.get?_set_of_ne _ _ (by decide),
          Record.get?_erase_self, Record.get?_erase_of_ne _ (by decide)]
        rw [Record.contains_eq_isSome_get?, Option.isSome_eq_false_iff, Option.isNone_iff_eq_none]
          at absent
        exact absent
      rw [none] at linked
      rcases linked with ⟨-, empty⟩ | ⟨_, ⟨⟩, -⟩
      rw [empty] at held
      cases held
      rfl

/-! ### What all models are -/

/-- Dimensions and cubes of a model all have different names, and so have the dimensions of a cube.
The cubes belong to the model. -/
structure IsRegistry (m : Model) : Prop where
  dimensions : (m.dimensions.map (·.name)).Nodup
  cubes : (m.cubes.map (·.name)).Nodup
  held : ∀ c ∈ m.cubes, (c.dimensions.map (·.name)).Nodup
  owner : ∀ c ∈ m.cubes, c.owner = .ofModel m.name

/-- The dimensions of all cubes are the ones that are registered in the model. -/
structure OwnsDimensions (m : Model) : Prop extends IsRegistry m where
  owned : ∀ c ∈ m.cubes, ∀ d ∈ c.dimensions, findDimension? d.name m.dimensions = some d

theorem ownsDimensions_empty (name : Option String) (header : Header) :
    OwnsDimensions ⟨name, header, [], []⟩ where
  dimensions := List.nodup_nil
  cubes := List.nodup_nil
  held := List.forall_mem_nil _
  owner := List.forall_mem_nil _
  owned := List.forall_mem_nil _

/-- A registered dimension is answered by its name. -/
theorem IsRegistry.dimension_eq {d : Dimension} (known : m.IsRegistry) (member : d ∈ m.dimensions) :
    m.dimension (.text d.name) = .ok d := by
  have found : findDimension? d.name m.dimensions = some d :=
    find?_of_mem_of_nodup known.dimensions member
  have key : Description.lookupKey (.text d.name) = .ok (some d.name) := rfl
  rw [Model.dimension, key]
  dsimp only [bind, Except.bind, Option.bind]
  rw [found]
  rfl

/-- A cube is answered by its name. -/
theorem IsRegistry.cube_eq {c : Cube} (known : m.IsRegistry) (member : c ∈ m.cubes) :
    m.cube (.text c.name) = .ok c := by
  have key : Description.lookupKey (.text c.name) = .ok (some c.name) := rfl
  rw [Model.cube, key]
  dsimp only [bind, Except.bind, Option.bind]
  rw [find?_of_mem_of_nodup known.cubes member]
  rfl

/-! ### What changes keep -/

theorem isRegistry_of_addDimension {d : Description} {dimension : Dimension} (known : m.IsRegistry)
    (done : perform (addDimension d) m = (.ok dimension, after)) : after.IsRegistry := by
  obtain ⟨-, absent, rfl⟩ := addDimension_ok.1 done
  refine { known with dimensions := nodup_map_concat known.dimensions fun other member same => ?_ }
  rw [hasDimension, List.any_eq_false] at absent
  exact absent other member (beq_iff_eq.mpr same)

theorem ownsDimensions_of_addDimension {d : Description} {dimension : Dimension}
    (owns : m.OwnsDimensions) (done : perform (addDimension d) m = (.ok dimension, after)) :
    after.OwnsDimensions := by
  refine { isRegistry_of_addDimension owns.toIsRegistry done with owned := ?_ }
  obtain ⟨-, -, rfl⟩ := addDimension_ok.1 done
  intro c member held inside
  have found := owns.owned c member held inside
  unfold findDimension? at found ⊢
  rw [List.find?_append, found]
  rfl

theorem isRegistry_of_removeDimension {name : Description} {u : Unit} (known : m.IsRegistry)
    (done : perform (removeDimension name) m = (.ok u, after)) : after.IsRegistry := by
  obtain ⟨key, -, -, rfl⟩ := removeDimension_ok done
  exact { known with dimensions := known.dimensions.sublist (List.filter_sublist.map _) }

/-- A dimension that a cube holds is not taken out. -/
theorem ownsDimensions_of_removeDimension {name : Description} {u : Unit}
    (owns : m.OwnsDimensions) (done : perform (removeDimension name) m = (.ok u, after)) :
    after.OwnsDimensions := by
  refine { isRegistry_of_removeDimension owns.toIsRegistry done with owned := ?_ }
  obtain ⟨key, -, unused, rfl⟩ := removeDimension_ok done
  intro c member held inside
  have different : held.name ≠ key := by
    have absent := unused c member
    rw [Cube.hasDimension, List.any_eq_false] at absent
    exact fun same => absent held inside (beq_iff_eq.mpr same)
  have found := owns.owned c member held inside
  unfold findDimension? at found ⊢
  rw [List.find?_filter, ← found]
  refine congrArg (List.find? · m.dimensions) (funext fun other => ?_)
  by_cases same : other.name = held.name
  · simp [same, different]
  · simp [same]

/-- A new cube belongs to the model. Its dimensions are registered, unless the description gives some
in the way that the model does not look at. -/
theorem createCube_cube {name info : Description} {c : Cube}
    (done : perform (createCube name info) m = (.ok c, after)) :
    after = { m with cubes := m.cubes ++ [c] } ∧ (∀ other ∈ m.cubes, other.name ≠ c.name) ∧
      c.owner = .ofModel m.name ∧ (c.dimensions.map (·.name)).Nodup ∧
      (info.NamesDimensions →
        ∀ d ∈ c.dimensions, findDimension? d.name m.dimensions = some d) := by
  obtain ⟨key, fields, named, bare, entries, keyed, absent, described, made, -, linked, rfl⟩ :=
    createCube_ok.1 done
  obtain ⟨given, owned, distinct, empty⟩ := bareCube_ok made
  have becomes := Cube.becomes_of_linkAll owned linked
  refine ⟨rfl, fun other member same => ?_, becomes.owner.trans owned, becomes.distinct distinct,
    fun names d member => ?_⟩
  · rw [Description.lookupKey_of_text given keyed, Option.any_some, hasCube, List.any_eq_false]
      at absent
    exact absent other member (beq_iff_eq.mpr (same.trans becomes.name))
  · rcases becomes.added d member with before | registered
    · rw [empty (names fields named described)] at before
      exact absurd before List.not_mem_nil
    · exact registered

theorem isRegistry_of_createCube {name info : Description} {c : Cube} (known : m.IsRegistry)
    (done : perform (createCube name info) m = (.ok c, after)) : after.IsRegistry := by
  obtain ⟨rfl, fresh, owned, distinct, -⟩ := createCube_cube done
  refine ⟨known.dimensions, nodup_map_concat known.cubes fresh, ?_, ?_⟩
  · exact List.forall_mem_append.mpr ⟨known.held, List.forall_mem_singleton.mpr distinct⟩
  · exact List.forall_mem_append.mpr ⟨known.owner, List.forall_mem_singleton.mpr owned⟩

theorem ownsDimensions_of_createCube {name info : Description} {c : Cube}
    (names : info.NamesDimensions) (owns : m.OwnsDimensions)
    (done : perform (createCube name info) m = (.ok c, after)) : after.OwnsDimensions := by
  refine { isRegistry_of_createCube owns.toIsRegistry done with owned := ?_ }
  obtain ⟨rfl, -, -, -, registered⟩ := createCube_cube done
  exact List.forall_mem_append.mpr ⟨owns.owned, List.forall_mem_singleton.mpr (registered names)⟩

/-- A change of a cube that belongs to a model adds registered dimensions only, and leaves the cube as
it was when it fails, and only then. -/
structure AddsRegistered {β : Type} (change : Model → CubeAction β) : Prop where
  atomic : ∀ m, IsAtomic (change m)
  becomes : ∀ m c b after, c.owner = .ofModel m.name → perform (change m) c = (.ok b, after) →
    Cube.Becomes (fun d => findDimension? d.name m.dimensions = some d) c after
  moves : ∀ m c b after, perform (change m) c = (.ok b, after) → after ≠ c

theorem mem_replaceCube {c other : Cube} (member : other ∈ (m.replaceCube c).cubes) :
    other ∈ m.cubes ∨ other = c := by
  obtain ⟨old, known, rfl⟩ := List.mem_map.mp member
  split
  · exact Or.inr rfl
  · exact Or.inl known

theorem names_replaceCube (c : Cube) :
    (m.replaceCube c).cubes.map (·.name) = m.cubes.map (·.name) := by
  show (m.cubes.map _).map _ = _
  rw [List.map_map]
  refine List.map_congr_left fun old _ => ?_
  rw [Function.comp_apply]
  split
  · rename_i same
    exact (beq_iff_eq.mp same).symm
  · rfl

theorem isRegistry_of_changeCube {β : Type} {name : Description} {change : Model → CubeAction β}
    {c : Cube} (adds : AddsRegistered change) (known : m.IsRegistry)
    (done : perform (changeCube name change) m = (.ok c, after)) : after.IsRegistry := by
  obtain ⟨old, member, b, changed, rfl⟩ := changeCube_ok done
  have becomes := adds.becomes m old b c (known.owner old member) changed
  refine ⟨known.dimensions, (names_replaceCube c).symm ▸ known.cubes, fun other inside => ?_,
    fun other inside => ?_⟩
  · rcases mem_replaceCube inside with before | rfl
    · exact known.held other before
    · exact becomes.distinct (known.held old member)
  · rcases mem_replaceCube inside with before | rfl
    · exact known.owner other before
    · exact becomes.owner.trans (known.owner old member)

theorem ownsDimensions_of_changeCube {β : Type} {name : Description} {change : Model → CubeAction β}
    {c : Cube} (adds : AddsRegistered change) (owns : m.OwnsDimensions)
    (done : perform (changeCube name change) m = (.ok c, after)) : after.OwnsDimensions := by
  refine { isRegistry_of_changeCube adds owns.toIsRegistry done with owned := ?_ }
  obtain ⟨old, member, b, changed, rfl⟩ := changeCube_ok done
  have becomes := adds.becomes m old b c (owns.owner old member) changed
  intro other inside d held
  rcases mem_replaceCube inside with before | rfl
  · exact owns.owned other before d held
  · exact (becomes.added d held).elim (owns.owned old member d) id

theorem keeps_isRegistry_changeCube {β : Type} {change : Model → CubeAction β}
    (adds : AddsRegistered change) (name : Description) :
    Keeps IsRegistry (changeCube name change) :=
  keeps_of_unchanged (fun _ _ _ known => unchanged_of_changeCube adds.atomic known.cubes)
    fun _ _ _ => isRegistry_of_changeCube adds

theorem keeps_ownsDimensions_changeCube {β : Type} {change : Model → CubeAction β}
    (adds : AddsRegistered change) (name : Description) :
    Keeps OwnsDimensions (changeCube name change) :=
  keeps_of_unchanged (fun _ _ _ owns => unchanged_of_changeCube adds.atomic owns.cubes)
    fun _ _ _ => ownsDimensions_of_changeCube adds

/-- Something is read or looked up first, and a dimension is added then. -/
theorem addsRegistered_addDimension {α : Type} (asked : Model → Result α)
    (link : α → DimensionLink) :
    AddsRegistered fun m => do
      let a ← asked m
      Cube.addDimension m.dimensions (link a) where
  atomic m := isAtomic_require_bind fun a => Cube.isAtomic_addDimension m.dimensions (link a)
  becomes m c b after owned done := by
    obtain ⟨_, _, required, added⟩ := perform_bind_ok.1 done
    obtain ⟨-, rfl⟩ := perform_require_ok.1 required
    exact Cube.becomes_of_addDimension owned added
  moves m c b after done := by
    obtain ⟨_, _, required, added⟩ := perform_bind_ok.1 done
    obtain ⟨-, rfl⟩ := perform_require_ok.1 required
    obtain ⟨-, -, rfl⟩ := Cube.addDimension_ok.1 added
    exact fun same => concat_ne_self _ _ (congrArg Cube.dimensions same)

theorem addsRegistered_addCubeDimension (d : Description) :
    AddsRegistered (fun m => do
      let link ← DimensionLink.ofDescription d
      Cube.addDimension m.dimensions link) :=
  addsRegistered_addDimension (fun _ => DimensionLink.ofDescription d) id

theorem addsRegistered_addOwnDimension (name : Description) :
    AddsRegistered (fun m => do
      let d ← m.dimension name
      Cube.addDimension m.dimensions (.named d.name)) :=
  addsRegistered_addDimension (·.dimension name) fun d => .named d.name

theorem addsRegistered_removeDimension (name : Description) :
    AddsRegistered fun _ => Cube.removeDimension name where
  atomic _ := Cube.isAtomic_removeDimension name
  becomes _ _ _ _ _ := Cube.becomes_of_removeDimension
  moves _ _ _ _ done := by
    obtain ⟨key, held, rfl⟩ := Cube.removeDimension_ok done
    exact fun same => filter_ne_self held (congrArg Cube.dimensions same)

/-! ### Models from descriptions -/

theorem keeps_isRegistry_addDimension (d : Description) : Keeps IsRegistry (addDimension d) :=
  keeps_of_isAtomic (isAtomic_addDimension d) fun _ _ _ => isRegistry_of_addDimension

theorem keeps_isRegistry_createCube (name info : Description) :
    Keeps IsRegistry (createCube name info) :=
  keeps_of_isAtomic (isAtomic_createCube name info) fun _ _ _ => isRegistry_of_createCube

theorem keeps_ownsDimensions_addDimension (d : Description) :
    Keeps OwnsDimensions (addDimension d) :=
  keeps_of_isAtomic (isAtomic_addDimension d) fun _ _ _ => ownsDimensions_of_addDimension

theorem keeps_ownsDimensions_createCube (name : Description) {info : Description}
    (names : info.NamesDimensions) : Keeps OwnsDimensions (createCube name info) :=
  keeps_of_isAtomic (isAtomic_createCube name info) fun _ _ _ => ownsDimensions_of_createCube names

theorem keeps_addDimensions {property : Model → Prop}
    {entries : List Description} (each : ∀ d ∈ entries, Keeps property (addDimension d)) :
    Keeps property (addDimensions entries) := by
  induction entries with
  | nil => exact keeps_pure property ()
  | cons d rest inductionHypothesis =>
    exact keeps_bind (each d List.mem_cons_self) fun _ =>
      inductionHypothesis fun other member => each other (List.mem_cons_of_mem _ member)

theorem keeps_createCubes {property : Model → Prop} {entries : List Description}
    (each : ∀ d ∈ entries, Keeps property (createDescribed d)) :
    Keeps property (createCubes entries) := by
  induction entries with
  | nil => exact keeps_pure property ()
  | cons d rest inductionHypothesis =>
    exact keeps_bind (each d List.mem_cons_self) fun _ =>
      inductionHypothesis fun other member => each other (List.mem_cons_of_mem _ member)

/-- What creating the cube of an entry keeps is kept with all that an entry may be. -/
theorem keeps_createDescribed {property : Model → Prop} {d : Description}
    (named : Keeps property (createCube d .null))
    (described : ∀ fields, d = .record fields →
      Keeps property (createCube ((Record.get? fields "name").getD .null)
        (.record (Record.erase fields "name")))) :
    Keeps property (createDescribed d) := by
  unfold createDescribed
  split
  · exact keeps_bind named fun _ => keeps_pure property ()
  · dsimp only
    split
    · exact keeps_bind (keeps_throw property _) fun _ =>
        keeps_bind (described _ rfl) fun _ => keeps_pure property ()
    · exact keeps_bind (described _ rfl) fun _ => keeps_pure property ()
  · exact keeps_throw property _

/-- What adding dimensions and cubes keeps is true of a model that is made of a description. -/
theorem of_ofDraft {property : Model → Prop} {draft : Draft} (made : ofDraft draft = .ok m)
    (empty : property ⟨draft.name, draft.header, [], []⟩)
    (dimensions : ∀ d ∈ draft.dimensions, Keeps property (addDimension d))
    (cubes : ∀ d ∈ draft.cubes, Keeps property (createDescribed d)) : property m := by
  have kept := keeps_bind (keeps_addDimensions dimensions)
    (fun _ => keeps_createCubes cubes) _ empty
  rwa [ofDraft_ok.1 made] at kept

/-! ### Sequences of changes -/

/-- A change that can be asked of a model, or of one of its cubes. -/
inductive Operation
  | addDimension (d : Description)
  | removeDimension (name : Description)
  | createCube (name info : Description)
  | addCubeDimension (cube d : Description)
  | addOwnDimension (cube name : Description)
  | removeCubeDimension (cube name : Description)

namespace Operation

/-- The model after a change, whether it succeeds or fails. -/
def step (m : Model) : Operation → Model
  | .addDimension d => (perform (Model.addDimension d) m).2
  | .removeDimension name => (perform (Model.removeDimension name) m).2
  | .createCube name info => (perform (Model.createCube name info) m).2
  | .addCubeDimension cube d => (perform (Model.addCubeDimension cube d) m).2
  | .addOwnDimension cube name => (perform (Model.addOwnDimension cube name) m).2
  | .removeCubeDimension cube name => (perform (Model.removeCubeDimension cube name) m).2

/-- A cube that is created gives no dimensions under the second spelling. -/
def NamesDimensions : Operation → Prop
  | .createCube _ info => info.NamesDimensions
  | _ => True

theorem isRegistry_step (known : m.IsRegistry) (operation : Operation) :
    (step m operation).IsRegistry := by
  cases operation with
  | addDimension d => exact keeps_isRegistry_addDimension d m known
  | removeDimension name =>
    exact keeps_of_isAtomic (isAtomic_removeDimension name)
      (fun _ _ _ => isRegistry_of_removeDimension) m known
  | createCube name info => exact keeps_isRegistry_createCube name info m known
  | addCubeDimension cube d =>
    exact keeps_isRegistry_changeCube (addsRegistered_addCubeDimension d) cube m known
  | addOwnDimension cube name =>
    exact keeps_isRegistry_changeCube (addsRegistered_addOwnDimension name) cube m known
  | removeCubeDimension cube name =>
    exact keeps_isRegistry_changeCube (addsRegistered_removeDimension name) cube m known

theorem ownsDimensions_step (owns : m.OwnsDimensions) {operation : Operation}
    (names : operation.NamesDimensions) : (step m operation).OwnsDimensions := by
  cases operation with
  | addDimension d => exact keeps_ownsDimensions_addDimension d m owns
  | removeDimension name =>
    exact keeps_of_isAtomic (isAtomic_removeDimension name)
      (fun _ _ _ => ownsDimensions_of_removeDimension) m owns
  | createCube name info => exact keeps_ownsDimensions_createCube name names m owns
  | addCubeDimension cube d =>
    exact keeps_ownsDimensions_changeCube (addsRegistered_addCubeDimension d) cube m owns
  | addOwnDimension cube name =>
    exact keeps_ownsDimensions_changeCube (addsRegistered_addOwnDimension name) cube m owns
  | removeCubeDimension cube name =>
    exact keeps_ownsDimensions_changeCube (addsRegistered_removeDimension name) cube m owns

end Operation

/-- The model after a sequence of changes. -/
def run (m : Model) (operations : List Operation) : Model := operations.foldl Operation.step m

theorem isRegistry_run (known : m.IsRegistry) (operations : List Operation) :
    (m.run operations).IsRegistry := by
  induction operations generalizing m with
  | nil => exact known
  | cons operation rest inductionHypothesis =>
    exact inductionHypothesis (Operation.isRegistry_step known operation)

theorem ownsDimensions_run (owns : m.OwnsDimensions) {operations : List Operation}
    (names : ∀ operation ∈ operations, operation.NamesDimensions) :
    (m.run operations).OwnsDimensions := by
  induction operations generalizing m with
  | nil => exact owns
  | cons operation rest inductionHypothesis =>
    exact inductionHypothesis
      (Operation.ownsDimensions_step owns (names operation List.mem_cons_self))
      fun other member => names other (List.mem_cons_of_mem _ member)

theorem isRegistry_ofRecord {d : Description} (made : ofRecord d = .ok m) : m.IsRegistry := by
  obtain ⟨fields, draft, rfl, -, completed⟩ := ofRecord_ok.1 made
  exact of_ofDraft completed (ownsDimensions_empty _ _).toIsRegistry
    (fun entry _ => keeps_isRegistry_addDimension entry)
    fun entry _ => keeps_createDescribed (keeps_isRegistry_createCube entry .null)
      fun _ _ => keeps_isRegistry_createCube _ _

theorem ownsDimensions_ofRecord {d : Description} (made : ofRecord d = .ok m)
    (names : ∀ entry ∈ d.cubeEntries, entry.NamesDimensions) : m.OwnsDimensions := by
  obtain ⟨fields, draft, rfl, checked, completed⟩ := ofRecord_ok.1 made
  rw [Description.cubeEntries_of_checkDraft checked] at names
  refine of_ofDraft completed (ownsDimensions_empty _ _)
    (fun entry _ => keeps_ownsDimensions_addDimension entry)
    fun entry member => keeps_createDescribed
      (keeps_ownsDimensions_createCube entry Description.namesDimensions_null) ?_
  rintro given rfl
  exact keeps_ownsDimensions_createCube _
    (Description.namesDimensions_erase (names _ member) "name")

/-- In every state that an accepted model gets into, dimensions and cubes are found under their own
names. If no description of a cube gives dimensions under the second spelling, then each dimension that
a cube holds under a name is the one that the model has registered under it. -/
theorem registered_of_reached {d : Description} (made : ofRecord d = .ok m)
    (operations : List Operation) :
    (∀ registered ∈ (m.run operations).dimensions,
      (m.run operations).dimension (.text registered.name) = .ok registered) ∧
    (∀ c ∈ (m.run operations).cubes, (m.run operations).cube (.text c.name) = .ok c ∧
      ∀ held ∈ c.dimensions, findDimension? held.name c.dimensions = some held) ∧
    ((∀ entry ∈ d.cubeEntries, entry.NamesDimensions) →
      (∀ operation ∈ operations, operation.NamesDimensions) →
      ∀ c ∈ (m.run operations).cubes, ∀ held ∈ c.dimensions,
        (m.run operations).dimension (.text held.name) = .ok held) := by
  have known := isRegistry_run (isRegistry_ofRecord made) operations
  refine ⟨fun registered => known.dimension_eq, fun c member => ⟨known.cube_eq member,
    fun held => find?_of_mem_of_nodup (known.held c member)⟩, ?_⟩
  intro entries names c member held inside
  have owns := ownsDimensions_run (ownsDimensions_ofRecord made entries) names
  exact known.dimension_eq (List.mem_of_find?_eq_some (owns.owned c member held inside))

/-- A place, and sales at places. -/
def market : Description :=
  .record [("dimensions", .list [.record [("name", .text "place"), ("levels", .list [.text "city"])]]),
    ("cubes", .record [("sales", .record [("dimensions", .list [.text "place"])])])]

/-- Taking out the place is refused, until the cube does not have it any more. -/
def marketChanges : List Operation :=
  [.createCube (.text "stock") (.record [("dimensions", .list [.text "place"])]),
    .removeDimension (.text "place"), .removeCubeDimension (.text "sales") (.text "place"),
    .addOwnDimension (.text "sales") (.text "place")]

theorem registered_of_reached_market : ∃ m, ofRecord market = .ok m ∧
    (m.run marketChanges).cubes.map (·.dimensionNames) = [["place"], ["place"]] ∧
    ∀ c ∈ (m.run marketChanges).cubes, ∀ held ∈ c.dimensions,
      (m.run marketChanges).dimension (.text held.name) = .ok held := by
  obtain ⟨m, made⟩ : ∃ m, ofRecord market = .ok m := ⟨_, rfl⟩
  refine ⟨m, made, ?_, (registered_of_reached made marketChanges).2.2 ?_ ?_⟩
  · cases made
    rfl
  · intro entry member
    rw [show market.cubeEntries = [.record [("name", .text "sales"),
      ("dimensions", .list [.text "place"])]] from rfl, List.mem_singleton] at member
    rw [member]
    exact Description.namesDimensions_record.2 rfl
  · intro operation member
    fin_cases member
    · exact Description.namesDimensions_record.2 rfl
    all_goals trivial

/-- The cube of a description that gives it a dimension under the second spelling. -/
def stray : Description :=
  .record [("cubes", .record [("sales", .record [("dimension_links",
    .list [.record [("name", .text "place"), ("levels", .list [.text "city"])]])])])]

/-- A cube of a model can have a dimension that the model has not registered. -/
theorem exists_unregistered_dimension : ∃ m, ofRecord stray = .ok m ∧
    ∃ c ∈ m.cubes, ∃ d ∈ c.dimensions, findDimension? d.name m.dimensions = none :=
  ⟨_, rfl, _, List.mem_cons_self, _, List.mem_cons_self, rfl⟩

end Model

end Olap
