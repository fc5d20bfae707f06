/-
Changes of cubes and models. A change is an action on the cube or on the model, so there is one after it
whether it succeeds or fails. A change that fails leaves things as they were, and here is said when each
change of a model succeeds and what it does then. A cube of a model is changed where it is, so what a
failure makes of the cube would be seen in the model, too. A model that is made of a description is an
empty one after changes.
-/

import Mathlib
import Olap.Proofs.Drafts

namespace Olap

/-! ### What a change comes to -/

namespace Edit

variable {σ α β : Type}

theorem made_ok {edit : Edit σ β} {s after : σ} :
    edit.made s = .ok after ↔ ∃ b, perform edit s = (.ok b, after) := by
  unfold made perform
  rcases edit.run.run s with ⟨fault | b, last⟩ <;> simp

theorem made_bind_ok {s after : σ} {first : Edit σ α} {next : α → Edit σ β} :
    (first >>= next).made s = .ok after ↔
      ∃ a middle, perform first s = (.ok a, middle) ∧ (next a).made middle = .ok after := by
  simp only [made_ok, perform_bind_ok]
  constructor
  · rintro ⟨b, a, middle, begun, rest⟩
    exact ⟨a, middle, begun, b, rest⟩
  · rintro ⟨a, middle, begun, b, rest⟩
    exact ⟨b, a, middle, begun, rest⟩

/-! ### Changes that fail -/

/-- A change that leaves the state as it was when it fails. -/
def IsAtomic (edit : Edit σ β) : Prop :=
  ∀ s fault after, perform edit s = (.error fault, after) → after = s

theorem isAtomic_throw (fault : Fault) : IsAtomic (throw fault : Edit σ β) := by
  intro s _ after failed
  cases failed
  rfl

theorem isAtomic_throw_bind (fault : Fault) (next : α → Edit σ β) :
    IsAtomic ((throw fault : Edit σ α) >>= next) := by
  intro s _ after failed
  cases failed
  rfl

theorem isAtomic_get_bind {next : σ → Edit σ β} (each : ∀ s, IsAtomic (next s)) :
    IsAtomic (get >>= next) := fun s => each s s

theorem isAtomic_require_bind {result : Result α} {next : α → Edit σ β}
    (each : ∀ a, IsAtomic (next a)) : IsAtomic (liftM result >>= next) := by
  cases result with
  | error fault => exact isAtomic_throw fault
  | ok a => exact each a

/-- Nothing fails once the state is changed. -/
theorem isAtomic_set (next : σ) : IsAtomic (set next : Edit σ PUnit) := by
  intro s fault after failed
  cases failed

theorem isAtomic_set_return (next : σ) (b : β) :
    IsAtomic (do set next; return b : Edit σ β) := by
  intro s fault after failed
  cases failed

theorem keeps_of_unchanged {property : σ → Prop} {edit : Edit σ β}
    (unchanged : ∀ s fault after, property s → perform edit s = (.error fault, after) → after = s)
    (each : ∀ s b after, property s → perform edit s = (.ok b, after) → property after) :
    Keeps property edit := by
  intro s holds
  rcases outcome : perform edit s with ⟨fault | b, after⟩
  · exact (unchanged s fault after holds outcome).symm ▸ holds
  · exact each s b after holds outcome

theorem keeps_of_isAtomic {property : σ → Prop} {edit : Edit σ β} (atomic : IsAtomic edit)
    (each : ∀ s b after, property s → perform edit s = (.ok b, after) → property after) :
    Keeps property edit :=
  keeps_of_unchanged (fun s fault after _ => atomic s fault after) each

end Edit

namespace Cube

open Edit

theorem isAtomic_hold (d : Dimension) : IsAtomic (hold d) := by
  refine isAtomic_get_bind fun c => ?_
  dsimp only
  split
  · exact isAtomic_throw_bind _ _
  · exact isAtomic_set_return _ _

theorem isAtomic_addDimension (registry : List Dimension) (link : DimensionLink) :
    IsAtomic (addDimension registry link) :=
  isAtomic_get_bind fun _ => isAtomic_require_bind fun d => isAtomic_hold d

theorem isAtomic_removeDimension (name : Description) : IsAtomic (removeDimension name) := by
  refine isAtomic_get_bind fun c => isAtomic_require_bind fun key => ?_
  split
  · exact isAtomic_set _
  · exact isAtomic_throw _

end Cube

namespace Model

open Edit

variable {m after : Model}

theorem isAtomic_addDimension (d : Description) : IsAtomic (addDimension d) := by
  refine isAtomic_require_bind fun dimension => isAtomic_get_bind fun m => ?_
  dsimp only
  split
  · exact isAtomic_throw_bind _ _
  · exact isAtomic_set_return _ _

theorem isAtomic_removeDimension (name : Description) : IsAtomic (removeDimension name) := by
  refine isAtomic_get_bind fun m => isAtomic_require_bind fun key => ?_
  split
  · dsimp only
    split
    · exact isAtomic_throw_bind _ _
    · exact isAtomic_set _
  · exact isAtomic_throw _

/-- However many dimensions a cube had when it failed to get another one, it was not in the model. -/
theorem isAtomic_createCube (name info : Description) : IsAtomic (createCube name info) := by
  refine isAtomic_get_bind fun m => isAtomic_require_bind fun key => ?_
  dsimp only
  split
  · exact isAtomic_throw_bind _ _
  · refine isAtomic_require_bind fun fields => isAtomic_require_bind fun bare => ?_
    exact isAtomic_require_bind fun entries => isAtomic_require_bind fun cube =>
      isAtomic_set_return _ _

theorem mem_cubes_of_cube {name : Description} {c : Cube} (found : m.cube name = .ok c) :
    c ∈ m.cubes := by
  unfold cube at found
  obtain ⟨key, -, found⟩ := Result.bind_ok.1 found
  split at found
  · rename_i known looked
    cases found
    obtain ⟨text, -, looked⟩ := Option.bind_eq_some_iff.1 looked
    exact List.mem_of_find?_eq_some looked
  · cases found

theorem perform_changeCube_of_error {β : Type} {name : Description} {fault : Fault}
    (unknown : m.cube name = .error fault) (change : Model → CubeAction β) :
    perform (changeCube name change) m = (.error fault, m) := by
  show perform (liftM (m.cube name) >>= _) m = _
  rw [unknown]
  rfl

/-- What a cube has become is in the model even if the change of the cube failed. -/
theorem perform_changeCube {β : Type} {name : Description} {old : Cube}
    (found : m.cube name = .ok old) (change : Model → CubeAction β) :
    perform (changeCube name change) m =
      match perform (change m) old with
      | (.ok _, changed) => (.ok changed, m.replaceCube changed)
      | (.error fault, changed) => (.error fault, m.replaceCube changed) := by
  show perform (liftM (m.cube name) >>= fun cube => do
    set (m.replaceCube (perform (change m) cube).2)
    let _ ← (perform (change m) cube).1
    return (perform (change m) cube).2) m = _
  rw [found]
  show perform (do
    set (m.replaceCube (perform (change m) old).2)
    let _ ← (perform (change m) old).1
    return (perform (change m) old).2) m = _
  rcases perform (change m) old with ⟨fault | b, changed⟩ <;> rfl

/-- A cube takes its own place, as no other one has its name. -/
theorem replaceCube_self {c : Cube} (distinct : (m.cubes.map (·.name)).Nodup)
    (member : c ∈ m.cubes) : m.replaceCube c = m := by
  have same : m.cubes.map (fun old => if old.name == c.name then c else old) = m.cubes := by
    refine (List.map_congr_left fun old inside => ?_).trans (List.map_id m.cubes)
    split
    · rename_i named
      exact (List.inj_on_of_nodup_map distinct inside member (beq_iff_eq.mp named)).symm
    · rfl
  show { m with cubes := _ } = m
  rw [same]

theorem unchanged_of_changeCube {β : Type} {name : Description} {change : Model → CubeAction β}
    (atomic : ∀ m, IsAtomic (change m)) (distinct : (m.cubes.map (·.name)).Nodup) {fault : Fault}
    (failed : perform (changeCube name change) m = (.error fault, after)) : after = m := by
  cases found : m.cube name with
  | error =>
    rw [perform_changeCube_of_error found] at failed
    cases failed
    rfl
  | ok old =>
    rw [perform_changeCube found] at failed
    rcases outcome : perform (change m) old with ⟨problem | b, changed⟩ <;> rw [outcome] at failed
    · cases failed
      rw [atomic m old fault changed outcome]
      exact replaceCube_self distinct (mem_cubes_of_cube found)
    · cases failed

/-! ### Changes that succeed -/

theorem addDimension_ok {d : Description} {dimension : Dimension} :
    perform (addDimension d) m = (.ok dimension, after) ↔
      dimensionToAdd d = .ok dimension ∧ m.hasDimension dimension.name = false ∧
        after = { m with dimensions := m.dimensions ++ [dimension] } := by
  unfold addDimension
  rw [perform_bind_ok]
  constructor
  · rintro ⟨made, _, required, rest⟩
    obtain ⟨given, rfl⟩ := perform_require_ok.1 required
    obtain ⟨_, _, ⟨⟩, rest⟩ := perform_bind_ok.1 rest
    dsimp only at rest
    split at rest
    · cases rest
    · rename_i absent
      cases rest
      exact ⟨given, by simpa using absent, rfl⟩
  · rintro ⟨given, absent, rfl⟩
    refine ⟨dimension, m, perform_require_ok.2 ⟨given, rfl⟩, perform_bind_ok.2 ⟨m, m, rfl, ?_⟩⟩
    dsimp only
    rw [absent]
    rfl

theorem removeDimension_ok {name : Description} {u : Unit}
    (done : perform (removeDimension name) m = (.ok u, after)) :
    ∃ key, m.hasDimension key = true ∧ (∀ c ∈ m.cubes, c.hasDimension key = false) ∧
      after = { m with dimensions := m.dimensions.filter (·.name != key) } := by
  unfold removeDimension at done
  obtain ⟨_, _, ⟨⟩, done⟩ := perform_bind_ok.1 done
  obtain ⟨looked, _, required, done⟩ := perform_bind_ok.1 done
  obtain ⟨-, rfl⟩ := perform_require_ok.1 required
  split at done
  · rename_i key found
    dsimp only at done
    split at done
    · cases done
    · rename_i unused
      cases done
      refine ⟨key, (Option.filter_eq_some_iff.mp found).2, fun c member => ?_, rfl⟩
      simp only [Bool.not_eq_true', Bool.not_eq_false, List.isEmpty_iff, List.map_eq_nil_iff,
        List.filter_eq_nil_iff] at unused
      simpa using unused c member
  · cases done

theorem createCube_ok {name info : Description} {c : Cube} :
    perform (createCube name info) m = (.ok c, after) ↔
      ∃ key fields named bare entries, name.lookupKey = .ok key ∧ key.any m.hasCube = false ∧
        info.asFields = .ok (fields, named) ∧ m.bareCube name fields named = .ok bare ∧
        Description.entries ((Record.get? fields "dimensions").getD .null) = .ok entries ∧
        (linkAll m.dimensions entries).made bare = .ok c ∧
        after = { m with cubes := m.cubes ++ [c] } := by
  unfold createCube
  rw [perform_bind_ok]
  constructor
  · rintro ⟨_, _, ⟨⟩, done⟩
    obtain ⟨key, _, required, done⟩ := perform_bind_ok.1 done
    obtain ⟨keyed, rfl⟩ := perform_require_ok.1 required
    dsimp only at done
    split at done
    · cases done
    · rename_i absent
      obtain ⟨⟨fields, named⟩, _, required, done⟩ := perform_bind_ok.1 done
      obtain ⟨described, rfl⟩ := perform_require_ok.1 required
      obtain ⟨bare, _, required, done⟩ := perform_bind_ok.1 done
      obtain ⟨made, rfl⟩ := perform_require_ok.1 required
      obtain ⟨entries, _, required, done⟩ := perform_bind_ok.1 done
      obtain ⟨listed, rfl⟩ := perform_require_ok.1 required
      obtain ⟨cube, _, required, done⟩ := perform_bind_ok.1 done
      obtain ⟨linked, rfl⟩ := perform_require_ok.1 required
      cases done
      exact ⟨key, fields, named, bare, entries, keyed, by simpa using absent, described, made,
        listed, linked, rfl⟩
  · rintro ⟨key, fields, named, bare, entries, keyed, absent, described, made, listed, linked, rfl⟩
    refine ⟨m, m, rfl, perform_bind_ok.2 ⟨key, m, perform_require_ok.2 ⟨keyed, rfl⟩, ?_⟩⟩
    dsimp only
    rw [absent]
    exact perform_bind_ok.2 ⟨(fields, named), m, perform_require_ok.2 ⟨described, rfl⟩,
      perform_bind_ok.2 ⟨bare, m, perform_require_ok.2 ⟨made, rfl⟩,
        perform_bind_ok.2 ⟨entries, m, perform_require_ok.2 ⟨listed, rfl⟩,
          perform_bind_ok.2 ⟨c, m, perform_require_ok.2 ⟨linked, rfl⟩, rfl⟩⟩⟩⟩

theorem changeCube_ok {β : Type} {name : Description} {change : Model → CubeAction β} {c : Cube}
    (done : perform (changeCube name change) m = (.ok c, after)) :
    ∃ old ∈ m.cubes, ∃ b, perform (change m) old = (.ok b, c) ∧ after = m.replaceCube c := by
  cases found : m.cube name with
  | error =>
    rw [perform_changeCube_of_error found] at done
    cases done
  | ok old =>
    rw [perform_changeCube found] at done
    rcases outcome : perform (change m) old with ⟨problem | b, changed⟩ <;> rw [outcome] at done
    · cases done
    · cases done
      exact ⟨old, mem_cubes_of_cube found, b, outcome, rfl⟩

/-- A record with a name is taken for a cube of the name. -/
theorem createDescribed_of_name {fields : Fields Part} {name : Description}
    (given : Record.get? fields "name" = some name) (named : name.isTruthy = true) :
    createDescribed (.record fields) =
      createCube name (.record (Record.erase fields "name")) >>= fun _ => pure () := by
  unfold createDescribed
  simp only [Datum.text?, given, Option.getD_some, named]
  rfl

/-! ### Models from descriptions -/

theorem ofDraft_ok {draft : Draft} :
    ofDraft draft = .ok m ↔
      perform (do addDimensions draft.dimensions; createCubes draft.cubes)
        ⟨draft.name, draft.header, [], []⟩ = (.ok (), m) := by
  unfold ofDraft
  exact made_ok.trans ⟨fun ⟨_, done⟩ => done, fun done => ⟨(), done⟩⟩

theorem ofRecord_ok {d : Description} :
    ofRecord d = .ok m ↔
      ∃ fields draft, d = .record fields ∧ (checkDraft fields).result = .ok draft ∧
        ofDraft draft = .ok m := by
  constructor
  · intro made
    cases d with
    | record fields =>
      have completed : ofFields fields = .ok m := createFrom_record_ok.1 made
      unfold ofFields at completed
      split at completed
      · cases completed
      · rename_i draft checked
        exact ⟨fields, draft, rfl, checked, completed⟩
    | _ => cases made
  · rintro ⟨fields, draft, rfl, checked, completed⟩
    refine createFrom_record_ok.2 ?_
    show ofFields fields = .ok m
    unfold ofFields
    rw [checked]
    exact completed

end Model

end Olap
