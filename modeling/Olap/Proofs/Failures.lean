/-
Changes that fail. Whatever stops a change of a model, the model is as it was: dimensions and cubes, what
each cube holds, and the order of all of it. A change of a cube takes place within the model, so it is the
cube that has to stay as it was; being the only one of its name, it is put back into its own place. A cube
that is created gets its dimensions one after the other, and may be refused any of them when it has some
already. Such a cube is not as it was, but nobody has seen it: only a cube with all of its dimensions is
registered. Nothing else leaves a model as it was: a change that is not stopped adds something to the model
or one of its cubes, or takes something out.
-/

import Mathlib
import Olap.Proofs.Registry

namespace Olap

/-- The failure of a result, if it is one. -/
def Result.fault? {β : Type} : Result β → Option Fault
  | .ok _ => none
  | .error fault => some fault

namespace Edit

theorem eq_iff_fault? {σ β : Type} {edit : Edit σ β} {s : σ}
    (unchanged : ∀ fault after, perform edit s = (.error fault, after) → after = s)
    (changes : ∀ b after, perform edit s = (.ok b, after) → after ≠ s) :
    (perform edit s).2 = s ↔ ∃ fault, (perform edit s).1.fault? = some fault := by
  rcases outcome : perform edit s with ⟨fault | b, after⟩
  · exact iff_of_true (unchanged fault after outcome) ⟨fault, rfl⟩
  · refine iff_of_false (changes b after outcome) ?_
    rintro ⟨fault, failed⟩
    cases failed

end Edit

namespace Model

open Edit

variable {m : Model}

/-! ### Cubes that are refused a dimension -/

section Refused

variable {c middle after : Cube} {registry : List Dimension}

theorem perform_linkAll_append (first rest : List (Item Part)) (c : Cube) :
    perform (linkAll registry (first ++ rest)) c =
      match perform (linkAll registry first) c with
      | (.ok _, middle) => perform (linkAll registry rest) middle
      | (.error fault, middle) => (.error fault, middle) := by
  induction first generalizing c with
  | nil => rfl
  | cons entry others inductionHypothesis =>
    rw [List.cons_append, linkAll, linkAll, perform_bind, perform_bind, perform_require]
    cases DimensionLink.ofEntry entry with
    | error => rfl
    | ok link =>
      dsimp only
      rw [perform_bind, perform_bind]
      rcases perform (Cube.addDimension registry link) c with ⟨fault | d, grown⟩
      · rfl
      · exact inductionHypothesis grown

/-- A cube that is refused a dimension has all those that are listed before it. -/
theorem perform_linkAll_of_refused {before rest : List (Item Part)} {entry : Item Part}
    {link : DimensionLink} {u : Unit} {fault : Fault}
    (linked : perform (linkAll registry before) c = (.ok u, middle))
    (read : DimensionLink.ofEntry entry = .ok link)
    (refused : perform (Cube.addDimension registry link) middle = (.error fault, middle)) :
    perform (linkAll registry (before ++ entry :: rest)) c = (.error fault, middle) := by
  rw [perform_linkAll_append, linked]
  dsimp only
  rw [linkAll, perform_bind, read, perform_require]
  dsimp only
  rw [perform_bind, refused]

/-- What is linked by names is registered under them. -/
theorem names_of_linkAll {model : Option String} {names : List String}
    (owned : c.owner = .ofModel model)
    (done : (linkAll registry (names.map fun name => .datum (.text name))).made c = .ok after) :
    (∀ name ∈ names, (findDimension? name registry).isSome) ∧
      after.dimensions.map (·.name) = c.dimensions.map (·.name) ++ names := by
  induction names generalizing c with
  | nil =>
    cases done
    exact ⟨List.forall_mem_nil _, (List.append_nil _).symm⟩
  | cons name rest inductionHypothesis =>
    obtain ⟨_, _, ⟨⟩, done⟩ := made_bind_ok.1 done
    obtain ⟨d, middle, added, done⟩ := made_bind_ok.1 done
    obtain ⟨resolved, -, grown⟩ := Cube.addDimension_ok.1 added
    obtain ⟨_, ⟨⟩, found⟩ := (Cube.resolveLink_ok owned).1 resolved
    obtain ⟨registered, names⟩ := inductionHypothesis (grown ▸ owned) done
    refine ⟨List.forall_mem_cons.mpr ⟨Option.isSome_of_mem found, registered⟩, names.trans ?_⟩
    rw [grown, List.map_append, List.map_singleton, name_of_findDimension? found, List.append_assoc]
    rfl

/-- A cube is not created when one of its dimensions is unknown, or is listed twice, wherever in the
list that is. -/
theorem createCube_refused {fields : Fields Part} {names : List String}
    (listed : Record.get? fields "dimensions" = some (.list (names.map .text)))
    (refused : (∃ unknown ∈ names, findDimension? unknown m.dimensions = none) ∨ ¬ names.Nodup)
    (name : Description) :
    ∃ fault, perform (createCube name (.record fields)) m = (.error fault, m) := by
  rcases outcome : perform (createCube name (.record fields)) m with ⟨fault | c, after⟩
  · rw [isAtomic_createCube name (.record fields) m fault after outcome]
    exact ⟨fault, rfl⟩
  · obtain ⟨_, _, _, bare, entries, -, -, described, made, read, linked, -⟩ :=
      createCube_ok.1 outcome
    rw [Description.asFields_record] at described
    cases described
    rw [listed, Option.getD_some, Description.entries_names] at read
    cases read
    obtain ⟨-, owned, distinct, -⟩ := bareCube_ok made
    obtain ⟨registered, held⟩ := names_of_linkAll owned linked
    have different := (Cube.becomes_of_linkAll owned linked).distinct distinct
    rw [held] at different
    rcases refused with ⟨unknown, member, absent⟩ | repeated
    · exact absurd absent (Option.isSome_iff_ne_none.mp (registered unknown member))
    · exact absurd different.of_append_right repeated

end Refused

/-! ### Changes that succeed -/

section Changed

variable {after : Model} {c : Cube}

theorem ne_of_addDimension {d : Description} {dimension : Dimension}
    (done : perform (addDimension d) m = (.ok dimension, after)) : after ≠ m := by
  obtain ⟨-, -, rfl⟩ := addDimension_ok.1 done
  exact fun same => concat_ne_self _ _ (congrArg Model.dimensions same)

theorem ne_of_removeDimension {name : Description} {u : Unit}
    (done : perform (removeDimension name) m = (.ok u, after)) : after ≠ m := by
  obtain ⟨key, registered, -, rfl⟩ := removeDimension_ok done
  exact fun same => filter_ne_self registered (congrArg Model.dimensions same)

theorem ne_of_createCube {name info : Description}
    (done : perform (createCube name info) m = (.ok c, after)) : after ≠ m := by
  obtain ⟨rfl, -⟩ := createCube_cube done
  exact fun same => concat_ne_self _ _ (congrArg Model.cubes same)

/-- A model is another one when one of its cubes is, which has kept its name. -/
theorem ne_of_changeCube {β : Type} {name : Description} {change : Model → CubeAction β}
    (adds : AddsRegistered change) (known : m.IsRegistry)
    (done : perform (changeCube name change) m = (.ok c, after)) : after ≠ m := by
  obtain ⟨old, member, b, performed, rfl⟩ := changeCube_ok done
  have named := (adds.becomes m old b c (known.owner old member) performed).name
  intro same
  have kept : m.cubes.map (fun old => if old.name == c.name then c else old) = m.cubes.map id :=
    (congrArg Model.cubes same).trans (List.map_id _).symm
  have own := List.map_inj_left.mp kept old member
  rw [named, beq_self_eq_true, if_pos rfl] at own
  exact adds.moves m old b c performed own

end Changed

/-! ### Changes that are stopped -/

namespace Operation

/-- What stops a change, if anything does. -/
def fault? (m : Model) : Operation → Option Fault
  | .addDimension d => (perform (Model.addDimension d) m).1.fault?
  | .removeDimension name => (perform (Model.removeDimension name) m).1.fault?
  | .createCube name info => (perform (Model.createCube name info) m).1.fault?
  | .addCubeDimension cube d => (perform (Model.addCubeDimension cube d) m).1.fault?
  | .addOwnDimension cube name => (perform (Model.addOwnDimension cube name) m).1.fault?
  | .removeCubeDimension cube name => (perform (Model.removeCubeDimension cube name) m).1.fault?

/-- A change leaves a model as it was exactly when something stops it. -/
theorem step_eq_iff (known : m.IsRegistry) (operation : Operation) :
    operation.step m = m ↔ ∃ fault, operation.fault? m = some fault := by
  have within {β : Type} {change : Model → CubeAction β} (adds : AddsRegistered change)
      (cube : Description) : (perform (changeCube cube change) m).2 = m ↔
        ∃ fault, (perform (changeCube cube change) m).1.fault? = some fault :=
    eq_iff_fault? (fun _ _ => unchanged_of_changeCube adds.atomic known.cubes)
      fun _ _ => ne_of_changeCube adds known
  cases operation with
  | addDimension d =>
    exact eq_iff_fault? (isAtomic_addDimension d m) fun _ _ => ne_of_addDimension
  | removeDimension name =>
    exact eq_iff_fault? (isAtomic_removeDimension name m) fun _ _ => ne_of_removeDimension
  | createCube name info =>
    exact eq_iff_fault? (isAtomic_createCube name info m) fun _ _ => ne_of_createCube
  | addCubeDimension cube d => exact within (addsRegistered_addCubeDimension d) cube
  | addOwnDimension cube name => exact within (addsRegistered_addOwnDimension name) cube
  | removeCubeDimension cube name => exact within (addsRegistered_removeDimension name) cube

end Operation

/-- The changes of a sequence that are not stopped when it is their turn. -/
def effective (m : Model) : List Operation → List Operation
  | [] => []
  | operation :: rest =>
    if (operation.fault? m).isSome then effective (operation.step m) rest
    else operation :: effective (operation.step m) rest

/-- A model is what the changes make of it that are not stopped. -/
theorem run_effective (known : m.IsRegistry) (operations : List Operation) :
    m.run (m.effective operations) = m.run operations := by
  induction operations generalizing m with
  | nil => rfl
  | cons operation rest inductionHypothesis =>
    have later := inductionHypothesis (Operation.isRegistry_step known operation)
    unfold effective
    split
    · rename_i stopped
      have same := (Operation.step_eq_iff known operation).2 (Option.isSome_iff_exists.mp stopped)
      rw [same] at later ⊢
      exact later.trans (congrArg (run · rest) same).symm
    · exact later

theorem run_append (m : Model) (first later : List Operation) :
    m.run (first ++ later) = (m.run first).run later := List.foldl_append

/-- A cube that is given a place twice: the second time is refused. -/
def twicePlaced : Operation :=
  .createCube (.text "branches") (.record [("dimensions", .list [.text "place", .text "place"])])

end Model

end Olap
