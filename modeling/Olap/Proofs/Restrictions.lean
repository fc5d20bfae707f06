/-
No cut is lost. A query has the conditions of all cuts of the slice and of its own path, one for each
value that is not left open, and no others but the presence of a listed key. Values are paired with the
levels of a hierarchy, so a path that is longer than its hierarchy would lose values in silence; instead it
is an error in every kind of question. So is a cut that can not be written as conditions, a set.
-/

import Olap.Proofs.Questions

namespace Olap

namespace Compiler

variable {c : Compiler} {cuts : List Cut}

/-! ### Conditions of cuts -/

/-- The cube has what a cut is about: the hierarchy of a point, the key field of a range. Other cuts are
about nothing that queries know of. -/
def Resolves (c : Compiler) (cut : Cut) : Prop :=
  match cut with
  | .point .. => ∃ d h, cut.resolve c.cube = .ok (d, h)
  | .range dimension .. => ∃ d column, c.cube.dimension dimension = .ok d ∧
      c.keyFieldColumn d = .ok column
  | .set .. | .bare .. => False

/-- The path of a point goes no deeper than its hierarchy. -/
def CutFits (c : Compiler) (cut : Cut) : Prop :=
  match cut with
  | .point _ _ path => ∀ d h, cut.resolve c.cube = .ok (d, h) → path.length ≤ h.levels.length
  | .range .. | .set .. | .bare .. => True

/-- The conditions that a cut asks for: those of its path, or the range of the key field. -/
def CutAsks (c : Compiler) (cut : Cut) (conditions : List Predicate) : Prop :=
  match cut with
  | .point _ _ path => ∃ d h, cut.resolve c.cube = .ok (d, h) ∧ c.PathAsks h.levels path conditions
  | .range dimension _ low high => ∃ d column, c.cube.dimension dimension = .ok d ∧
      c.keyFieldColumn d = .ok column ∧ conditions = [.between column low high]
  | .set .. | .bare .. => False

/-- A cut that fits compiles to the conditions that it asks for. -/
theorem exists_cutPredicates (sound : c.cube.IsSound) {cut : Cut} (resolves : c.Resolves cut)
    (fits : c.CutFits cut) :
    ∃ conditions, c.cutPredicates cut = .ok conditions ∧ c.CutAsks cut conditions := by
  cases cut with
  | point dimension hierarchy path =>
    obtain ⟨d, h, resolved⟩ := resolves
    have shorter : path.length ≤ h.levels.length := fits d h resolved
    obtain ⟨conditions, compiled⟩ :=
      exists_pathConditions (sound.provides_of_resolve resolved).keyed path
    exact ⟨conditions, (cutPredicates_point resolved shorter).trans compiled, d, h, resolved,
      pathAsks_of_pathConditions shorter compiled⟩
  | range dimension hierarchy low high =>
    obtain ⟨d, column, held, keyed⟩ := resolves
    exact ⟨_, Result.bind_ok.2 ⟨d, held, Result.bind_ok.2 ⟨column, keyed, rfl⟩⟩,
      d, column, held, keyed, rfl⟩
  | set => cases resolves
  | bare => cases resolves

/-- A path that is longer than its hierarchy has no conditions. -/
theorem pathPredicates_too_deep {h : Hierarchy} {path : List Value}
    (deep : h.levels.length < path.length) :
    c.pathPredicates h path =
      .error (.problem (.depthTooDeep path.length h.levelNames h.name)) := by
  unfold pathPredicates Hierarchy.levelsForPath Hierarchy.levelsForDepth
  rw [if_neg (by omega), if_pos (by omega)]
  rfl

/-- A cut whose path is longer than its hierarchy is an error about depth. -/
theorem cutPredicates_too_deep {cut : Cut} (resolves : c.Resolves cut) (deep : ¬ c.CutFits cut) :
    ∃ p : Problem, c.cutPredicates cut = .error (.problem p) ∧ p.kind = .depth := by
  cases cut with
  | point dimension hierarchy path =>
    obtain ⟨d, h, resolved⟩ := resolves
    have longer : h.levels.length < path.length := by
      by_contra shorter
      refine deep fun other found resolvedToo => ?_
      cases resolved.symm.trans resolvedToo
      omega
    refine ⟨.depthTooDeep path.length h.levelNames h.name, ?_, rfl⟩
    unfold cutPredicates
    simp only [resolved, bind, Except.bind]
    exact pathPredicates_too_deep longer
  | range => exact absurd trivial deep
  | set => cases resolves
  | bare => cases resolves

/-- Cuts that fit compile, each to the conditions that it asks for. -/
theorem exists_predicates (sound : c.cube.IsSound) (resolve : ∀ cut ∈ cuts, c.Resolves cut)
    (fit : ∀ cut ∈ cuts, c.CutFits cut) :
    ∃ parts, c.predicates cuts = .ok parts.flatten ∧ List.Forall₂ c.CutAsks cuts parts := by
  induction cuts with
  | nil => exact ⟨[], rfl, .nil⟩
  | cons cut rest inductionHypothesis =>
    obtain ⟨first, head, asked⟩ := exists_cutPredicates sound (resolve cut List.mem_cons_self)
      (fit cut List.mem_cons_self)
    obtain ⟨parts, tail, others⟩ := inductionHypothesis
      (fun other member => resolve other (List.mem_cons_of_mem _ member))
      fun other member => fit other (List.mem_cons_of_mem _ member)
    exact ⟨first :: parts, predicates_cons_ok.2 ⟨first, _, head, tail, rfl⟩, .cons asked others⟩

/-- The first cut that does not compile is what a list of cuts fails with. -/
theorem predicates_append_error {before after : List Cut} {cut : Cut} {conditions : List Predicate}
    {fault : Fault} (compiled : c.predicates before = .ok conditions)
    (failed : c.cutPredicates cut = .error fault) :
    c.predicates (before ++ cut :: after) = .error fault := by
  induction before generalizing conditions with
  | nil =>
    rw [List.nil_append, predicates, failed]
    rfl
  | cons first rest inductionHypothesis =>
    obtain ⟨head, others, headCompiled, below, -⟩ := predicates_cons_ok.1 compiled
    rw [List.cons_append, predicates, headCompiled, inductionHypothesis below]
    rfl

/-- Cuts one of which is too deep fail with an error about depth. -/
theorem predicates_too_deep (sound : c.cube.IsSound) (resolve : ∀ cut ∈ cuts, c.Resolves cut)
    (deep : ∃ cut ∈ cuts, ¬ c.CutFits cut) :
    ∃ p : Problem, c.predicates cuts = .error (.problem p) ∧ p.kind = .depth := by
  induction cuts with
  | nil =>
    obtain ⟨cut, member, -⟩ := deep
    cases member
  | cons cut rest inductionHypothesis =>
    by_cases fits : c.CutFits cut
    · obtain ⟨other, member, longer⟩ := deep
      rcases List.mem_cons.mp member with rfl | later
      · exact absurd fits longer
      · obtain ⟨first, head, -⟩ :=
          exists_cutPredicates sound (resolve cut List.mem_cons_self) fits
        obtain ⟨p, failed, kind⟩ := inductionHypothesis
          (fun other member => resolve other (List.mem_cons_of_mem _ member)) ⟨other, later, longer⟩
        refine ⟨p, ?_, kind⟩
        rw [predicates, head, failed]
        rfl
    · obtain ⟨p, failed, kind⟩ := cutPredicates_too_deep (resolve cut List.mem_cons_self) fits
      refine ⟨p, ?_, kind⟩
      rw [predicates, failed]
      rfl

/-! ### Paths of questions -/

/-- There is no level below a path that is as long as its hierarchy, and a longer path is an error. -/
theorem values_too_deep {dimension hierarchy : Description} {path : Value} {items : List Value}
    {o : QueryOptions} {d : Dimension} {h : Hierarchy}
    (held : c.cube.dimensionOf dimension = .ok d) (found : d.hierarchy hierarchy = .ok h)
    (given : normalizePath path = .ok items) (deep : h.levels.length ≤ items.length)
    (cuts : List Cut) :
    ∃ p : Problem, c.values dimension path cuts o hierarchy = .error (.problem p) ∧
      p.kind = .depth := by
  rcases deep.lt_or_eq with longer | same
  · have next : h.nextLevel items = fail (.pathTooDeep items h.levelNames h.name) := if_pos longer
    refine ⟨.pathTooDeep items h.levelNames h.name, ?_, rfl⟩
    unfold values
    simp only [held, found, given, next, bind, Except.bind]
    rfl
  · have next : h.nextLevel items = .ok none := by
      unfold Hierarchy.nextLevel
      rw [if_neg (by omega), List.getElem?_eq_none deep]
    refine ⟨.basePath items h.name d.name, ?_, rfl⟩
    unfold values
    simp only [held, found, given, next, bind, Except.bind]
    rfl

theorem detail_too_deep {dimension hierarchy : Description} {path : Value} {items : List Value}
    {d : Dimension} {h : Hierarchy} {conditions : List Predicate}
    (held : c.cube.dimensionOf dimension = .ok d) (found : d.hierarchy hierarchy = .ok h)
    (given : normalizePath path = .ok items) (deep : h.levels.length < items.length)
    (compiled : c.predicates cuts = .ok conditions) :
    ∃ p : Problem, c.detail dimension path cuts hierarchy = .error (.problem p) ∧
      p.kind = .depth := by
  refine ⟨.depthTooDeep items.length h.levelNames h.name, ?_, rfl⟩
  unfold detail
  simp only [held, found, given, compiled, pathPredicates_too_deep deep, bind, Except.bind]

/-- A question that is too deep is an error about depth whatever the cuts are. -/
theorem compile_too_deep (sound : c.cube.IsSound) {question : Question} {path : List Value}
    (given : question.path = .ok path) (deep : ¬ c.Fits path question)
    (resolve : ∀ cut ∈ cuts, c.Resolves cut) :
    ∃ p : Problem, c.compile cuts question = .error (.problem p) ∧ p.kind = .depth := by
  cases question with
  | values dimension value o hierarchy =>
    simp only [Fits, not_forall, not_lt] at deep
    obtain ⟨d, h, held, found, deep⟩ := deep
    obtain ⟨p, failed, kind⟩ := values_too_deep (o := o) held found given deep cuts
    exact ⟨p, by rw [compile, failed]; rfl, kind⟩
  | detail dimension value hierarchy =>
    simp only [Fits, not_forall, not_le] at deep
    obtain ⟨d, h, held, found, deep⟩ := deep
    by_cases fit : ∀ cut ∈ cuts, c.CutFits cut
    · obtain ⟨parts, compiled, -⟩ := exists_predicates sound resolve fit
      obtain ⟨p, failed, kind⟩ := detail_too_deep held found given deep compiled
      exact ⟨p, by rw [compile, failed]; rfl, kind⟩
    · simp only [not_forall, exists_prop] at fit
      obtain ⟨p, failed, kind⟩ := predicates_too_deep sound resolve fit
      refine ⟨p, ?_, kind⟩
      have items : normalizePath value = .ok path := given
      unfold compile detail
      simp only [held, found, items, failed, bind, Except.bind]
      rfl
  | summary => exact absurd trivial deep
  | drill => exact absurd trivial deep
  | facts => exact absurd trivial deep

/-! ### Queries with all cuts -/

/-- No cut is lost. Of a cube that is made of descriptions a question is asked that compiles for the
whole cube. When the cuts are of what the cube has, and no path is longer than its hierarchy, the
question compiles to a query whose conditions are those that the cuts ask for, one after the other, and
then those that the question itself asks for. When a path is too long, of a cut or of the question, the
question is an error about depth. And a set after cuts that compile is not supported. -/
theorem compile_asks_for_every_cut (sound : c.cube.IsSound) {question : Question} {root : Query}
    {path : List Value} (compiles : c.compile [] question.atRoot = .ok (some root))
    (given : question.path = .ok path) :
    (∀ cuts, (∀ cut ∈ cuts, c.Resolves cut) →
      ((∀ cut ∈ cuts, c.CutFits cut) → c.Fits path question →
        ∃ q parts own, c.compile cuts question = .ok (some q) ∧
          List.Forall₂ c.CutAsks cuts parts ∧ c.QuestionAsks path own question ∧
          q.conditions = parts.flatten ++ own) ∧
      ((∃ cut ∈ cuts, ¬ c.CutFits cut) ∨ ¬ c.Fits path question →
        ∃ p : Problem, c.compile cuts question = .error (.problem p) ∧ p.kind = .depth)) ∧
    ∀ before dimension hierarchy paths after,
      (∀ cut ∈ before, c.Resolves cut ∧ c.CutFits cut) → c.Fits path question →
      c.compile (before ++ .set dimension hierarchy paths :: after) question =
          .error (.problem (.setCut dimension)) ∧
        (Problem.setCut dimension).kind = .unsupported := by
  refine ⟨fun cuts resolve => ⟨fun fit fits => ?_, fun deep => ?_⟩, ?_⟩
  · obtain ⟨make, own, asked, conditioned, equal⟩ := exists_compile_eq sound compiles given fits
    obtain ⟨parts, compiled, each⟩ := exists_predicates sound resolve fit
    refine ⟨make parts.flatten, parts, own, ?_, each, asked, conditioned _⟩
    rw [equal, compiled]
    rfl
  · by_cases fits : c.Fits path question
    · obtain ⟨make, own, -, -, equal⟩ := exists_compile_eq sound compiles given fits
      obtain ⟨p, failed, kind⟩ :=
        predicates_too_deep sound resolve (deep.resolve_right (not_not.mpr fits))
      refine ⟨p, ?_, kind⟩
      rw [equal, failed]
      rfl
    · exact compile_too_deep sound given fits resolve
  · intro before dimension hierarchy paths after compile fits
    obtain ⟨make, own, -, -, equal⟩ := exists_compile_eq sound compiles given fits
    obtain ⟨parts, compiled, -⟩ := exists_predicates sound (fun cut member => (compile cut member).1)
      fun cut member => (compile cut member).2
    have unsupported : c.cutPredicates (.set dimension hierarchy paths) =
        .error (.problem (.setCut dimension)) := rfl
    refine ⟨?_, rfl⟩
    rw [equal, predicates_append_error compiled unsupported]
    rfl

end Compiler

/-! ### Members of a market -/

namespace Market

/-- Sales at places that have codes. -/
def coded : Compiler :=
  ⟨{ sales with dimensions := [{ place with keyField := some "code" }] }, "sales"⟩

theorem isSound_coded : coded.cube.IsSound :=
  List.forall_mem_singleton.mpr ⟨isSettled_place.name, isSettled_place.extra,
    isSettled_place.levels, isSettled_place.levelsOnce, isSettled_place.hierarchies,
    isSettled_place.hierarchiesOnce⟩

/-- Linz in any country, as far as its code is a small one. -/
def smallLinz : List Cut :=
  [.point "place" none [.wildcard, .text "Linz"], .range "place" none (.int 1) (.int 9)]

/-- A street in a market that knows of no streets. -/
def street : Cut := .point "place" none [.text "AT", .text "Linz", .text "Hauptplatz"]

/-- The cities of Austria. -/
def austrianCities : Question := .values (.text "place") (.list [.text "AT"]) .unset .null

end Market

namespace Compiler

open Market in
/-- The cities of Austria that are Linz and have a small code. -/
theorem compile_asks_for_every_cut_austrianCities :
    (∃ q parts own, coded.compile smallLinz austrianCities = .ok (some q) ∧
      List.Forall₂ coded.CutAsks smallLinz parts ∧
      coded.QuestionAsks [.text "AT"] own austrianCities ∧ q.conditions = parts.flatten ++ own) ∧
    (∃ p : Problem, coded.compile (smallLinz ++ [street]) austrianCities = .error (.problem p) ∧
      p.kind = .depth) ∧
    coded.compile (smallLinz ++ [.set "place" none []]) austrianCities =
      .error (.problem (.setCut "place")) := by
  have given : austrianCities.path = .ok [.text "AT"] := rfl
  have asks := compile_asks_for_every_cut isSound_coded rfl given
  have resolve : ∀ cut ∈ smallLinz, coded.Resolves cut := by
    refine List.forall_mem_cons.mpr ⟨⟨_, _, rfl⟩, List.forall_mem_singleton.mpr ?_⟩
    exact ⟨_, _, rfl, rfl⟩
  have fit : ∀ cut ∈ smallLinz, coded.CutFits cut := by
    refine List.forall_mem_cons.mpr ⟨fun d h resolved => ?_, List.forall_mem_singleton.mpr trivial⟩
    cases resolved
    decide
  have fits : coded.Fits [.text "AT"] austrianCities := by
    intro d h held found
    cases held
    cases found
    decide
  refine ⟨(asks.1 smallLinz resolve).1 fit fits, (asks.1 (smallLinz ++ [street]) ?_).2 (.inl ?_),
    (asks.2 smallLinz "place" none [] [] (fun cut member => ⟨resolve cut member, fit cut member⟩)
      fits).1⟩
  · exact List.forall_mem_append.mpr ⟨resolve, List.forall_mem_singleton.mpr ⟨_, _, rfl⟩⟩
  · refine ⟨street, List.mem_append_right _ (List.mem_singleton_self _), fun short => ?_⟩
    exact absurd (short _ _ rfl) (by decide)

end Compiler

end Olap
