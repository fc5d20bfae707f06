/-
References of attributes. A reference is put together of the name of a dimension, a point, and the name
of an attribute, and it is taken apart at its first point, after measures and details have been searched
for it. So it leads back to the attribute it was made from when the name of the dimension has no point in
it, the attribute has a name at all, and no measure or detail is named like the reference; points in the
name of the attribute do no harm. The checks of descriptions leave these three open. In all other cases
the reference leads to something else or nowhere.
-/

import Olap.Proofs.FactLists
import Olap.Proofs.Names
import Olap.Proofs.Orders

namespace Olap

variable {c : Cube} {d : Dimension} {a b : Attribute}

/-- Attributes that agree in name, dimension and kind. -/
structure Attribute.IsLike (a b : Attribute) : Prop where
  name : a.name = b.name
  dimension : a.dimension = b.dimension
  kind : a.kind = b.kind

theorem Attribute.IsLike.ref_eq (alike : a.IsLike b) : a.ref = b.ref := by
  unfold ref
  rw [alike.name, alike.dimension]

namespace Cube

/-! ### Cubes that the checks accept -/

/-- What the checks of descriptions see to in a cube. -/
structure IsLawful (c : Cube) : Prop where
  settled : c.IsSettled
  sound : c.IsSound
  distinct : (c.dimensions.map (·.name)).Nodup

/-- A cube of its own that is made of data is lawful. -/
theorem isLawful_ofFields {fields : Fields Part} (plain : ArePlain fields)
    (made : ofFields fields = .ok c) : c.IsLawful := by
  refine ⟨isSettled_ofFields plain made, isSound_ofFields plain made, ?_⟩
  obtain ⟨draft, -, completed⟩ := ofFields_ok.1 made
  obtain ⟨name, -, -, linked⟩ := ofDraft_ok.1 completed
  exact (becomes_of_addAll linked).distinct List.nodup_nil

end Cube

/-- The cubes of a model that is made of data are lawful. -/
theorem Model.isLawful_ofRecord {d : Description} (plain : d.IsPlain) {m : Model}
    (made : ofRecord d = .ok m) {c : Cube} (member : c ∈ m.cubes) : c.IsLawful where
  settled := (isSettled_ofRecord plain made).cubes c member
  sound := isSound_ofRecord plain made member
  distinct := (isRegistry_ofRecord made).held c member

namespace Cube

/-! ### Taking references apart -/

/-- A reference is taken apart at its first point. -/
theorem splitRef_eq_some_iff {ref before after : String} :
    splitRef ref = some (before, after) ↔
      '.' ∉ before.toList ∧ ref = before ++ "." ++ after := by
  unfold splitRef
  rw [List.span_eq_takeWhile_dropWhile]
  constructor
  · intro split
    have joined := List.takeWhile_append_dropWhile (p := (· != '.')) (l := ref.toList)
    cases rest : ref.toList.dropWhile (· != '.') with
    | nil =>
      rw [rest] at split
      cases split
    | cons point later =>
      rw [rest] at split joined
      cases split
      have pointed : point = '.' := by
        have stopped := List.head_dropWhile_not (· != '.')
          (show ref.toList.dropWhile (· != '.') ≠ [] by simp [rest])
        simpa [rest] using stopped
      constructor
      · rw [String.toList_ofList]
        intro member
        simpa using List.mem_takeWhile_imp member
      · rw [pointed] at joined
        refine String.toList_inj.mp ?_
        simpa [String.toList_append] using joined.symm
  · rintro ⟨whole, rfl⟩
    have kept : ∀ char ∈ before.toList, (char != '.') = true := by
      intro char member
      rw [bne_iff_ne]
      rintro rfl
      exact whole member
    simp [String.toList_append, List.takeWhile_append_of_pos kept, List.dropWhile_append_of_pos kept]

/-! ### Measures and details -/

/-- An attribute that has the name of a measure or detail among these is like it. -/
theorem IsSettled.isLike (settled : c.IsSettled) (known : a ∈ c.measures ++ c.details)
    (other : b ∈ c.measures ++ c.details) (same : b.name = a.name) : b.IsLike a := by
  obtain ⟨-, across⟩ := checkNames_ok settled.names
  rcases List.mem_append.mp known with measure | detail <;>
    rcases List.mem_append.mp other with measureToo | detailToo
  · have first := settled.measures a measure
    have second := settled.measures b measureToo
    exact ⟨same, second.dimension.trans first.dimension.symm, second.kind.trans first.kind.symm⟩
  · exact absurd same (across b detailToo a measure)
  · exact absurd same.symm (across a detail b measureToo)
  · have first := settled.details a detail
    have second := settled.details b detailToo
    exact ⟨same, second.dimension.trans first.dimension.symm, second.kind.trans first.kind.symm⟩

/-- Measures and details are found by name before anything else, without a name too. -/
theorem attributeOf_of_named {name : Option String}
    (found : (c.measures ++ c.details).find? (·.name == name) = some a) :
    c.attributeOf (.ofOption name) = .ok a := by
  cases name with
  | none =>
    have same : (c.measures ++ c.details).find? (isNamed ·.name .null) = some a := by
      rw [← found]
      congr 1
      funext b
      cases b.name <;> rfl
    unfold attributeOf
    rw [show (Datum.ofOption none : Description) = .null from rfl, same]
    rfl
  | some name =>
    show c.attributeWithRef name = _
    unfold attributeWithRef
    rw [found]

/-! ### Attributes of dimensions -/

/-- A reference that no measure or detail claims is looked up in the dimension it begins with. -/
theorem attributeWithRef_eq {dimension name : String}
    (unclaimed : ∀ b ∈ c.measures ++ c.details, b.name ≠ some (dimension ++ "." ++ name))
    (whole : '.' ∉ dimension.toList) (held : findDimension? dimension c.dimensions = some d) :
    c.attributeWithRef (dimension ++ "." ++ name) = d.attributeNamed (.text name) := by
  have none : (c.measures ++ c.details).find? (·.name == some (dimension ++ "." ++ name)) = none :=
    List.find?_eq_none.mpr fun b member same => unclaimed b member (beq_iff_eq.mp same)
  unfold attributeWithRef
  rw [none, splitRef_eq_some_iff.mpr ⟨whole, rfl⟩]
  dsimp only
  rw [held]

/-- What no measure or detail is named like is found in the dimension that the reference begins
with, under the rest of the reference. -/
theorem exists_of_attributeWithRef {ref : String} (found : c.attributeWithRef ref = .ok a)
    (unclaimed : ∀ b ∈ c.measures ++ c.details, b.name ≠ some ref) :
    ∃ d ∈ c.dimensions, ∃ name, '.' ∉ d.name.toList ∧ ref = d.name ++ "." ++ name ∧
      d.attributeNamed (.text name) = .ok a := by
  have none : (c.measures ++ c.details).find? (·.name == some ref) = none :=
    List.find?_eq_none.mpr fun b member same => unclaimed b member (beq_iff_eq.mp same)
  unfold attributeWithRef at found
  rw [none] at found
  dsimp only at found
  split at found
  · cases found
  · rename_i dimension name split
    obtain ⟨whole, rfl⟩ := splitRef_eq_some_iff.mp split
    split at found
    · rename_i d held
      obtain rfl := name_of_findDimension? held
      exact ⟨d, List.mem_of_find?_eq_some held, name, whole, rfl, found⟩
    · cases found

end Cube

namespace Dimension

variable {d : Dimension} {a : Attribute}

theorem attributeNamed_ok {name : String} (found : d.attributeNamed (.text name) = .ok a) :
    a ∈ d.attributes ∧ a.name = some name := by
  unfold attributeNamed attributeBy at found
  split at found
  · rename_i looked
    cases found
    refine ⟨List.mem_of_find?_eq_some looked, ?_⟩
    simpa [isNamed, Datum.text?] using List.find?_some looked
  · cases found

/-- An attribute that has a name is found by it, or another one of the same name before it. -/
theorem exists_attributeNamed (member : a ∈ d.attributes) {name : String}
    (named : a.name = some name) : ∃ found, d.attributeNamed (.text name) = .ok found := by
  unfold attributeNamed attributeBy
  cases looked : d.attributes.find? (fun a => isNamed a.name (.text name)) with
  | some found => exact ⟨found, rfl⟩
  | none =>
    have other := List.find?_eq_none.mp looked a member
    exact absurd (by simp [isNamed, Datum.text?, named]) other

end Dimension

/-! ### References that lead back -/

namespace Cube

variable {c : Cube} {a b : Attribute}

/-- What leads from a reference back to its attribute: nothing has to be taken apart, or the parts
are the ones that it was put together of and nothing else claims it. -/
inductive LeadsBack (c : Cube) (a : Attribute) : Prop
  | plain (free : a.dimension = none)
  | owned {dimension : String} (owner : a.dimension = some dimension) (named : a.name ≠ none)
      (whole : '.' ∉ dimension.toList)
      (unclaimed : ∀ b ∈ c.measures ++ c.details, b.name ≠ a.ref)

/-- An attribute of a fact is one of a dimension, or a measure or detail. -/
theorem mem_factAttributes : a ∈ c.factAttributes ↔
    (∃ d ∈ c.dimensions, a ∈ d.attributes) ∨ a ∈ c.measures ++ c.details := by
  simp only [factAttributes, List.mem_append, List.mem_flatMap]
  rw [or_assoc, or_comm (a := a ∈ c.details)]

/-- Measures and details are those that belong to no dimension. -/
theorem IsSettled.dimension_eq_none (settled : c.IsSettled) (member : a ∈ c.measures ++ c.details) :
    a.dimension = none :=
  (List.mem_append.mp member).elim (fun measure => (settled.measures a measure).dimension)
    fun detail => (settled.details a detail).dimension

/-- The reference of an attribute of a dimension is put together of the names of both. -/
theorem IsSound.ref_eq (sound : c.IsSound) {d : Dimension} (held : d ∈ c.dimensions)
    (member : a ∈ d.attributes) : a.ref = some (d.name ++ "." ++ shownName a.name) :=
  (sound d held).ref_eq member

theorem IsLawful.found_of_leadsBack (lawful : c.IsLawful) (member : a ∈ c.factAttributes)
    (back : c.LeadsBack a) : ∃ found, c.attributeOf (.ofOption a.ref) = .ok found ∧ found.IsLike a := by
  rcases mem_factAttributes.mp member with ⟨d, held, inside⟩ | known
  · have dimension := lawful.sound.ref_eq held inside
    obtain ⟨owned, kind⟩ := (lawful.sound d held).attribute inside
    cases back with
    | plain free =>
      rw [free] at owned
      cases owned
    | owned owner named whole unclaimed =>
      cases owner.symm.trans owned
      obtain ⟨name, named⟩ := Option.ne_none_iff_exists'.mp named
      obtain ⟨found, looked⟩ := Dimension.exists_attributeNamed inside named
      obtain ⟨among, same⟩ := Dimension.attributeNamed_ok looked
      obtain ⟨ownedToo, kindToo⟩ := (lawful.sound d held).attribute among
      rw [dimension] at unclaimed ⊢
      rw [named] at unclaimed ⊢
      refine ⟨found, ?_, same.trans named.symm, ownedToo.trans owned.symm, kindToo.trans kind.symm⟩
      rw [← looked]
      exact attributeWithRef_eq unclaimed whole (find?_of_mem_of_nodup lawful.distinct held)
  · have named : a.ref = a.name := by
      unfold Attribute.ref
      rw [lawful.settled.dimension_eq_none known]
    cases looked : (c.measures ++ c.details).find? (·.name == a.name) with
    | none => exact absurd (beq_self_eq_true a.name) (List.find?_eq_none.mp looked a known)
    | some found =>
      have same : found.name = a.name :=
        beq_iff_eq.mp (List.find?_some (p := fun b : Attribute => b.name == a.name) looked)
      refine ⟨found, ?_, lawful.settled.isLike known (List.mem_of_find?_eq_some looked) same⟩
      rw [named]
      exact attributeOf_of_named looked

theorem IsLawful.leadsBack_of_found (lawful : c.IsLawful) (member : a ∈ c.factAttributes)
    (found : c.attributeOf (.ofOption a.ref) = .ok b) (alike : b.IsLike a) : c.LeadsBack a := by
  rcases mem_factAttributes.mp member with ⟨d, held, inside⟩ | known
  · have dimension := lawful.sound.ref_eq held inside
    obtain ⟨owned, -⟩ := (lawful.sound d held).attribute inside
    have foreign : ∀ other ∈ c.measures ++ c.details, other ≠ b := by
      rintro other claims rfl
      have free := lawful.settled.dimension_eq_none claims
      rw [alike.dimension, owned] at free
      cases free
    -- A measure or detail of this name would have been found instead.
    have unclaimed : ∀ other ∈ c.measures ++ c.details, other.name ≠ a.ref := by
      intro other claims same
      cases looked : (c.measures ++ c.details).find? (·.name == a.ref) with
      | none => exact List.find?_eq_none.mp looked other claims (beq_iff_eq.mpr same)
      | some first =>
        have instead := attributeOf_of_named looked
        rw [found] at instead
        cases instead
        exact foreign b (List.mem_of_find?_eq_some looked) rfl
    rw [dimension] at found unclaimed
    obtain ⟨e, heldToo, name, whole, -, looked⟩ := exists_of_attributeWithRef found unclaimed
    obtain ⟨among, named⟩ := Dimension.attributeNamed_ok looked
    have same : e.name = d.name := by
      have ownedToo := ((lawful.sound e heldToo).attribute among).1
      rw [alike.dimension, owned] at ownedToo
      exact (Option.some.inj ownedToo).symm
    refine .owned owned ?_ (same ▸ whole) (dimension ▸ unclaimed)
    rw [← alike.name, named]
    exact Option.some_ne_none name
  · exact .plain (lawful.settled.dimension_eq_none known)

end Cube

/-! ### Cubes to look attributes up in -/

namespace Market

/-- A description of a cube with one dimension of one level, whose attributes are given. -/
def referenced (dimension : String) (attributes details : List Value) : Row :=
  [("name", .text "sales"), ("measures", .list [.text "amount"]), ("details", .list details),
    ("dimensions", .list [.record [("name", .text dimension), ("levels", .list [.record
      [("name", .text "city"), ("attributes", .list attributes), ("label_attribute", .text "city")]])]])]

theorem arePlain_liftFields (row : Row) : ArePlain (Datum.liftFields row : Fields Part) :=
  Datum.isPlain_record.mp ⟨.record row, rfl⟩

/-- An attribute of a dimension. -/
def owned (dimension : String) (name : Option String) : Attribute :=
  (Attribute.ofName .attribute name).attach dimension

/-- The name of the attribute has a point in it. -/
def pointedName : Row := referenced "geo" [.text "city", .text "place.city"] [.text "note"]

/-- The name of the dimension has a point in it. -/
def pointedDimension : Row := referenced "geo.place" [.text "city"] []

/-- A detail is named like the reference of an attribute. -/
def claimed : Row := referenced "place" [.text "city"] [.text "place.city"]

/-- An attribute has no name. -/
def unnamed : Row := referenced "place" [.text "city", .record []] []

end Market

namespace Compiler

variable {c : Compiler} {a : Attribute} {o : QueryOptions}

/-- Facts can be ordered by an attribute that its reference leads back to. -/
theorem orderings_of_leadsBack (lawful : c.cube.IsLawful) (member : a ∈ c.cube.factAttributes)
    (back : c.cube.LeadsBack a) {ref : String} (known : a.ref = some ref)
    (asked : o.orderBy = some ref) :
    c.orderings o [] [] = .ok [⟨c.cube.columnName ref, o.direction⟩] := by
  obtain ⟨found, looked, alike⟩ := lawful.found_of_leadsBack member back
  rw [known] at looked
  have looked : c.cube.attributeWithRef ref = .ok found := looked
  have column : c.column found = c.cube.columnName ref := by
    unfold column Attribute.refText
    rw [alike.ref_eq, known]
    rfl
  rw [orderings_of_named asked (lawful.settled.ref_ne_empty looked),
    orderColumn_of_found List.not_mem_nil looked, ← column]
  rfl

/-- An attribute of a fact is found by its reference, the same in name, dimension and kind, if and
only if the reference leads back. Then facts can be ordered by it whatever they are cut to, and they
are ordered by the very column that is selected under the reference. -/
theorem found_by_reference_iff (lawful : c.cube.IsLawful) (member : a ∈ c.cube.factAttributes) :
    ((∃ found, c.cube.attributeOf (.ofOption a.ref) = .ok found ∧ found.IsLike a) ↔
        c.cube.LeadsBack a) ∧
      (c.cube.LeadsBack a → ∀ (ref : String) (o : QueryOptions) (cuts : List Cut),
        a.ref = some ref → o.orderBy = some ref →
          ⟨.column (c.cube.columnName ref), ref⟩ ∈ c.factProjections ∧
            c.facts cuts o = (c.predicates cuts).map fun conditions =>
              .scan c.table (c.factLayer conditions [⟨c.cube.columnName ref, o.direction⟩] o)) := by
  refine ⟨⟨?_, lawful.found_of_leadsBack member⟩, fun back ref o cuts known asked => ⟨?_, ?_⟩⟩
  · rintro ⟨found, looked, alike⟩
    exact lawful.leadsBack_of_found member looked alike
  · have selected := List.mem_map_of_mem (f := c.projection) member
    unfold projection column Attribute.refText at selected
    rw [known] at selected
    exact List.mem_cons_of_mem _ selected
  · cases compiled : c.predicates cuts with
    | error fault =>
      unfold facts
      rw [compiled]
      rfl
    | ok conditions =>
      exact facts_ok compiled (orderings_of_leadsBack lawful member back known asked)

open Market

/-- A point in the name of the attribute is no obstacle. -/
theorem found_by_reference_pointedName :
    ∃ c found layer, Cube.ofFields (Datum.liftFields pointedName) = .ok c ∧
      c.attributeOf (.text "geo.place.city") = .ok found ∧
      found.IsLike (owned "geo" (some "place.city")) ∧
      (Compiler.of c none).facts [] { QueryOptions.unset with orderBy := some "geo.place.city" } =
        .ok (.scan "sales" layer) ∧
      layer.orderBy = [⟨"geo.place.city", .asc⟩] := by
  obtain ⟨c, made⟩ : ∃ c, Cube.ofFields (Datum.liftFields pointedName) = .ok c := ⟨_, rfl⟩
  have lawful := Cube.isLawful_ofFields (arePlain_liftFields pointedName) made
  have member : owned "geo" (some "place.city") ∈ c.factAttributes := by
    cases made
    exact List.mem_cons_of_mem _ List.mem_cons_self
  have back : c.LeadsBack (owned "geo" (some "place.city")) := by
    cases made
    exact .owned rfl (Option.some_ne_none _) (by decide) (by decide)
  obtain ⟨finds, orders⟩ := found_by_reference_iff (c := .of c none) lawful member
  obtain ⟨found, looked, alike⟩ := finds.mpr back
  have ordered := (orders back "geo.place.city"
    { QueryOptions.unset with orderBy := some "geo.place.city" } [] rfl rfl).2
  cases made
  exact ⟨_, found, _, rfl, looked, alike, ordered, rfl⟩

/-- What a cube is made of is accepted, but an attribute of its facts is not found by its reference. -/
def MissesAttribute (row : Row) : Prop :=
  ∃ c a, Cube.ofFields (Datum.liftFields row) = .ok c ∧ a ∈ c.factAttributes ∧
    ¬∃ found, c.attributeOf (.ofOption a.ref) = .ok found ∧ found.IsLike a

/-- An attribute is missed when the name of its dimension has a point, when a detail is called like its
reference, and when it has no name. -/
theorem exists_attribute_not_found :
    MissesAttribute pointedDimension ∧ MissesAttribute claimed ∧ MissesAttribute unnamed := by
  refine ⟨⟨_, owned "geo.place" (some "city"), rfl, List.mem_cons_self, ?_⟩,
    ⟨_, owned "place" (some "city"), rfl, List.mem_cons_self, ?_⟩,
    ⟨_, owned "place" none, rfl, List.mem_cons_of_mem _ List.mem_cons_self, ?_⟩⟩
  · rintro ⟨found, looked, -⟩
    cases looked
  · rintro ⟨found, looked, alike⟩
    cases looked
    exact nomatch alike.dimension
  · rintro ⟨found, looked, -⟩
    cases looked

end Compiler

end Olap
