/-
Groups of rows. Rows with the same key make a group, absent values being the same as each other. So
the groups of some rows share them out: every row is in exactly one group, a group has all rows of
its key, and rows of different groups have different keys. What is shared out in this way adds up,
whatever is added.

Some of the groups may be kept and the others dropped. The rows that are left out then are exactly
those whose key is the key of no row that is kept.
-/

import Mathlib
import Olap.Table

namespace Olap

namespace Cell

/-! ### Keys -/

theorem sameKey_iff {key other : List Value} :
    sameKey key other = true ↔ key.map rank = other.map rank := by
  induction key generalizing other with
  | nil => cases other <;> simp [sameKey]
  | cons value rest inductionHypothesis =>
    cases other with
    | nil => simp [sameKey]
    | cons otherValue otherRest =>
      rw [sameKey, Bool.and_eq_true, same, beq_iff_eq, inductionHypothesis, List.map_cons,
        List.map_cons, List.cons.injEq]

theorem sameKey_refl (key : List Value) : sameKey key key = true := sameKey_iff.mpr rfl

theorem sameKey_comm (key other : List Value) : sameKey key other = sameKey other key := by
  rw [Bool.eq_iff_iff, sameKey_iff, sameKey_iff, eq_comm]

theorem sameKey_symm {key other : List Value} (same : sameKey key other = true) :
    sameKey other key = true := sameKey_comm key other ▸ same

theorem sameKey_trans {key middle other : List Value} (first : sameKey key middle = true)
    (second : sameKey middle other = true) : sameKey key other = true :=
  sameKey_iff.mpr ((sameKey_iff.mp first).trans (sameKey_iff.mp second))

/-- Only the ranks of a key count. -/
theorem sameKey_congr_left {key other third : List Value} (same : sameKey key other = true) :
    sameKey key third = sameKey other third := by
  rw [Bool.eq_iff_iff, sameKey_iff, sameKey_iff, sameKey_iff.mp same]

end Cell

open Cell

theorem mem_of_mem_distinctKeys {key : List Value} {keys : List (List Value)}
    (member : key ∈ distinctKeys keys) : key ∈ keys := by
  induction keys with
  | nil => exact member
  | cons first rest inductionHypothesis =>
    rcases List.mem_cons.mp member with rfl | later
    · exact List.mem_cons_self
    · exact List.mem_cons_of_mem _ (inductionHypothesis (List.mem_filter.mp later).1)

/-- Every key is the same as one of the distinct keys. -/
theorem exists_mem_distinctKeys {key : List Value} {keys : List (List Value)}
    (member : key ∈ keys) : ∃ known ∈ distinctKeys keys, sameKey known key = true := by
  induction keys with
  | nil => cases member
  | cons first rest inductionHypothesis =>
    rcases List.mem_cons.mp member with rfl | later
    · exact ⟨key, List.mem_cons_self, sameKey_refl key⟩
    · obtain ⟨known, knownMember, same⟩ := inductionHypothesis later
      by_cases asFirst : sameKey first known = true
      · exact ⟨first, List.mem_cons_self, sameKey_trans asFirst same⟩
      · refine ⟨known, List.mem_cons_of_mem _ (List.mem_filter.mpr ⟨knownMember, ?_⟩), same⟩
        rw [Bool.not_eq_true] at asFirst
        rw [asFirst]
        rfl

theorem pairwise_distinctKeys (keys : List (List Value)) :
    (distinctKeys keys).Pairwise fun key other => sameKey key other = false := by
  induction keys with
  | nil => exact List.Pairwise.nil
  | cons first rest inductionHypothesis =>
    refine List.Pairwise.cons ?_ (inductionHypothesis.filter _)
    intro other member
    simpa using (List.mem_filter.mp member).2

/-! ### Sharing out rows -/

/-- The rows of two groups have different keys. -/
def Apart (columns : List String) (group other : List Row) : Prop :=
  ∀ row ∈ group, ∀ otherRow ∈ other, sameKey (row.key columns) (otherRow.key columns) = false

theorem Apart.symm {columns : List String} {group other : List Row}
    (apart : Apart columns group other) : Apart columns other group := by
  intro row member otherRow otherMember
  rw [sameKey_comm]
  exact apart otherRow otherMember row member

/-- Groups that share out rows by the values of columns. -/
structure Shares (columns : List String) (groups : List (List Row)) (rows : List Row) : Prop where
  /-- Every row is in one group, once. -/
  whole : groups.flatten.Perm rows
  /-- A group has all rows with the key of one of its rows, in their order. -/
  alike : ∀ group ∈ groups, ∀ row ∈ group,
    group = rows.filter fun other => sameKey (row.key columns) (other.key columns)
  apart : groups.Pairwise (Apart columns)

/-- The rows with one of two keys that differ are those with the one and those with the other. -/
theorem filter_append_filter_perm {rows : List Row} {first second : Row → Bool}
    (disjoint : ∀ row, first row = true → second row = false) :
    (rows.filter first ++ rows.filter second).Perm
      (rows.filter fun row => first row || second row) := by
  have left : (rows.filter fun row => first row || second row).filter first =
      rows.filter first := by
    rw [List.filter_filter]
    refine List.filter_congr fun row _ => ?_
    cases first row <;> simp
  have right : (rows.filter fun row => first row || second row).filter (!first ·) =
      rows.filter second := by
    rw [List.filter_filter]
    refine List.filter_congr fun row _ => ?_
    cases known : first row with
    | false => simp
    | true => simp [disjoint row known]
  have both := List.filter_append_perm first (rows.filter fun row => first row || second row)
  rwa [left, right] at both

/-- The rows of keys that differ are those with any of the keys. -/
theorem flatten_filter_perm (columns : List String) (rows : List Row) (keys : List (List Value))
    (apart : keys.Pairwise fun key other => sameKey key other = false) :
    (keys.map fun key => rows.filter fun row => sameKey key (row.key columns)).flatten.Perm
      (rows.filter fun row => keys.any fun key => sameKey key (row.key columns)) := by
  induction keys with
  | nil => simp
  | cons key rest inductionHypothesis =>
    rw [List.pairwise_cons] at apart
    have disjoint : ∀ row : Row, sameKey key (row.key columns) = true →
        (rest.any fun other => sameKey other (row.key columns)) = false := by
      intro row same
      rw [List.any_eq_false]
      intro other member sameOther
      have both := sameKey_trans same (sameKey_symm sameOther)
      rw [apart.1 other member] at both
      cases both
    rw [List.map_cons, List.flatten_cons]
    exact ((inductionHypothesis apart.2).append_left _).trans (filter_append_filter_perm disjoint)

/-- The groups of a query share out its rows. -/
theorem shares_groupRows (directions : List Direction) (columns : List String) (rows : List Row) :
    Shares columns (groupRows directions columns rows) rows := by
  have sorted := List.mergeSort_perm (distinctKeys (rows.map (Row.key columns)))
    fun a b => !lessKey directions b a
  have apart := (pairwise_distinctKeys (rows.map (Row.key columns))).perm sorted.symm
    fun different => by rwa [sameKey_comm]
  refine ⟨?_, ?_, ?_⟩
  · refine (flatten_filter_perm columns rows _ apart).trans (List.Perm.of_eq ?_)
    rw [List.filter_eq_self]
    intro row member
    obtain ⟨known, knownMember, same⟩ :=
      exists_mem_distinctKeys (List.mem_map_of_mem (f := Row.key columns) member)
    exact List.any_eq_true.mpr ⟨known, sorted.mem_iff.mpr knownMember, same⟩
  · intro group member row rowMember
    obtain ⟨key, -, rfl⟩ := List.mem_map.mp member
    refine List.filter_congr fun other _ => ?_
    exact sameKey_congr_left (List.mem_filter.mp rowMember).2
  · refine List.pairwise_map.mpr (apart.imp fun {key other} different => ?_)
    intro row member otherRow otherMember
    rw [Bool.eq_false_iff]
    intro same
    have through := sameKey_trans (List.mem_filter.mp member).2 same
    rw [sameKey_trans through (sameKey_symm (List.mem_filter.mp otherMember).2)] at different
    cases different

/-- A group by keys has a row: the one that its key comes from. -/
theorem ne_nil_of_mem_groupRows {directions : List Direction} {columns : List String}
    {rows group : List Row} (member : group ∈ groupRows directions columns rows) :
    group ≠ [] := by
  obtain ⟨key, keyMember, rfl⟩ := List.mem_map.mp member
  have distinct := (List.mergeSort_perm _ _).mem_iff.mp keyMember
  obtain ⟨row, rowMember, rfl⟩ := List.mem_map.mp (mem_of_mem_distinctKeys distinct)
  exact List.ne_nil_of_mem (List.mem_filter.mpr ⟨rowMember, sameKey_refl _⟩)

/-- All rows together are one group when there is nothing to tell them apart by. -/
theorem shares_whole (rows : List Row) : Shares [] [rows] rows := by
  refine ⟨?_, ?_, List.pairwise_singleton _ _⟩
  · rw [List.flatten_singleton]
  · intro group member row _
    rw [List.mem_singleton.mp member]
    exact (List.filter_eq_self.mpr fun other _ => rfl).symm

/-- When every group that is kept is told by a key, the rows that are left out are those that have
none of these keys. -/
theorem Shares.left_out {columns : List String} {groups kept : List (List Row)} {rows : List Row}
    (shares : Shares columns groups rows) (part : kept.Subperm groups)
    {tell : List Row → List Value} (told : ∀ group ∈ kept,
      group = rows.filter fun row => sameKey (tell group) (row.key columns)) :
    ((rows.filter fun row => !kept.any fun group => sameKey (tell group) (row.key columns)) ++
      kept.flatten).Perm rows := by
  obtain ⟨ordered, order, sublist⟩ := part
  obtain ⟨rest, split⟩ := sublist.exists_perm_append
  have all : groups.Perm (rest ++ kept) :=
    (split.trans (order.append_right rest)).trans List.perm_append_comm
  have whole : (rest.flatten ++ kept.flatten).Perm rows := by
    rw [← List.flatten_append]
    exact all.symm.flatten.trans shares.whole
  have apart := (List.pairwise_append.mp (shares.apart.perm all Apart.symm)).2.2
  have dropped : rest.flatten.filter
      (fun row => !kept.any fun group => sameKey (tell group) (row.key columns)) =
        rest.flatten := by
    rw [List.filter_eq_self]
    intro row member
    rw [Bool.not_eq_true', List.any_eq_false]
    intro group groupMember same
    obtain ⟨other, otherMember, rowMember⟩ := List.mem_flatten.mp member
    have inside : row ∈ group := by
      rw [told group groupMember]
      exact List.mem_filter.mpr ⟨whole.mem_iff.mp (List.mem_append_left _ member), same⟩
    have different := apart other otherMember group groupMember row rowMember row inside
    rw [sameKey_refl] at different
    cases different
  have stayed : kept.flatten.filter
      (fun row => !kept.any fun group => sameKey (tell group) (row.key columns)) = [] := by
    rw [List.filter_eq_nil_iff]
    intro row member
    obtain ⟨group, groupMember, inside⟩ := List.mem_flatten.mp member
    rw [told group groupMember] at inside
    rw [Bool.not_eq_true', Bool.not_eq_false, List.any_eq_true]
    exact ⟨group, groupMember, (List.mem_filter.mp inside).2⟩
  have filtered := whole.filter fun row =>
    !kept.any fun group => sameKey (tell group) (row.key columns)
  rw [List.filter_append, dropped, stayed, List.append_nil] at filtered
  exact (filtered.symm.append_right _).trans whole

/-! ### Rearranging groups -/

theorem flatten_filter_eq {α : Type} (keep : List α → Bool) (groups : List (List α)) :
    (groups.filter keep).flatten = (groups.map fun group => if keep group then group else []).flatten := by
  induction groups with
  | nil => rfl
  | cons group rest inductionHypothesis =>
    rw [List.map_cons, List.flatten_cons, ← inductionHypothesis, List.filter_cons]
    split
    · rfl
    · rfl

namespace Shares

variable {columns : List String} {groups others : List (List Row)} {rows : List Row}

theorem mem_of_mem (shares : Shares columns groups rows) {group : List Row} (known : group ∈ groups)
    {row : Row} (member : row ∈ group) : row ∈ rows :=
  shares.whole.mem_iff.mp (List.mem_flatten.mpr ⟨group, known, member⟩)

/-- The order in which groups come makes no difference. -/
theorem of_perm (shares : Shares columns groups rows) (order : others.Perm groups) :
    Shares columns others rows :=
  ⟨order.flatten.trans shares.whole, fun group member => shares.alike group (order.mem_iff.mp member),
    shares.apart.perm order.symm Apart.symm⟩

theorem nodup (shares : Shares columns groups rows) (filled : ∀ group ∈ groups, group ≠ []) :
    groups.Nodup := by
  refine shares.apart.imp_of_mem fun {group other} member _ apart same => ?_
  obtain ⟨row, inside⟩ := List.exists_mem_of_ne_nil group (filled group member)
  have different := apart row inside row (same ▸ inside)
  rw [sameKey_refl] at different
  cases different

/-- Rows are shared out by columns in one way only, but for the order of the groups. -/
theorem perm (shares : Shares columns groups rows) (sharesToo : Shares columns others rows)
    (filled : ∀ group ∈ groups, group ≠ []) (filledToo : ∀ group ∈ others, group ≠ []) :
    groups.Perm others := by
  have subset : ∀ {groups others : List (List Row)}, Shares columns groups rows →
      Shares columns others rows → (∀ group ∈ groups, group ≠ []) → groups ⊆ others := by
    intro groups others shares sharesToo filled group member
    obtain ⟨row, inside⟩ := List.exists_mem_of_ne_nil group (filled group member)
    obtain ⟨other, known, insideToo⟩ :=
      List.mem_flatten.mp (sharesToo.whole.mem_iff.mpr (shares.mem_of_mem member inside))
    rwa [shares.alike group member row inside, ← sharesToo.alike other known row insideToo]
  refine (List.perm_ext_iff_of_nodup (shares.nodup filled) (sharesToo.nodup filledToo)).mpr
    fun group => ⟨?_, ?_⟩
  · exact fun member => subset shares sharesToo filled member
  · exact fun member => subset sharesToo shares filledToo member

/-- The groups of rows that have a property share out these rows, when rows with the same key have the
property together. -/
theorem filter (shares : Shares columns groups rows) (property : Row → Bool)
    (respected : ∀ row ∈ rows, ∀ other ∈ rows,
      sameKey (row.key columns) (other.key columns) = true → property row = property other) :
    Shares columns (groups.filter fun group => group.any property) (rows.filter property) := by
  -- A group has the property in all of its rows or in none.
  have together : ∀ group ∈ groups, group.filter property =
      if group.any property then group else [] := by
    intro group member
    split
    · rename_i some
      obtain ⟨row, inside, has⟩ := List.any_eq_true.mp some
      refine List.filter_eq_self.mpr fun other insideToo => ?_
      have alike := insideToo
      rw [shares.alike group member row inside, List.mem_filter] at alike
      rw [← respected row (shares.mem_of_mem member inside) other alike.1 alike.2, has]
    · rename_i none
      refine List.filter_eq_nil_iff.mpr fun row inside has => none ?_
      exact List.any_eq_true.mpr ⟨row, inside, has⟩
  refine ⟨?_, ?_, shares.apart.filter _⟩
  · refine List.Perm.trans (List.Perm.of_eq ?_) (shares.whole.filter property)
    rw [List.filter_flatten, List.map_congr_left together, flatten_filter_eq]
  · intro group member row inside
    obtain ⟨known, some⟩ := List.mem_filter.mp member
    have has : property row = true := by
      have all := together group known
      rw [if_pos some] at all
      exact (List.mem_filter.mp (all ▸ inside)).2
    refine (shares.alike group known row inside).trans ?_
    rw [List.filter_filter]
    refine List.filter_congr fun other otherMember => ?_
    cases same : sameKey (row.key columns) (other.key columns) with
    | false => rfl
    | true =>
      rw [← respected row (shares.mem_of_mem known inside) other otherMember same, has]
      rfl

end Shares

end Olap
