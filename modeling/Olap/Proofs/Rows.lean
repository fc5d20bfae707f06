/-
What rows tell of facts. The row that a group of facts makes, and the summary that is read off such a
row, have the number of the facts and the aggregate of the measure by each operator; they only keep
them under different names. A row of a drill-down also has the values of the attributes that its
group is told by.
-/

import Mathlib.Data.List.Induction
import Olap.Browser
import Olap.Proofs.Answers
import Olap.Proofs.Compiled

namespace Olap

namespace Record

variable {β : Type}

theorem update_append (fields first second : List (String × β)) :
    update fields (first ++ second) = update (update fields first) second :=
  List.foldl_append

theorem get?_update_append_self (fields first : List (String × β)) (key : String) (value : β) :
    get? (update fields (first ++ [(key, value)])) key = some value := by
  rw [update_append]
  exact get?_set_self _ key value

theorem get?_update_append_of_ne (fields first : List (String × β)) {key other : String}
    (value : β) (different : other ≠ key) :
    get? (update fields (first ++ [(other, value)])) key = get? (update fields first) key := by
  rw [update_append]
  exact get?_set_of_ne _ value different

/-- A record that keeps one value for each key of a list. -/
theorem get?_update_map {keys : List String} {key : String} (member : key ∈ keys) (f : String → β)
    (fields : List (String × β)) :
    get? (update fields (keys.map fun key => (key, f key))) key = some (f key) := by
  induction keys using List.reverseRecOn with
  | nil => cases member
  | append_singleton first last inductionHypothesis =>
    rw [List.map_append, List.map_singleton]
    by_cases same : last = key
    · rw [same, get?_update_append_self]
    · rw [get?_update_append_of_ne _ _ _ same]
      refine inductionHypothesis ?_
      rcases List.mem_append.mp member with early | late
      · exact early
      · exact absurd (List.mem_singleton.mp late).symm same

end Record

/-- What a row tells of facts: their number, and the aggregate of a column by every operator, each
under the name of a field. -/
structure Tells (field : String → String) (column : String) (operators : List String) (row : Row)
    (facts : List Row) : Prop where
  records : Record.get? row recordCount = some (.int facts.length)
  aggregates : ∀ operator ∈ operators, ∀ function,
    Compiler.aggregate? operator = some function →
      Record.get? row (field operator) =
        some (function.ofValues (facts.map (Row.cell · column))).numbered

namespace Compiler

variable {c : Compiler} {m : Attribute} {operators : List String} {layer : Layer}

/-! ### Rows of groups -/

theorem ofGroup_recordProjection (group : List Row) (standing : Option Row) :
    recordProjection.expression.ofGroup group standing = .int group.length := by
  show Aggregator.ofPresent .count ((group.map fun _ => .int 1).filter (!Cell.isAbsent ·)) = _
  rw [List.filter_eq_self.mpr]
  · show Datum.int ((group.map fun _ => (Datum.int 1 : Value)).length : Int) = _
    rw [List.length_map]
  · intro value member
    obtain ⟨_, -, rfl⟩ := List.mem_map.mp member
    rfl

theorem get?_project_recordCount (distinct : (layer.projections.map (·.name)).Nodup)
    (selected : ∀ p ∈ c.aggregateProjections m operators, p ∈ layer.projections)
    (group : List Row) :
    Record.get? (layer.project group) recordCount = some (.int group.length) := by
  have found := Layer.get?_project distinct (selected _ (recordProjection_mem operators)) group
  rwa [ofGroup_recordProjection] at found

theorem get?_project_aggregate (distinct : (layer.projections.map (·.name)).Nodup)
    (selected : ∀ p ∈ c.aggregateProjections m operators, p ∈ layer.projections)
    (group : List Row) {operator : String} (member : operator ∈ operators)
    {function : Aggregator} (known : aggregate? operator = some function) :
    Record.get? (layer.project group) (Browser.fieldOf m.name operator) =
      some (function.ofValues (group.map (Row.cell · (c.column m)))) :=
  Layer.get?_project distinct (selected _ (mem_aggregateProjections member known)) group

end Compiler

namespace Browser

open Compiler

variable {c : Compiler} {m : Attribute} {operators : List String}

/-- Only the aggregated fields of a row are made numbers. -/
theorem get?_numberFields (fields : List String) (row : Row) (key : String) :
    Record.get? (numberFields fields row) key =
      (Record.get? row key).map fun value =>
        if fields.contains key then value.numbered else value := by
  induction row with
  | nil => rfl
  | cons field rest inductionHypothesis =>
    rw [numberFields, List.map_cons, Record.get?_cons, Record.get?_cons]
    by_cases same : field.1 = key
    · rw [if_pos same, if_pos same, ← same]
      rfl
    · rw [if_neg same, if_neg same]
      exact inductionHypothesis

/-- A row of a drill-down tells of its group. -/
theorem tells_numberFields {layer : Layer} (distinct : (layer.projections.map (·.name)).Nodup)
    (selected : ∀ p ∈ c.aggregateProjections m operators, p ∈ layer.projections)
    (group : List Row) :
    Tells (fieldOf m.name) (c.column m) operators
      (numberFields (aggregatedFields m.name operators) (layer.project group)) group := by
  refine ⟨?_, fun operator member function known => ?_⟩
  · rw [get?_numberFields, get?_project_recordCount distinct selected]
    simp [Datum.numbered]
  · rw [get?_numberFields, get?_project_aggregate distinct selected group member known]
    have aggregated : (aggregatedFields m.name operators).contains (fieldOf m.name operator) =
        true :=
      List.contains_iff_mem.mpr (List.mem_append_left _ (List.mem_map_of_mem member))
    rw [Option.map_some, aggregated, if_pos rfl]

/-- An operator is not called like the number of records. -/
theorem ne_recordCount_of_known {operator : String} {function : Aggregator}
    (known : aggregate? operator = some function) : recordCount ≠ operator := by
  rintro rfl
  have unknown : aggregate? recordCount = none := by decide
  rw [unknown] at known
  cases known

/-- A summary tells of the facts that the row was made of. -/
theorem tells_summaryOf {layer : Layer} (distinct : (layer.projections.map (·.name)).Nodup)
    (selected : ∀ p ∈ c.aggregateProjections m operators, p ∈ layer.projections)
    (facts : List Row) :
    Tells id (c.column m) operators (summaryOf (layer.project facts) m.name operators) facts := by
  refine ⟨?_, fun operator member function known => ?_⟩
  · refine (Record.get?_update_append_self _ _ _ _).trans ?_
    rw [numberIn, get?_project_recordCount distinct selected]
    rfl
  · refine (Record.get?_update_append_of_ne _ _ _ (ne_recordCount_of_known known)).trans ?_
    refine (Record.get?_update_map member
      (fun operator => numberIn (layer.project facts) (fieldOf m.name operator)) []).trans ?_
    rw [numberIn, get?_project_aggregate distinct selected facts member known]
    rfl

/-! ### Keys of rows -/

/-- The values of a row under some names. -/
def keyOf (names : List String) (row : Row) : List Value :=
  names.map fun name => (Record.get? row name).getD .null

section Standing

variable {layer : Layer} {attributes : List Attribute} {fields : List String} {group : List Row}
  {fact : Row}

/-- A row of a drill-down has the attributes of the fact that stands for its group. -/
theorem get?_numberFields_attribute (distinct : (layer.projections.map (·.name)).Nodup)
    (standing : layer.standing? group = some fact) {a : Attribute}
    (selected : c.projection a ∈ layer.projections) (apart : a.refText ∉ fields) :
    Record.get? (numberFields fields (layer.project group)) a.refText =
      some (fact.cell (c.column a)) := by
  have found := Layer.get?_project distinct selected group
  rw [standing, show (c.projection a).name = a.refText from rfl] at found
  rw [get?_numberFields, found, Option.map_some, if_neg (by simpa using apart)]
  rfl

/-- Rows that have the attributes of a fact have its key. -/
theorem keyOf_eq_key {row : Row}
    (same : ∀ a ∈ attributes, Record.get? row a.refText = some (fact.cell (c.column a))) :
    keyOf (attributes.map (·.refText)) row = fact.key (attributes.map c.column) := by
  unfold keyOf Row.key
  rw [List.map_map, List.map_map]
  refine List.map_congr_left fun a member => ?_
  show (Record.get? row a.refText).getD .null = fact.cell (c.column a)
  rw [same a member]
  rfl

end Standing

end Browser

end Olap
