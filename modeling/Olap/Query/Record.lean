/-
Queries as records. A query is written as a record of its clauses and can be read from one; clauses
that a record leaves out are empty. The names of the selected columns follow from the rest, so they
are written and not read.
-/

import Olap.Query

namespace Olap

namespace Predicate

def toItems : Predicate → Value
  | equals column value => .list [.text "eq", .text column, value]
  | between column low high => .list [.text "between", .text column, low, high]
  | present column => .list [.text "notnull", .text column]
  | other column => .list [.text "other", .text column]

def ofItems? : Value → Option Predicate
  | .list [.text "eq", .text column, value] => some (equals column value)
  | .list [.text "between", .text column, low, high] => some (between column low high)
  | .list [.text "notnull", .text column] => some (present column)
  | .list (.text _ :: .text column :: _) => some (other column)
  | _ => none

end Predicate

namespace Projection

def toItems (p : Projection) : Value :=
  .list [.ofOption p.expression.column?, .text p.name,
    .ofOption (p.expression.function?.map Aggregator.name)]

/-- A selected column, or the aggregate of a column or of whole rows. -/
def ofItems? : Value → Option Projection
  | .list [.text column, .text name] => some ⟨.column column, name⟩
  | .list [.text column, .text name, .null] => some ⟨.column column, name⟩
  | .list [.text column, .text name, .text function] =>
    (Aggregator.ofName? function).map fun function => ⟨.aggregate function (some column), name⟩
  | .list [.null, .text name, .text function] =>
    (Aggregator.ofName? function).map fun function => ⟨.aggregate function none, name⟩
  | _ => none

end Projection

namespace RowOrder

def toItems (o : RowOrder) : Value := .list [.text o.column, .text o.direction.name]

/-- A column with a direction; without one the order is ascending. -/
def ofItems? : Value → Option RowOrder
  | .list [.text column, .text "desc"] => some ⟨column, .desc⟩
  | .list (.text column :: _) => some ⟨column, .asc⟩
  | _ => none

end RowOrder

/-- The items of a list, each read on its own; what is left out has no items. -/
def itemsOf? {β : Type} (read? : Value → Option β) : Option Value → Option (List β)
  | none | some .null => some []
  | some (.list items) => items.mapM read?
  | some _ => none

/-- A number that may be left out. -/
def countOf? : Option Value → Option (Option Int)
  | none | some .null => some none
  | some (.int i) => some (some i)
  | some _ => none

namespace Layer

def toRecord (layer : Layer) : Row :=
  [("projections", .list (layer.projections.map Projection.toItems)),
    ("predicates", .list (layer.predicates.map Predicate.toItems)),
    ("group_by", .list (layer.groupBy.map .text)),
    ("order_by", .list (layer.orderBy.map RowOrder.toItems)),
    ("limit", layer.limit.elim .null .int), ("offset", layer.offset.elim .null .int),
    ("label", .text layer.label)]

def ofRecord? (fields : Row) : Option Layer := do
  let projections ← itemsOf? Projection.ofItems? (Record.get? fields "projections")
  let predicates ← itemsOf? Predicate.ofItems? (Record.get? fields "predicates")
  let groupBy ← itemsOf? Datum.text? (Record.get? fields "group_by")
  let orderBy ← itemsOf? RowOrder.ofItems? (Record.get? fields "order_by")
  let limit ← countOf? (Record.get? fields "limit")
  let offset ← countOf? (Record.get? fields "offset")
  let label := ((Record.get? fields "label").bind Datum.text?).getD ""
  return { projections, predicates, groupBy, orderBy, limit, offset, label }

end Layer

namespace Query

def toRecord : Query → Row
  | scan table layer =>
    ("source", .text table) :: layer.toRecord ++
      [("aliases", .list ((scan table layer).aliases.map .text))]
  | derived source layer =>
    ("source", .record source.toRecord) :: layer.toRecord ++
      [("aliases", .list ((derived source layer).aliases.map .text))]

/-- What a query reads. -/
inductive Source
  | table (name : String)
  | rows (q : Query)

/-- A layer of work over what it reads. -/
def onSource (layer : Layer) : Source → Query
  | .table name => scan name layer
  | .rows q => derived q layer

mutual

/-- What a query is said to read: a table by its name, or another query by its record. -/
def source? : Value → Option Source
  | .text name => some (.table name)
  | .record fields =>
    match sourceIn? fields, Layer.ofRecord? fields with
    | some source, some layer => some (.rows (onSource layer source))
    | _, _ => none
  | _ => none

def sourceIn? : Row → Option Source
  | [] => none
  | (key, value) :: rest => if key == "source" then source? value else sourceIn? rest

end

def ofRecord? (fields : Row) : Option Query :=
  match source? (.record fields) with
  | some (.rows q) => some q
  | _ => none

end Query

end Olap
