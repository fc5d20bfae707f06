/-
Accepting options. Options come as a record, as options accepted before, or not at all, and may be
overridden one by one. Each option is checked on its own first; what one option means for another
is checked when all of them are valid, so that options are consistent once they are accepted.
-/

import Olap.Check
import Olap.Metadata.Navigate

namespace Olap

/-- Accepted options of either kind. -/
inductive Options
  | query (o : QueryOptions)
  | aggregate (o : AggregateOptions)

/-- The direction that a word means, which may be a direction itself. Nothing means ascending. -/
def parseDirection (what : String) (words : List (String × Direction)) (d : Description) :
    Result Direction :=
  match d with
  | .null => .ok .asc
  | .direction direction => .ok direction
  | d =>
    match words.find? (·.1 == Text.lower d.shown) with
    | some (_, direction) => .ok direction
    | none => fail (.unknownDirection what d.shown)

def orderDirectionTitle : String := "order direction"

def limitSortTitle : String := "limit sort"

/-- The words that a kind of direction is given by. -/
def directionWords (what : String) : List (String × Direction) :=
  if what == limitSortTitle then limitWords else orderWords

namespace Options

/-- A word for a direction is kept as it is given. -/
def checkDirection (what : String) (d : Description) : Check (Option String) :=
  match parseDirection what (directionWords what) d with
  | .error fault => .abort fault
  | .ok _ => Coerce.optional Coerce.text d

def checkTextField (fields : Fields Part) (key : String) : Check (Option String) :=
  checkField fields [key] none (Coerce.optional Coerce.text)

def checkIntField (fields : Fields Part) (key : String) : Check (Option Int) :=
  checkField fields [key] none (Coerce.optional Coerce.int)

/-- A dimension stands for its name. -/
def checkDimension (d : Description) : Check (Option String) :=
  Coerce.optional Coerce.text d.dimensionName

def checkLevelName : Item Part → Check String :=
  Coerce.item .stringType fun d => Coerce.text (Description.levelName d)

/-- One level, or several. -/
def checkLevels (d : Description) : Check (Option (List String)) :=
  match d with
  | .null => .accept none
  | d =>
    if d.text?.isSome || d.level?.isSome then some <$> Check.each checkLevelName [.datum d]
    else
      match d.items with
      | .error fault => .abort fault
      | .ok items => some <$> Check.each checkLevelName items

/-- Whether an operator is known; what can not be a name of anything can not be looked up. -/
def checkOperator (item : Item Part) : Check String :=
  match Description.itemKey item with
  | .error fault => .abort fault
  | .ok key =>
    match key.filter (Record.contains aggregationOperators) with
    | some name => .accept name
    | none => .abort (.problem (.unknownOperator item.shown))

/-- One operator, or several. -/
def checkOperators (d : Description) : Check (Option (List String)) :=
  match d with
  | .null => .accept none
  | d =>
    if d.text?.isSome then some <$> Check.each checkOperator [.datum d]
    else
      match d.items with
      | .error fault => .abort fault
      | .ok items => some <$> Check.each checkOperator items

/-- Limits by percent or value are known but not implemented. -/
def checkLimit (d : Description) : Check (Option String) :=
  match d with
  | .null => .accept none
  | d =>
    let limit := d.shown
    if limit == "percent" || limit == "value" then .abort (.problem (.limitUnsupported limit))
    else if limit == "rank" || limit == "top_10" then .accept (some limit)
    else .abort (.problem (.unknownLimit limit))

end Options

namespace QueryOptions

def knownKeys : List (List String) :=
  [["order_by"], ["order_direction"], ["page"], ["page_size"]]

def check (fields : Fields Part) : Check QueryOptions :=
  (fun orderBy orderDirection page pageSize =>
    ⟨orderBy, orderDirection, page, pageSize,
      (knownKeys.filter fun keys => (usedKey? keys fields).isSome).map (·.headD "")⟩) <$>
    Options.checkTextField fields "order_by" <*>
    checkField fields ["order_direction"] none (Options.checkDirection orderDirectionTitle) <*>
    Options.checkIntField fields "page" <*> Options.checkIntField fields "page_size"

/-- Pages are counted from zero and have a size. -/
def validate (o : QueryOptions) : Result Unit :=
  if o.page.any (· < 0) then fail .negativePage
  else if o.pageSize.any (· ≤ 0) then fail .pageSizeNotPositive
  else if o.page.isSome && o.pageSize.isNone then fail .pageWithoutSize
  else .ok ()

def ofFields (fields : Fields Part) : Result QueryOptions := do
  let o ← ((fun o _ => o) <$> check fields <*> refuseExtra knownKeys fields :
    Check QueryOptions).result
  validate o
  return o

end QueryOptions

namespace AggregateOptions

def ownKeys : List (List String) :=
  [["row_dimension"], ["row_levels"], ["aggregations", "operators"], ["limit"], ["limit_value"],
    ["limit_sort"], ["limit_aggregation"]]

def knownKeys : List (List String) := QueryOptions.knownKeys ++ ownKeys

def check (fields : Fields Part) : Check AggregateOptions :=
  (fun base rowDimension rowLevels aggregations limit limitValue limitSort limitAggregation =>
    { toQueryOptions :=
        { base with
          given := (knownKeys.filter fun keys => (usedKey? keys fields).isSome).map (·.headD "") }
      rowDimension, rowLevels, aggregations, limit, limitValue, limitSort, limitAggregation }) <$>
    QueryOptions.check fields <*>
    checkField fields ["row_dimension"] none Options.checkDimension <*>
    checkField fields ["row_levels"] none Options.checkLevels <*>
    checkField fields ["aggregations", "operators"] none Options.checkOperators <*>
    checkField fields ["limit"] none Options.checkLimit <*>
    Options.checkIntField fields "limit_value" <*>
    checkField fields ["limit_sort"] none (Options.checkDirection limitSortTitle) <*>
    Options.checkTextField fields "limit_aggregation"

/-- A limit needs rows to keep, a number of them, and a ranking that is selected. -/
def validateLimit (o : AggregateOptions) : Result Unit :=
  if !o.isDrillDown then fail .limitWithoutDrill
  else if o.limit == some "rank" && o.limitValue.isNone then fail .rankWithoutValue
  else if o.limitValue.any (· < 0) then fail .negativeLimit
  else if !o.operators.contains o.rankedBy then fail (.limitNotSelected o.rankedBy o.operators)
  else .ok ()

def validate (o : AggregateOptions) : Result Unit :=
  if o.isDrillDown && !isSet o.rowDimension then fail .levelsWithoutDimension
  else if o.hasLimit then validateLimit o
  else .ok ()

def ofFields (fields : Fields Part) : Result AggregateOptions := do
  let o ← ((fun o _ => o) <$> check fields <*> refuseExtra knownKeys fields :
    Check AggregateOptions).result
  o.toQueryOptions.validate
  validate o
  return o

end AggregateOptions

namespace Options

/-- The options that a description holds, one by one. -/
def fieldsOf (d : Description) : Result (Fields Part) :=
  match d with
  | .null => .ok []
  | .record fields => .ok fields
  | .object (.queryOptions o) => .ok (Datum.liftFields o.givenRecord)
  | .object (.aggregateOptions o) => .ok (Datum.liftFields o.givenRecord)
  | .object part => .ok (Datum.liftFields part.toRecord)
  | d => fail (.optionsType d.typeText)

/-- Faults of single options are reported as one problem. -/
def reportInvalid {β : Type} : Result β → Result β
  | .error (.invalid details) => fail (.optionsInvalid details)
  | result => result

/-- Accepts options that a description holds and that others override. -/
def acceptFields {β : Type} (make : Fields Part → Result β) (d : Description)
    (overrides : Fields Part) : Result β := do
  let fields ← fieldsOf d
  reportInvalid (make (Record.update fields overrides))

end Options

/-- Options of a query. Accepted options that nothing overrides stay what they are. -/
def QueryOptions.accept (d : Description) (overrides : Fields Part) : Result Options :=
  match d, overrides with
  | .object (.queryOptions o), [] => .ok (.query o)
  | .object (.aggregateOptions o), [] => .ok (.aggregate o)
  | d, overrides => (Options.acceptFields QueryOptions.ofFields d overrides).map .query

/-- Options of an aggregation. -/
def AggregateOptions.accept (d : Description) (overrides : Fields Part) :
    Result AggregateOptions :=
  match d, overrides with
  | .object (.aggregateOptions o), [] => .ok o
  | d, overrides => Options.acceptFields AggregateOptions.ofFields d overrides

namespace Options

/-- What all options have. -/
def base : Options → QueryOptions
  | query o => o
  | aggregate o => o.toQueryOptions

/-- Options as a description. -/
def toPart : Options → Part
  | query o => .queryOptions o
  | aggregate o => .aggregateOptions o

end Options

end Olap
