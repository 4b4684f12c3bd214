import PlanSql.Relation.Basic

/-!
# Checked construction of relations

Relations that make sense. Each operation checks what its operator asks of its operands and reports
the first thing that is wrong: references that denote no column, conditions that are not conditions,
aggregates and window functions out of place, output names that repeat. The first argument of an
operation is the identity of the node it makes.
-/
namespace PlanSql

/-- Refuses columns two of which have the same name. -/
def Schema.distinctNames (schema : Schema) : Except PlanError Unit :=
  match schema.repeatedName? with
  | some name => .error (.duplicateColumn name)
  | none => .ok ()

namespace Header

/-- Refuses a condition that is not Boolean or speaks of unknown columns. -/
def checkCondition (h : Header) (context : String) (condition : Expr) : Except PlanError Unit := do
  h.bind condition.columnRefs
  condition.dataType.expect context .boolean DataType.isCondition

/-- Refuses a condition on groups that has a window function in it. -/
def checkGroupCondition (h : Header) (condition : Expr) : Except PlanError Unit := do
  h.checkCondition "Having" condition
  if condition.containsWindow then throw (.invalidAggregation .windowInHaving)

/-- The positions of the columns that are grouping keys. -/
def keyPositions (h : Header) (keys : List NamedExpr) : List Nat :=
  keys.filterMap fun key =>
    match key.expr.column? with
    | none => none
    | some ref =>
      match h.lookup ref with
      | .found index => some index
      | _ => none

/-- Whether a reference denotes one of the given columns. -/
def isAmong (h : Header) (indices : List Nat) (ref : ColumnRef) : Bool :=
  match h.lookup ref with
  | .found index => indices.contains index
  | _ => false

end Header

namespace Relation

/-- A table with the given columns. -/
def scan (id : NodeId) (name : String) (aliasName : Option String) (fields : Schema) :
    Except PlanError Relation := do
  fields.distinctNames
  return .table id name aliasName fields

/-- The given outputs of each row. -/
def select (id : NodeId) (input : Relation) (exprs : List NamedExpr) :
    Except PlanError Relation := do
  let h := input.header
  if exprs.isEmpty then throw (.invalidPlan .emptyProjection)
  exprs.forM fun n => do
    h.bind n.expr.columnRefs
    if n.expr.containsAggregate then
      throw (.invalidAggregation (.aggregateInProjection n.outputName))
  Schema.distinctNames (exprs.map NamedExpr.field)
  return .project id input exprs

/-- The rows that satisfy all conditions. -/
def restrict (id : NodeId) (input : Relation) (conditions : List Expr) :
    Except PlanError Relation := do
  let h := input.header
  conditions.forM fun c => do
    h.checkCondition "Filter" c
    if c.containsAggregate then throw (.invalidAggregation .aggregateInFilter)
  return .filter id input conditions

/-- One row for each group that satisfies the conditions on groups. A column that a metric uses
outside an aggregate has to be one of the keys. -/
def group (id : NodeId) (input : Relation) (keys : List NamedExpr) (having : List Expr)
    (metrics : List NamedExpr) : Except PlanError Relation := do
  let h := input.header
  having.forM h.checkGroupCondition
  if keys.isEmpty && metrics.isEmpty then throw (.invalidAggregation .nothingToAggregate)
  keys.forM fun key => do
    h.bind key.expr.columnRefs
    if !key.expr.isRowLevel then throw (.invalidAggregation (.keyNotRowLevel key.outputName))
  let grouped := h.keyPositions keys
  metrics.forM fun m => do
    h.bind m.expr.columnRefs
    if !m.expr.containsAggregate || m.expr.containsWindow then
      throw (.invalidAggregation (.notAnAggregate m.outputName))
    match m.expr.bareColumns.find? fun ref => !h.isAmong grouped ref with
    | some ref => throw (.invalidAggregation (.ungroupedColumn ref.name m.outputName))
    | none => return ()
  Schema.distinctNames ((keys ++ metrics).map NamedExpr.field)
  return .aggregate id input keys metrics having

/-- The number of rows in a group, as a column named `count`. -/
def groupSize : NamedExpr := ⟨.countStar, some "count"⟩

/-- The rows in the order of the keys. -/
def sortBy (id : NodeId) (input : Relation) (keys : List (SortKey Expr)) :
    Except PlanError Relation := do
  let h := input.header
  keys.forM fun key => do
    h.bind key.expr.columnRefs
    if key.expr.containsAggregate then throw (.invalidAggregation .aggregateInSortKey)
  return .sort id input keys

/-- At most `count` rows, after the first `offset`. -/
def slice (id : NodeId) (input : Relation) (count : Option Nat) (offset : Nat) :
    Except PlanError Relation :=
  if count.isNone && offset = 0 then .error (.invalidPlan .emptyLimit)
  else .ok (.limit id input count offset)

/-- The pairs of rows that satisfy all conditions. -/
def joinWith (id : NodeId) (left right : Relation) (kind : JoinKind) (conditions : List Expr) :
    Except PlanError Relation := do
  let l := left.header
  let r := right.header
  if kind = .cross && !conditions.isEmpty then throw (.invalidPlan .crossJoinPredicates)
  if kind != .cross && conditions.isEmpty then throw (.invalidPlan (.missingPredicates kind.name))
  conditions.forM fun c => do
    c.dataType.expect "Join" .boolean DataType.isCondition
    if !c.isRowLevel then throw (.invalidAggregation .joinPredicateNotRowLevel)
    c.columnRefs.forM fun ref => do
      let _ ← resolveSide l r ref
  Schema.distinctNames (joinFields l.fields r.fields)
  return .join id left right kind conditions

/-- The rows with window expressions as further columns. -/
def extend (id : NodeId) (input : Relation) (exprs : List NamedExpr) :
    Except PlanError Relation := do
  let h := input.header
  exprs.forM fun n => do
    h.bind n.expr.columnRefs
    if !n.expr.containsWindow then throw (.invalidPlan (.notAWindow n.outputName))
    if n.expr.containsAggregate then
      throw (.invalidAggregation (.groupedAndWindowed n.outputName))
  Schema.distinctNames (h.fields ++ exprs.map NamedExpr.field)
  return .window id input exprs

/-- The rows without repetitions. -/
def deduplicate (id : NodeId) (input : Relation) : Relation := .distinct id input

end Relation

end PlanSql
