import PlanSql.Expr.Basic

/-!
# Checked construction of expressions

Expressions whose parts go together. Each constructor checks the rules of the operator it applies,
in a fixed order, and reports the first rule that is broken: operand types as the operator's
`resultType` has them, and aggregates and window functions only where they make sense.
-/
namespace PlanSql.Expr

def applyBinary (op : BinaryOp) (left right : Expr) : Except PlanError Expr := do
  let _ ← op.resultType left.dataType right.dataType
  return .binary op left right

def applyUnary (op : UnaryOp) (operand : Expr) : Except PlanError Expr := do
  let _ ← op.resultType operand.dataType
  return .unary op operand

def applyFunction (f : ScalarFunction) (args : List Expr) : Except PlanError Expr := do
  let _ ← f.resultType (dataTypes args)
  return .function f args

def applyExtract (part : DatePart) (operand : Expr) : Except PlanError Expr := do
  let _ ← part.resultType operand.dataType
  return .extract part operand

def applyToTimestamp (operand : Expr) (unit : TimeUnit) : Except PlanError Expr := do
  let _ ← TimeUnit.resultType operand.dataType
  return .toTimestamp operand unit

/-- Membership in a list of constants. -/
def applyInList (operand : Expr) (values : List Value) (negated : Bool) :
    Except PlanError Expr := do
  let _ ← membershipType operand.dataType values
  return .inList operand values negated

/-- The result of the first branch whose condition holds. -/
def applyCase (branches : List (Expr × Expr)) (otherwise : Option Expr) :
    Except PlanError Expr := do
  if branches.isEmpty then throw (.invalidPlan .emptyCase)
  let _ ← caseType (branchTypes branches) (otherwise.map dataType)
  return .case branches otherwise

/-- An aggregate of a row-level argument. -/
def applyAggregate (f : AggregateFunction) (arg : Expr) (distinct : Bool) :
    Except PlanError Expr := do
  if arg.containsAggregate then throw (.invalidAggregation (.nestedAggregate f.displayName))
  if arg.containsWindow then throw (.invalidAggregation (.windowInside f.displayName))
  let _ ← f.resultType arg.dataType
  return .aggregate f (some arg) distinct none

/-- An aggregate of the rows for which a row-level condition holds. -/
def withFilter (e condition : Expr) : Except PlanError Expr := do
  condition.dataType.expect "aggregate filter" .boolean DataType.isCondition
  if !condition.isRowLevel then throw (.invalidAggregation .filterNotRowLevel)
  match e with
  | .aggregate f arg distinct none => return .aggregate f arg distinct (some condition)
  | .aggregate _ _ _ (some _) => throw (.invalidAggregation .secondFilter)
  | _ => throw (.invalidAggregation .filterOnOther)

/-- The value of an expression some rows before or after, over all rows. -/
def shift (f : WindowFunction) (e : Expr) (offset : Int) : Except PlanError Expr := do
  if !e.isRowLevel then throw (.invalidAggregation (.shiftNotRowLevel f.displayName))
  return .window f [e, .int offset] [] []

/-- A window function or a plain aggregate over the rows with equal partition values, in the given
order. It replaces any window the expression had. -/
def applyOver (e : Expr) (partitionBy : List Expr) (orderBy : List (SortKey Expr)) :
    Except PlanError Expr := do
  if !(partitionBy ++ orderBy.map (·.expr)).all isRowLevel then
    throw (.invalidAggregation .windowKeyNotRowLevel)
  match e with
  | .window f args _ _ => return .window f args partitionBy orderBy
  | .aggregate f arg false none => return .window (.aggregate f) arg.toList partitionBy orderBy
  | .aggregate _ _ _ _ => throw (.invalidAggregation .qualifiedAggregateOver)
  | _ => throw (.invalidAggregation .overOnOther)

end PlanSql.Expr
