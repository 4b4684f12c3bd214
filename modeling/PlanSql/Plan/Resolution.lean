import PlanSql.Expr.Construction
import PlanSql.Plan.Basic
import PlanSql.Relation.Construction

/-!
# The relation of a plan

A plan describes a relation over the tables of a catalog. Terms become expressions over the columns
in their scope; every part is built before the whole is checked, and the first fault is reported.
-/
namespace PlanSql

/-- The columns that terms speak of. -/
inductive TermScope where
  | single (header : Header)
  | join (left right : Header)

namespace TermScope

/-- The header that binds a reference. -/
def header (scope : TermScope) (ref : ColumnRef) : Except PlanError Header :=
  match scope with
  | .single h => .ok h
  | .join left right => do
    let (side, _) ← resolveSide left right ref
    return match side with
      | .left => left
      | .right => right

/-- The column a name denotes. Without a table it goes under the qualifier of its relation. -/
def column (scope : TermScope) (name : String) (table : Option String) : Except PlanError Expr := do
  let h ← scope.header ⟨table, name⟩
  match table with
  | some _ => h.columnOf ⟨table, name⟩
  | none => h.column name

end TermScope

namespace Term

def constant (value : Json) (dataType : Option DataType) : Except PlanError Value :=
  match value, dataType with
  | .null, _ => .ok .null
  | .bool b, _ => .ok (.bool b)
  | .number (.float x), _ => .ok (.float x)
  | .number (.int i), t =>
    if (t.map DataType.isFloating).getD false || pow2 63 ≤ i || i < -pow2 63 then
      .ok (.float (.ofInt i))
    else .ok (.int i)
  | .string s, some .date =>
    match Date.ofText s with
    | .ok d => .ok (.date d)
    | .error fault => .error (.invalidPlan (.invalidDate s fault))
  | .string s, some .timestamp =>
    match Timestamp.ofText? s with
    | some t => .ok (.timestamp t)
    | none => .error (.invalidPlan (.invalidTimestamp s))
  | .string s, _ => .ok (.text s)
  | value, _ => .error (.invalidPlan (.unsupportedLiteral value))

/-- The aggregates by their names; a name may imply that values are counted once. -/
def aggregates : List (String × AggregateFunction × Bool) := [
  ("count", .count, false), ("nunique", .count, true), ("sum", .sum, false), ("mean", .mean, false),
  ("avg", .mean, false), ("min", .min, false), ("max", .max, false), ("std", .stdDev, false),
  ("stddev", .stdDev, false), ("var", .variance, false), ("variance", .variance, false)]

def scalarFunction (name : String) : Except PlanError ScalarFunction :=
  match ScalarFunction.choices.lookup name with
  | some f => .ok f
  | none => .error (.invalidPlan (.unknownFunction name))

def aggregateFunction (name : String) : Except PlanError (AggregateFunction × Bool) :=
  match aggregates.lookup name with
  | some found => .ok found
  | none => .error (.invalidAggregation (.unknownAggregate name))

/-- The number of rows that a window function looks away, one unless it is given. -/
def shiftOffset (name : String) (args : List Expr) : Except PlanError Int :=
  match args with
  | [] => .ok 1
  | .literal (.int n) :: _ => .ok n
  | _ => .error (.invalidPlan (.offsetNotLiteral name))

/-- A window function before its window is attached. -/
def windowFunction (name : String) (args : List Expr) : Except PlanError Expr :=
  let shift (f : WindowFunction) : Except PlanError Expr :=
    match args with
    | [] => .error (.invalidPlan (.missingArgument name))
    | e :: rest => do
      let offset ← shiftOffset name rest
      Expr.shift f e offset
  match name with
  | "row_number" => .ok (.ranking .rowNumber)
  | "rank" => .ok (.ranking .rank)
  | "dense_rank" => .ok (.ranking .denseRank)
  | "lag" => shift .lag
  | "lead" => shift .lead
  | _ =>
    match aggregates.lookup name, args with
    | some (.count, false), [] => .ok .countStar
    | some (f, false), arg :: _ => Expr.applyAggregate f arg false
    | _, _ => .error (.invalidPlan (.unknownWindowFunction name))

mutual

/-- The expression that a term describes. -/
def resolve (scope : TermScope) : Term → Except PlanError Expr
  | .literal value dataType => do
    let v ← constant value dataType
    return .literal v
  | .column name table => scope.column name table
  | .unary op operand => do
    let operand ← resolve scope operand
    Expr.applyUnary op operand
  | .binary op left right => do
    let left ← resolve scope left
    let right ← resolve scope right
    Expr.applyBinary op left right
  | .call function args => do
    let f ← scalarFunction function
    let args ← resolveAll scope args
    Expr.applyFunction f args
  | .extract part operand => do
    let operand ← resolve scope operand
    Expr.applyExtract part operand
  | .toTimestamp operand unit => do
    let operand ← resolve scope operand
    Expr.applyToTimestamp operand unit
  | .inList operand values negated => do
    let operand ← resolve scope operand
    let values ← values.mapM fun v => constant v none
    Expr.applyInList operand values negated
  | .isNull operand negated => do
    let operand ← resolve scope operand
    return .isNull operand negated
  | .cast operand target => do
    let operand ← resolve scope operand
    return .cast operand target
  | .case branches otherwise => do
    let branches ← resolveBranches scope branches
    let otherwise ← resolveOption scope otherwise
    Expr.applyCase branches otherwise
  | .aggregate function none distinct filter => do
    let (f, once) ← aggregateFunction function
    if f = .count && !distinct && !once then
      match filter with
      | none => return .countStar
      | some condition => do
        let condition ← resolve scope condition
        Expr.withFilter .countStar condition
    else throw (.invalidAggregation (.missingArgument function))
  | .aggregate function (some arg) distinct filter => do
    let (f, once) ← aggregateFunction function
    let arg ← resolve scope arg
    let e ← Expr.applyAggregate f arg (distinct || once)
    match filter with
    | none => return e
    | some condition => do
      let condition ← resolve scope condition
      Expr.withFilter e condition
  | .window function args partitionBy orderBy => do
    let args ← resolveAll scope args
    let e ← windowFunction function args
    let partitionBy ← resolveAll scope partitionBy
    let orderBy ← resolveKeys scope orderBy
    Expr.applyOver e partitionBy orderBy

def resolveAll (scope : TermScope) : List Term → Except PlanError (List Expr)
  | [] => .ok []
  | t :: rest => do
    let e ← resolve scope t
    let rest ← resolveAll scope rest
    return e :: rest

def resolveOption (scope : TermScope) : Option Term → Except PlanError (Option Expr)
  | none => .ok none
  | some t => do
    let e ← resolve scope t
    return some e

def resolveBranches (scope : TermScope) :
    List (Term × Term) → Except PlanError (List (Expr × Expr))
  | [] => .ok []
  | (condition, result) :: rest => do
    let condition ← resolve scope condition
    let result ← resolve scope result
    let rest ← resolveBranches scope rest
    return (condition, result) :: rest

def resolveKeys (scope : TermScope) :
    List (SortKey Term) → Except PlanError (List (SortKey Expr))
  | [] => .ok []
  | ⟨t, descending⟩ :: rest => do
    let e ← resolve scope t
    let rest ← resolveKeys scope rest
    return ⟨e, descending⟩ :: rest

end

/-- An output with the expression its term describes. -/
def resolveNamed (scope : TermScope) (n : Named Term) : Except PlanError NamedExpr := do
  let e ← n.expr.resolve scope
  return ⟨e, n.aliasName⟩

def resolveOutputs (scope : TermScope) (ns : List (Named Term)) :
    Except PlanError (List NamedExpr) :=
  ns.mapM (resolveNamed scope)

/-- A condition on groups, checked as soon as it is built. -/
def resolveGroupCondition (h : Header) (t : Term) : Except PlanError Expr := do
  let e ← t.resolve (.single h)
  h.checkGroupCondition e
  return e

def resolveGroupConditions (h : Header) (ts : List Term) : Except PlanError (List Expr) :=
  ts.mapM (resolveGroupCondition h)

end Term

/-- The columns of a table. -/
def Catalog.fields (catalog : Catalog) (name : String) : Except PlanError Schema :=
  match catalog.schema? name with
  | some fields => .ok fields
  | none => .error (.tableNotFound name)

/-- A computation that makes nodes, each with a new identity. -/
abbrev Building := StateT NodeId (Except PlanError)

/-- A node with the next identity. -/
def Building.node (make : NodeId → Except PlanError Relation) : Building Relation := do
  let id ← get
  let r ← make id
  set (id + 1)
  return r

open Building

namespace Plan

/-- The relation that a plan describes. -/
def resolve (catalog : Catalog) : Plan → Building Relation
  | .table name aliasName => do
    let fields ← catalog.fields name
    node fun id => Relation.scan id name aliasName fields
  | .project input exprs => do
    let input ← resolve catalog input
    let exprs ← Term.resolveOutputs (.single input.header) exprs
    node fun id => Relation.select id input exprs
  | .filter input predicates => do
    let input ← resolve catalog input
    let conditions ← Term.resolveAll (.single input.header) predicates
    node fun id => Relation.restrict id input conditions
  | .aggregate input keys metrics having => do
    let input ← resolve catalog input
    let h := input.header
    let keys ← Term.resolveOutputs (.single h) keys
    let having ← Term.resolveGroupConditions h having
    let metrics ← Term.resolveOutputs (.single h) metrics
    node fun id => Relation.group id input keys having metrics
  | .valueCounts input expr => do
    let input ← resolve catalog input
    let key ← Term.resolveNamed (.single input.header) expr
    node fun id => Relation.group id input [key] [] [Relation.groupSize]
  | .sort input keys => do
    let input ← resolve catalog input
    let keys ← Term.resolveKeys (.single input.header) keys
    node fun id => Relation.sortBy id input keys
  | .limit input count offset => do
    let input ← resolve catalog input
    node fun id => Relation.slice id input count offset
  | .join left right kind predicates => do
    let left ← resolve catalog left
    let right ← resolve catalog right
    let conditions ← Term.resolveAll (.join left.header right.header) predicates
    node fun id => Relation.joinWith id left right kind conditions
  | .window input exprs => do
    let input ← resolve catalog input
    let exprs ← Term.resolveOutputs (.single input.header) exprs
    node fun id => Relation.extend id input exprs
  | .distinct input => do
    let input ← resolve catalog input
    node fun id => return Relation.deduplicate id input

/-- The relation that a plan describes, its nodes numbered from zero. -/
def relation (catalog : Catalog) (p : Plan) : Except PlanError Relation := do
  let (r, _) ← (p.resolve catalog).run 0
  return r

end Plan

end PlanSql
