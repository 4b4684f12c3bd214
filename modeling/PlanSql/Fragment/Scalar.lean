import PlanSql.Dialect.TypeName
import PlanSql.Fragment.Scope
import PlanSql.Rule.Expansion

/-!
# Expressions as SQL

Expressions as SQL in a scope. Functions, date fields and timestamps go by the rules of the target;
a division of integers is kept from truncating; a filtered aggregate without a FILTER clause
aggregates a CASE that is absent where the condition does not hold; membership in no values is a
constant.
-/
namespace PlanSql

def BinaryOp.sql : BinaryOp → Sql.BinaryOp
  | .add => .plus
  | .sub => .minus
  | .mul => .multiply
  | .div => .divide
  | .mod => .modulo
  | .eq => .eq
  | .notEq => .notEq
  | .lt => .lt
  | .ltEq => .ltEq
  | .gt => .gt
  | .gtEq => .gtEq
  | .and => .and
  | .or => .or
  | .like => .like

def UnaryOp.sql : UnaryOp → Sql.UnaryOp
  | .neg => .minus
  | .not => .not

namespace Target

/-- A constant; errors name the expression it stands in. -/
def constant (t : Target) (e : Expr) (v : Value) : Except CompileError Sql.Expr :=
  match v with
  | .float x => if x.isFinite then .ok (.value v) else t.refuse e (.nonFinite x)
  | v => .ok (.value v)

/-- The name of a type as the target of a cast. -/
def castType (t : Target) (e : Expr) (type : DataType) : Except CompileError String :=
  match t.dialect.castTypeName? type with
  | some name => .ok name
  | none => t.refuse e (.noCastTarget type)

/-- Whether the quotient of values of the two types would lose its fraction. -/
def truncates (t : Target) (op : BinaryOp) (l r : DataType) : Bool :=
  op = .div && t.descriptor.integerDivisionTruncates && l.isInteger && r.isInteger

/-- A binary operation on lowered operands of the given types. -/
def binary (t : Target) (e : Expr) (op : BinaryOp) (l r : DataType) (left right : Sql.Expr) :
    Except CompileError Sql.Expr :=
  if t.truncates op l r then do
    let double ← t.castType e .float64
    return .binary op.sql (.cast left double) right
  else .ok (.binary op.sql left right)

/-- The argument of a filtered aggregate where there is no FILTER clause. -/
def guarded (arg : Option Sql.Expr) (condition : Sql.Expr) : Sql.Expr :=
  .case [(condition, arg.getD (.int 1))] none

/-- An aggregate call over a lowered argument and condition. -/
def aggregate (t : Target) (e : Expr) (f : AggregateFunction) (arg : Option Sql.Expr)
    (distinct : Bool) (condition : Option Sql.Expr) : Except CompileError Sql.Expr := do
  let filtersByClause := t.descriptor.supportsFilterClause
  let value := match condition with
    | some c => if filtersByClause then arg.getD .star else guarded arg c
    | none => arg.getD .star
  let filter := if filtersByClause then condition else none
  let sql ← t.call e f.ruleName [value]
  if distinct || filter.isSome then
    match sql with
    | .call name args _ _ window => return .call name args distinct filter window
    | _ => t.refuse e .noPlainAggregate
  else return sql

/-- Refuses a window that the dialect does not have. -/
def checkWindow (t : Target) (e : Expr) (ordered : Bool) : Except CompileError Unit :=
  if !t.descriptor.supportsWindowFunctions then t.refuse e .windowFunctions
  else if t.descriptor.windowRequiresOrderBy && !ordered then t.refuse e .windowWithoutOrder
  else .ok ()

/-- The arguments of a window function; a count of rows counts the star. -/
def windowArgs (f : WindowFunction) (args : List Sql.Expr) : List Sql.Expr :=
  if f = .aggregate .count && args.isEmpty then [.star] else args

def attach (t : Target) (e : Expr) (call : Sql.Expr) (window : Sql.Over Sql.Expr) :
    Except CompileError Sql.Expr :=
  match call with
  | .call name args distinct filter _ => .ok (.call name args distinct filter (some window))
  | _ => t.refuse e .noPlainWindow

end Target

namespace Expr

mutual

/-- An expression as SQL. -/
def lower (t : Target) (scope : Scope) : Expr → Except CompileError Sql.Expr
  | e@(.literal v) => t.constant e v
  | .column ref _ => scope.column ref
  | .unary op operand => do
    let operand ← lower t scope operand
    return .unary op.sql operand
  | e@(.binary op left right) => do
    let l ← lower t scope left
    let r ← lower t scope right
    t.binary e op left.dataType right.dataType l r
  | e@(.function f args) => do
    let args ← lowerAll t scope args
    t.call e (f.ruleName args.length) args
  | e@(.extract part operand) => do
    let operand ← lower t scope operand
    t.call e part.ruleName [operand]
  | e@(.toTimestamp operand unit) => do
    let operand ← lower t scope operand
    t.call e unit.ruleName [operand]
  | .inList _ [] negated => .ok (.binary .eq (.int 1) (.int (if negated then 1 else 0)))
  | e@(.inList operand (v :: vs) negated) => do
    let operand ← lower t scope operand
    let values ← (v :: vs).mapM (t.constant e)
    return .inList operand values negated
  | .isNull operand negated => do
    let operand ← lower t scope operand
    return .isNull operand negated
  | e@(.cast operand target) => do
    let operand ← lower t scope operand
    let typeName ← t.castType e target
    return .cast operand typeName
  | .case branches otherwise => do
    let branches ← lowerBranches t scope branches
    let otherwise ← lowerOption t scope otherwise
    return .case branches otherwise
  | e@(.aggregate f arg distinct filter) => do
    let arg ← lowerOption t scope arg
    let condition ← lowerOption t scope filter
    t.aggregate e f arg distinct condition
  | e@(.window f args partitionBy orderBy) => do
    t.checkWindow e !orderBy.isEmpty
    let args ← lowerAll t scope args
    let call ← t.call e f.ruleName (Target.windowArgs f args)
    let partitionBy ← lowerAll t scope partitionBy
    let orderBy ← lowerKeys t scope orderBy
    t.attach e call ⟨partitionBy, orderBy⟩

def lowerAll (t : Target) (scope : Scope) : List Expr → Except CompileError (List Sql.Expr)
  | [] => .ok []
  | e :: rest => do
    let e ← lower t scope e
    let rest ← lowerAll t scope rest
    return e :: rest

def lowerOption (t : Target) (scope : Scope) :
    Option Expr → Except CompileError (Option Sql.Expr)
  | none => .ok none
  | some e => do
    let e ← lower t scope e
    return some e

def lowerBranches (t : Target) (scope : Scope) :
    List (Expr × Expr) → Except CompileError (List (Sql.Expr × Sql.Expr))
  | [] => .ok []
  | (condition, result) :: rest => do
    let condition ← lower t scope condition
    let result ← lower t scope result
    let rest ← lowerBranches t scope rest
    return (condition, result) :: rest

def lowerKeys (t : Target) (scope : Scope) :
    List (SortKey Expr) → Except CompileError (List (SortKey Sql.Expr))
  | [] => .ok []
  | ⟨e, descending⟩ :: rest => do
    let e ← lower t scope e
    let rest ← lowerKeys t scope rest
    return ⟨e, descending⟩ :: rest

end

end Expr

end PlanSql
