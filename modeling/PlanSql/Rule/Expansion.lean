import PlanSql.CompileError
import PlanSql.Expr.Basic

/-!
# Function calls by rule

A function call in a dialect is a rule's template with the arguments put in.
-/
namespace PlanSql

/-- A dialect and the rules to write functions by. -/
structure Target where
  dialect : Dialect
  rules : RuleTable

def Target.descriptor (t : Target) : Descriptor := t.dialect.descriptor

/-- The dialect cannot express an expression. -/
def Target.refuse {α : Type} (t : Target) (e : Expr) (limit : ExpressionLimit) :
    Except CompileError α :=
  .error (.unsupportedExpression e.defaultName t.dialect limit)

namespace Template

mutual

/-- A template with the given arguments put in. -/
def expand (args : List Sql.Expr) : Template → Except ExpressionLimit Sql.Expr
  | .arg index =>
    match args[index]? with
    | some e => .ok e
    | none => .error (.missingArgument index args.length)
  | .args => .error .argumentsOutsideCall
  | .call name items => do
    let items ← expandItems args items
    return .apply name items
  | .extract field operand => do
    let operand ← expand args operand
    return .extract field operand
  | .cast operand typeName => do
    let operand ← expand args operand
    return .cast operand typeName
  | .binary op left right => do
    let left ← expand args left
    let right ← expand args right
    return .binary op left right
  | .int value => .ok (.int value)
  | .number text => .ok (.literal (.number text))
  | .string value => .ok (.value (.text value))

/-- The items of a call; the placeholder for all arguments stands for as many items. -/
def expandItems (args : List Sql.Expr) : List Template → Except ExpressionLimit (List Sql.Expr)
  | [] => .ok []
  | .args :: rest => do
    let rest ← expandItems args rest
    return args ++ rest
  | item :: rest => do
    let item ← expand args item
    let rest ← expandItems args rest
    return item :: rest

end

end Template

/-- A call of a function as the rules have it. Errors name the expression that makes the call. -/
def Target.call (t : Target) (e : Expr) (function : String) (args : List Sql.Expr) :
    Except CompileError Sql.Expr :=
  match t.rules.resolve function t.dialect with
  | .ok (.template template) =>
    match template.expand args with
    | .ok sql => .ok sql
    | .error limit => t.refuse e limit
  | .ok (.unsupported reason) => t.refuse e (.rule reason)
  | .error (.functionNotFound function _) => t.refuse e (.noRule function)
  | .error error => .error (.registry error)

end PlanSql
