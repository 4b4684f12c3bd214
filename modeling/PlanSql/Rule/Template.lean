import PlanSql.Sql.Expr

/-!
# Templates of function calls

A template is a small expression over the arguments of a call.
-/
namespace PlanSql

/-- How a call is written. -/
inductive Template where
  /-- The argument at a position. -/
  | arg (index : Nat)
  /-- All arguments in order; it makes sense as an item of a call only. -/
  | args
  | call (name : String) (items : List Template)
  | extract (field : String) (operand : Template)
  | cast (operand : Template) (typeName : String)
  | binary (op : Sql.BinaryOp) (left right : Template)
  | int (value : Int)
  /-- A number that is written as it stands. -/
  | number (text : String)
  | string (value : String)
  deriving Repr, Inhabited

namespace Template

/-- A call of another name with all arguments. -/
def rename (name : String) : Template := .call name [.args]

/-- The greater of two positions, if there is any. -/
def later : Option Nat → Option Nat → Option Nat
  | none, b => b
  | a, none => a
  | some a, some b => some (max a b)

mutual

/-- The last argument position that a template reads by itself. -/
def maxArg : Template → Option Nat
  | .arg index => some index
  | .args | .int _ | .number _ | .string _ => none
  | .call _ items => maxArgOf items
  | .extract _ operand => operand.maxArg
  | .cast operand _ => operand.maxArg
  | .binary _ left right => later left.maxArg right.maxArg

def maxArgOf : List Template → Option Nat
  | [] => none
  | t :: rest => later t.maxArg (maxArgOf rest)

end

end Template

/-- How a dialect writes a function, or why it cannot. -/
inductive Rule where
  | template (template : Template)
  | unsupported (reason : String)
  deriving Repr, Inhabited

end PlanSql
