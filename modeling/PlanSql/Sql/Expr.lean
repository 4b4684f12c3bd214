import PlanSql.Clause
import PlanSql.Value

/-!
# Scalar expressions of SQL

Names of functions, types and extracted fields are verbatim words; what differs between dialects in
structure has been settled before an expression of this type exists.
-/
namespace PlanSql.Sql

/-- A constant, or the text of a number as it is to be written. -/
inductive Literal where
  | value (value : Value)
  | number (text : String)
  deriving DecidableEq, Repr

/-- The same constant, numbers being compared as numbers. -/
def Literal.same : Literal → Literal → Bool
  | .value v, .value w => v.same w
  | .number text, .number text' => text = text'
  | _, _ => false

inductive BinaryOp where
  | plus
  | minus
  | multiply
  | divide
  | modulo
  | eq
  | notEq
  | lt
  | ltEq
  | gt
  | gtEq
  | and
  | or
  | like
  deriving DecidableEq, Repr, Inhabited

namespace BinaryOp

def text : BinaryOp → String
  | .plus => "+"
  | .minus => "-"
  | .multiply => "*"
  | .divide => "/"
  | .modulo => "%"
  | .eq => "="
  | .notEq => "<>"
  | .lt => "<"
  | .ltEq => "<="
  | .gt => ">"
  | .gtEq => ">="
  | .and => "AND"
  | .or => "OR"
  | .like => "LIKE"

def all : List BinaryOp :=
  [.plus, .minus, .multiply, .divide, .modulo, .eq, .notEq, .lt, .ltEq, .gt, .gtEq, .and, .or,
    .like]

/-- The operator with the given text. -/
def ofText? (text : String) : Option BinaryOp := all.find? fun op => op.text = text

def isLogical : BinaryOp → Bool
  | .and | .or => true
  | _ => false

end BinaryOp

inductive UnaryOp where
  | not
  | minus
  deriving DecidableEq, Repr, Inhabited

/-- The rows a window function ranges over, and their order. -/
structure Over (ε : Type) where
  partitionBy : List ε
  orderBy : List (SortKey ε)
  deriving DecidableEq, Repr

/-- A scalar expression. -/
inductive Expr where
  | column (qualifier : Option String) (name : String)
  | literal (literal : Literal)
  /-- The star of `COUNT(*)`. -/
  | star
  | unary (op : UnaryOp) (operand : Expr)
  | binary (op : BinaryOp) (left right : Expr)
  | call (name : String) (args : List Expr) (distinct : Bool) (filter : Option Expr)
      (window : Option (Over Expr))
  | extract (field : String) (operand : Expr)
  | case (branches : List (Expr × Expr)) (otherwise : Option Expr)
  | inList (operand : Expr) (list : List Expr) (negated : Bool)
  | isNull (operand : Expr) (negated : Bool)
  | cast (operand : Expr) (typeName : String)
  deriving Repr, Inhabited

namespace Expr

def value (v : Value) : Expr := .literal (.value v)

def int (i : Int) : Expr := .value (.int i)

/-- A plain function call. -/
def apply (name : String) (args : List Expr) : Expr := .call name args false none none

def isLiteral : Expr → Bool
  | .literal _ => true
  | _ => false

/-- A reference to a column of the given name, whatever qualifies it. -/
def isColumnNamed (name : String) : Expr → Bool
  | .column _ n => n = name
  | _ => false

mutual

/-- Whether a window function is among the expression and its operands. The condition of a filtered
aggregate is not looked at. -/
def containsWindow : Expr → Bool
  | .column _ _ | .literal _ | .star => false
  | .unary _ operand => operand.containsWindow
  | .binary _ left right => left.containsWindow || right.containsWindow
  | .call _ args _ _ window => window.isSome || anyContainsWindow args
  | .extract _ operand => operand.containsWindow
  | .case branches none => branchesContainWindow branches
  | .case branches (some otherwise) => branchesContainWindow branches || otherwise.containsWindow
  | .inList operand list _ => operand.containsWindow || anyContainsWindow list
  | .isNull operand _ => operand.containsWindow
  | .cast operand _ => operand.containsWindow

def anyContainsWindow : List Expr → Bool
  | [] => false
  | e :: rest => e.containsWindow || anyContainsWindow rest

def branchesContainWindow : List (Expr × Expr) → Bool
  | [] => false
  | (condition, result) :: rest =>
    condition.containsWindow || result.containsWindow || branchesContainWindow rest

end

mutual

/-- The same expression, with constants compared as numbers where they are numbers. -/
def same : Expr → Expr → Bool
  | .column q n, .column q' n' => q = q' && n = n'
  | .literal l, .literal l' => l.same l'
  | .star, .star => true
  | .unary op a, .unary op' b => op = op' && same a b
  | .binary op a b, .binary op' c d => op = op' && same a c && same b d
  | .call n as d f o, .call n' bs d' f' o' =>
    n = n' && d = d' && sameAll as bs && sameOption f f' && sameOver o o'
  | .extract f a, .extract f' b => f = f' && same a b
  | .case as a, .case bs b => sameBranches as bs && sameOption a b
  | .inList a as n, .inList b bs n' => n = n' && same a b && sameAll as bs
  | .isNull a n, .isNull b n' => n = n' && same a b
  | .cast a t, .cast b t' => t = t' && same a b
  | _, _ => false

def sameAll : List Expr → List Expr → Bool
  | [], [] => true
  | a :: as, b :: bs => same a b && sameAll as bs
  | _, _ => false

def sameOption : Option Expr → Option Expr → Bool
  | none, none => true
  | some a, some b => same a b
  | _, _ => false

def sameBranches : List (Expr × Expr) → List (Expr × Expr) → Bool
  | [], [] => true
  | (a, b) :: as, (c, d) :: bs => same a c && same b d && sameBranches as bs
  | _, _ => false

def sameOver : Option (Over Expr) → Option (Over Expr) → Bool
  | none, none => true
  | some ⟨ps, ks⟩, some ⟨qs, ls⟩ => sameAll ps qs && sameKeys ks ls
  | _, _ => false

def sameKeys : List (SortKey Expr) → List (SortKey Expr) → Bool
  | [], [] => true
  | ⟨a, x⟩ :: as, ⟨b, y⟩ :: bs => x = y && same a b && sameKeys as bs
  | _, _ => false

end

end Expr

end PlanSql.Sql
