import PlanSql.Clause
import PlanSql.Expr.Operator

/-!
# Scalar expressions

Scalar expressions over the columns of relations. A column carries its type, so every expression has
one, which `Expr.dataType` computes; the checked constructors beside this module build the
expressions for which the rules of its operators hold.
-/
namespace PlanSql

/-- A column by its name and, possibly, by the relation it was taken from. -/
structure ColumnRef where
  relation : Option String
  name : String
  deriving DecidableEq, Repr, Inhabited

/-- The reference as it stands in messages. -/
def ColumnRef.text (ref : ColumnRef) : String :=
  match ref.relation with
  | some relation => relation ++ "." ++ ref.name
  | none => ref.name

/-- A scalar expression. -/
inductive Expr where
  | literal (value : Value)
  | column (ref : ColumnRef) (dataType : DataType)
  | unary (op : UnaryOp) (operand : Expr)
  | binary (op : BinaryOp) (left right : Expr)
  | function (f : ScalarFunction) (args : List Expr)
  | extract (part : DatePart) (operand : Expr)
  | toTimestamp (operand : Expr) (unit : TimeUnit)
  | inList (operand : Expr) (values : List Value) (negated : Bool)
  | isNull (operand : Expr) (negated : Bool)
  | cast (operand : Expr) (target : DataType)
  | case (branches : List (Expr × Expr)) (otherwise : Option Expr)
  /-- An aggregate; only a count of rows has no argument. -/
  | aggregate (f : AggregateFunction) (arg : Option Expr) (distinct : Bool) (filter : Option Expr)
  | window (f : WindowFunction) (args : List Expr) (partitionBy : List Expr)
      (orderBy : List (SortKey Expr))
  deriving Repr

instance : Inhabited Expr := ⟨.literal .null⟩

/-- An expression as an output. -/
abbrev NamedExpr := Named Expr

/-- The type a check found; a check that failed leaves none. -/
def resultOf (check : Except PlanError DataType) : DataType :=
  match check with
  | .ok t => t
  | .error _ => .null

/-- The type of a window function over arguments of the given types. -/
def WindowFunction.resultType (f : WindowFunction) (args : List DataType) : DataType :=
  match f, args with
  | .lag, t :: _ | .lead, t :: _ => t
  | .aggregate f, t :: _ => resultOf (f.resultType t)
  | _, _ => .int64

namespace Expr

/-- The rows counted, with or without a value. -/
def countStar : Expr := .aggregate .count none false none

/-- A window function without arguments, over all rows. -/
def ranking (f : WindowFunction) : Expr := .window f [] [] []

def int (i : Int) : Expr := .literal (.int i)

/-- The reference, if the expression is a column and nothing else. -/
def column? : Expr → Option ColumnRef
  | .column ref _ => some ref
  | _ => none

def isAggregate : Expr → Bool
  | .aggregate _ _ _ _ => true
  | _ => false

def isWindow : Expr → Bool
  | .window _ _ _ _ => true
  | _ => false

/-- The operands, in the order they are evaluated. -/
def children : Expr → List Expr
  | .literal _ | .column _ _ => []
  | .unary _ operand | .extract _ operand | .toTimestamp operand _ | .inList operand _ _
  | .isNull operand _ | .cast operand _ => [operand]
  | .binary _ left right => [left, right]
  | .function _ args => args
  | .case branches otherwise => branches.flatMap (fun (c, r) => [c, r]) ++ otherwise.toList
  | .aggregate _ arg _ filter => arg.toList ++ filter.toList
  | .window _ args partitionBy orderBy => args ++ partitionBy ++ orderBy.map (·.expr)

mutual

/-- The type of an expression. -/
def dataType : Expr → DataType
  | .literal v => v.dataType
  | .column _ t => t
  | .unary op operand => resultOf (op.resultType operand.dataType)
  | .binary op left right => resultOf (op.resultType left.dataType right.dataType)
  | .function f args => resultOf (f.resultType (dataTypes args))
  | .extract _ _ => .int32
  | .toTimestamp _ _ => .timestamp
  | .inList _ _ _ | .isNull _ _ => .bool
  | .cast _ target => target
  | .case branches none => resultOf (caseType (branchTypes branches) none)
  | .case branches (some e) => resultOf (caseType (branchTypes branches) (some e.dataType))
  | .aggregate _ none _ _ => .int64
  | .aggregate f (some arg) _ _ => resultOf (f.resultType arg.dataType)
  | .window f args _ _ => f.resultType (dataTypes args)

def dataTypes : List Expr → List DataType
  | [] => []
  | e :: rest => e.dataType :: dataTypes rest

def branchTypes : List (Expr × Expr) → List (DataType × DataType)
  | [] => []
  | (condition, result) :: rest => (condition.dataType, result.dataType) :: branchTypes rest

end

/-- An expression before what lies below it, unless it stops the walk. -/
def visit (stop : Expr → Bool) (e : Expr) (inside : List Expr) : List Expr :=
  e :: if stop e then [] else inside

mutual

/-- What lies below an expression, left to right, without what lies below an expression that stops
the walk. -/
def inside (stop : Expr → Bool) : Expr → List Expr
  | .literal _ | .column _ _ => []
  | .unary _ operand | .extract _ operand | .toTimestamp operand _ | .inList operand _ _
  | .isNull operand _ | .cast operand _ => visit stop operand (inside stop operand)
  | .binary _ left right =>
    visit stop left (inside stop left) ++ visit stop right (inside stop right)
  | .function _ args => insideAll stop args
  | .case branches otherwise => insideBranches stop branches ++ insideOption stop otherwise
  | .aggregate _ arg _ filter => insideOption stop arg ++ insideOption stop filter
  | .window _ args partitionBy orderBy =>
    insideAll stop args ++ insideAll stop partitionBy ++ insideKeys stop orderBy

def insideAll (stop : Expr → Bool) : List Expr → List Expr
  | [] => []
  | e :: rest => visit stop e (inside stop e) ++ insideAll stop rest

def insideOption (stop : Expr → Bool) : Option Expr → List Expr
  | none => []
  | some e => visit stop e (inside stop e)

def insideBranches (stop : Expr → Bool) : List (Expr × Expr) → List Expr
  | [] => []
  | (c, r) :: rest =>
    visit stop c (inside stop c) ++ visit stop r (inside stop r) ++ insideBranches stop rest

def insideKeys (stop : Expr → Bool) : List (SortKey Expr) → List Expr
  | [] => []
  | ⟨e, _⟩ :: rest => visit stop e (inside stop e) ++ insideKeys stop rest

end

/-- An expression and its parts, left to right, without what lies below a part that stops the
walk. -/
def walk (stop : Expr → Bool) (e : Expr) : List Expr := visit stop e (inside stop e)

theorem insideAll_eq (stop : Expr → Bool) (es : List Expr) :
    insideAll stop es = es.flatMap (walk stop) := by
  induction es with
  | nil => rfl
  | cons e rest ih => simp [insideAll, walk, ih]

theorem insideOption_eq (stop : Expr → Bool) (e : Option Expr) :
    insideOption stop e = e.toList.flatMap (walk stop) := by
  cases e <;> simp [insideOption, walk]

theorem insideBranches_eq (stop : Expr → Bool) (branches : List (Expr × Expr)) :
    insideBranches stop branches = (branches.flatMap fun (c, r) => [c, r]).flatMap (walk stop) := by
  induction branches with
  | nil => rfl
  | cons b rest ih => simp [insideBranches, walk, ih]

theorem insideKeys_eq (stop : Expr → Bool) (keys : List (SortKey Expr)) :
    insideKeys stop keys = (keys.map (·.expr)).flatMap (walk stop) := by
  induction keys with
  | nil => rfl
  | cons k rest ih => simp [insideKeys, walk, ih]

/-- What lies below an expression is what the walks of its operands meet, in the operands' order. -/
theorem inside_eq (stop : Expr → Bool) (e : Expr) :
    inside stop e = e.children.flatMap (walk stop) := by
  cases e <;> simp [inside, children, walk, insideAll_eq, insideOption_eq, insideBranches_eq,
    insideKeys_eq]

/-- An expression and all its parts, left to right. -/
def parts (e : Expr) : List Expr := e.walk fun _ => false

/-- Whether values of a group enter the expression; an aggregate within a window is evaluated per
window. -/
def containsAggregate (e : Expr) : Bool := (e.walk isWindow).any isAggregate

def containsWindow (e : Expr) : Bool := e.parts.any isWindow

/-- Neither an aggregate nor a window function takes part in the expression. -/
def isRowLevel (e : Expr) : Bool := !e.containsAggregate && !e.containsWindow

/-- All column references, left to right. -/
def columnRefs (e : Expr) : List ColumnRef := e.parts.filterMap column?

/-- The column references that are not under an aggregate. -/
def bareColumns (e : Expr) : List ColumnRef := (e.walk isAggregate).filterMap column?

/-- The conditions that a condition joins by AND. -/
def conjuncts : Expr → List Expr
  | .binary .and left right => left.conjuncts ++ right.conjuncts
  | e => [e]

end Expr

/-- A constant in the name of an expression. -/
def Value.displayName : Value → String
  | .null => "NULL"
  | .bool b => toString b
  | .int i => toString i
  | .float x => x.plain
  | .text s => "'" ++ s ++ "'"
  | .date d => d.text
  | .timestamp t => t.text

namespace Expr

/-- A name with arguments. -/
def called (name : String) (args : List String) : String :=
  name ++ "(" ++ String.intercalate ", " args ++ ")"

mutual

/-- The name of an output that has none of its own. -/
def defaultName : Expr → String
  | .literal v => v.displayName
  | .column ref _ => ref.name
  | .unary op operand => called op.displayName [operand.defaultName]
  | .binary op left right => called op.displayName [left.defaultName, right.defaultName]
  | .function f args => called f.displayName (defaultNames args)
  | .extract part operand => called part.displayName [operand.defaultName]
  | .toTimestamp operand unit => called "TimestampFromUNIX" [operand.defaultName, unit.symbol]
  | .inList operand _ negated =>
    called (if negated then "NotInValues" else "InValues") [operand.defaultName]
  | .isNull operand negated =>
    called (if negated then "NotNull" else "IsNull") [operand.defaultName]
  | .cast operand target => called "Cast" [operand.defaultName, target.text]
  | .case _ _ => "SearchedCase"
  | .aggregate .count none _ _ => "CountStar()"
  | .aggregate .count (some arg) true _ => called "CountDistinct" [arg.defaultName]
  | .aggregate f (some arg) _ _ => called f.displayName [arg.defaultName]
  | .aggregate f none _ _ => called f.displayName []
  | .window f args _ _ => called f.displayName (defaultNames args)

def defaultNames : List Expr → List String
  | [] => []
  | e :: rest => e.defaultName :: defaultNames rest

end

mutual

/-- The same expression, with constants compared as numbers where they are numbers. -/
def same : Expr → Expr → Bool
  | .literal v, .literal w => v.same w
  | .column ref t, .column ref' t' => ref = ref' && t = t'
  | .unary op a, .unary op' b => op = op' && same a b
  | .binary op a b, .binary op' c d => op = op' && same a c && same b d
  | .function f as, .function f' bs => f = f' && sameAll as bs
  | .extract p a, .extract p' b => p = p' && same a b
  | .toTimestamp a u, .toTimestamp b u' => u = u' && same a b
  | .inList a vs n, .inList b ws n' => n = n' && same a b && sameValues vs ws
  | .isNull a n, .isNull b n' => n = n' && same a b
  | .cast a t, .cast b t' => t = t' && same a b
  | .case as a, .case bs b => sameBranches as bs && sameOption a b
  | .aggregate f a d c, .aggregate f' b d' c' =>
    f = f' && d = d' && sameOption a b && sameOption c c'
  | .window f as ps ks, .window f' bs qs ls =>
    f = f' && sameAll as bs && sameAll ps qs && sameKeys ks ls
  | _, _ => false

def sameAll : List Expr → List Expr → Bool
  | [], [] => true
  | a :: as, b :: bs => same a b && sameAll as bs
  | _, _ => false

def sameOption : Option Expr → Option Expr → Bool
  | none, none => true
  | some a, some b => same a b
  | _, _ => false

def sameBranches : List (Expr × Expr) → List (Expr × Expr) → Bool
  | [], [] => true
  | (a, b) :: as, (c, d) :: bs => same a c && same b d && sameBranches as bs
  | _, _ => false

def sameKeys : List (SortKey Expr) → List (SortKey Expr) → Bool
  | [], [] => true
  | ⟨a, x⟩ :: as, ⟨b, y⟩ :: bs => x = y && same a b && sameKeys as bs
  | _, _ => false

end

end Expr

namespace NamedExpr

/-- The name an output goes by. -/
def outputName (n : NamedExpr) : String := n.aliasName.getD n.expr.defaultName

/-- The column an output makes, which may be absent. -/
def field (n : NamedExpr) : Field := .ofType n.outputName n.expr.dataType

def same (a b : NamedExpr) : Bool := a.aliasName = b.aliasName && a.expr.same b.expr

end NamedExpr

end PlanSql
