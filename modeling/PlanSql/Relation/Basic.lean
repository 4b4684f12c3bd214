import PlanSql.Relation.Header

/-!
# Relations as trees of operators

Each node has an identity: a relation that is used in several places is one node, and two relations
built alike are two. The header of a relation is computed from its tree.
-/
namespace PlanSql

inductive JoinKind where
  | inner
  | left
  | right
  | full
  | cross
  deriving DecidableEq, Repr, Inhabited

namespace JoinKind

def name : JoinKind → String
  | .inner => "inner"
  | .left => "left"
  | .right => "right"
  | .full => "full"
  | .cross => "cross"

def all : List JoinKind := [.inner, .left, .right, .full, .cross]

def choices : List (String × JoinKind) := all.map fun k => (k.name, k)

end JoinKind

/-- The identity of a node. -/
abbrev NodeId := Nat

/-- A tree of relational operators. -/
inductive Relation where
  | table (id : NodeId) (name : String) (aliasName : Option String) (fields : Schema)
  | project (id : NodeId) (input : Relation) (exprs : List NamedExpr)
  | filter (id : NodeId) (input : Relation) (conditions : List Expr)
  /-- Groups by the keys; conditions on groups speak of the input's columns. -/
  | aggregate (id : NodeId) (input : Relation) (keys metrics : List NamedExpr) (having : List Expr)
  | sort (id : NodeId) (input : Relation) (keys : List (SortKey Expr))
  | limit (id : NodeId) (input : Relation) (count : Option Nat) (offset : Nat)
  | join (id : NodeId) (left right : Relation) (kind : JoinKind) (conditions : List Expr)
  /-- The columns of the input and then the window expressions. -/
  | window (id : NodeId) (input : Relation) (exprs : List NamedExpr)
  | distinct (id : NodeId) (input : Relation)
  deriving Repr

namespace Relation

def id : Relation → NodeId
  | .table id _ _ _ | .project id _ _ | .filter id _ _ | .aggregate id _ _ _ _ | .sort id _ _
  | .limit id _ _ _ | .join id _ _ _ _ | .window id _ _ | .distinct id _ => id

/-- The name of the operator at the root. -/
def kindName : Relation → String
  | .table _ _ _ _ => "Table"
  | .project _ _ _ => "Project"
  | .filter _ _ _ => "Filter"
  | .aggregate _ _ _ _ [] => "Aggregate"
  | .aggregate _ _ _ _ _ => "Having"
  | .sort _ _ _ => "Sort"
  | .limit _ _ _ _ => "Limit"
  | .join _ _ _ _ _ => "Join"
  | .window _ _ _ => "Window"
  | .distinct _ _ => "Distinct"

/-- The names of the operators that the root works on. Conditions on groups work on the groups. -/
def inputNames : Relation → List String
  | .table _ _ _ _ => []
  | .aggregate _ _ _ _ (_ :: _) => ["Aggregate"]
  | .join _ left right _ _ => [left.kindName, right.kindName]
  | .project _ input _ | .filter _ input _ | .aggregate _ input _ _ [] | .sort _ input _
  | .limit _ input _ _ | .window _ input _ | .distinct _ input => [input.kindName]

/-- The columns of a join: those of the left side, then those of the right, renamed where the left
side has the name already. -/
def joinFields (left right : Schema) : Schema :=
  left ++ right.map fun f =>
    if left.names.contains f.name then { f with name := f.name ++ "_right" } else f

/-- The columns of a relation. -/
def header : Relation → Header
  | .table _ name aliasName fields => .make (some (aliasName.getD name)) fields []
  | .project _ input exprs =>
    let h := input.header
    .make h.qualifier (exprs.map NamedExpr.field) (exprs.map fun n => h.originOf n.expr)
  | .aggregate _ input keys metrics _ =>
    let h := input.header
    .make h.qualifier ((keys ++ metrics).map NamedExpr.field)
      ((keys.map fun n => h.originOf n.expr) ++ metrics.map fun _ => none)
  | .window _ input exprs =>
    let h := input.header
    .make h.qualifier (h.fields ++ exprs.map NamedExpr.field)
      (h.origins ++ exprs.map fun _ => none)
  | .join _ left right _ _ =>
    let l := left.header
    let r := right.header
    ⟨none, joinFields l.fields r.fields, l.origins ++ r.origins⟩
  | .filter _ input _ | .sort _ input _ | .limit _ input _ _ | .distinct _ input => input.header

def schema (r : Relation) : Schema := r.header.fields

/-- The side of a join that a reference denotes, and the position there. -/
def resolveJoinSide (r : Relation) (ref : ColumnRef) : Except PlanError (JoinSide × Nat) :=
  match r with
  | .join _ left right _ _ => resolveSide left.header right.header ref
  | r => .error (.invalidPlan (.notAJoin r.kindName))

def sameOutputs : List NamedExpr → List NamedExpr → Bool
  | [], [] => true
  | a :: as, b :: bs => NamedExpr.same a b && sameOutputs as bs
  | _, _ => false

/-- The same operators on the same inputs, with the same columns; identities do not matter. -/
def same (r s : Relation) : Bool :=
  r.header = s.header &&
  match r, s with
  | .table _ name aliasName _, .table _ name' aliasName' _ => name = name' && aliasName = aliasName'
  | .project _ input exprs, .project _ input' exprs' =>
    sameOutputs exprs exprs' && same input input'
  | .filter _ input cs, .filter _ input' cs' => Expr.sameAll cs cs' && same input input'
  | .aggregate _ input keys metrics having, .aggregate _ input' keys' metrics' having' =>
    sameOutputs keys keys' && sameOutputs metrics metrics' && Expr.sameAll having having'
      && same input input'
  | .sort _ input keys, .sort _ input' keys' => Expr.sameKeys keys keys' && same input input'
  | .limit _ input count offset, .limit _ input' count' offset' =>
    count = count' && offset = offset' && same input input'
  | .join _ left right kind cs, .join _ left' right' kind' cs' =>
    kind = kind' && Expr.sameAll cs cs' && same left left' && same right right'
  | .window _ input exprs, .window _ input' exprs' => sameOutputs exprs exprs' && same input input'
  | .distinct _ input, .distinct _ input' => same input input'
  | _, _ => false

end Relation

end PlanSql
