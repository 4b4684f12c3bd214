import PlanSql.Sql.Expr

/-!
# SELECT statements

Conditions are lists of conjuncts; an empty list means that the clause is absent.
-/
namespace PlanSql.Sql

inductive JoinOp where
  | inner
  | left
  | right
  | full
  | cross
  deriving DecidableEq, Repr, Inhabited

namespace JoinOp

def keywords : JoinOp → List String
  | .inner => ["INNER", "JOIN"]
  | .left => ["LEFT", "OUTER", "JOIN"]
  | .right => ["RIGHT", "OUTER", "JOIN"]
  | .full => ["FULL", "OUTER", "JOIN"]
  | .cross => ["CROSS", "JOIN"]

def text (op : JoinOp) : String := String.intercalate " " op.keywords

def all : List JoinOp := [.inner, .left, .right, .full, .cross]

/-- The join with the given keywords. -/
def ofText? (text : String) : Option JoinOp := all.find? fun op => op.text = text

end JoinOp

/-- An item of the projection. -/
abbrev SelectItem := Named Expr

/-- A statement over sources of type `F`. -/
structure SelectOver (F : Type) where
  distinct : Bool
  /-- The outputs; `none` stands for all columns of the source. -/
  projection : Option (List SelectItem)
  source : F
  selection : List Expr
  groupBy : List Expr
  having : List Expr
  qualify : List Expr
  orderBy : List (SortKey Expr)
  limit : Option Nat
  offset : Nat
  deriving Repr

namespace SelectOver

variable {F : Type}

/-- `SELECT *` from a source and nothing else. -/
def ofSource (source : F) : SelectOver F where
  distinct := false
  projection := none
  source := source
  selection := []
  groupBy := []
  having := []
  qualify := []
  orderBy := []
  limit := none
  offset := 0

/-- Whether rows are cut off or skipped. -/
def isLimited (s : SelectOver F) : Bool := s.limit.isSome || 0 < s.offset

end SelectOver

/-- The source of a statement. -/
inductive FromItem where
  | table (name : String) (aliasName : Option String)
  | derived (select : SelectOver FromItem) (aliasName : String)
  | join (left right : FromItem) (op : JoinOp) (on : List Expr)
  deriving Repr

abbrev Select := SelectOver FromItem

namespace Select

/-- The name of the table, if the statement is `SELECT *` from a table and nothing else. -/
def bareTable? (s : Select) : Option String :=
  match s.source with
  | .table name _ =>
    if s.projection.isNone && !s.distinct && s.selection.isEmpty && s.groupBy.isEmpty
        && s.having.isEmpty && s.qualify.isEmpty && s.orderBy.isEmpty && !s.isLimited
    then some name else none
  | _ => none

end Select

end PlanSql.Sql
