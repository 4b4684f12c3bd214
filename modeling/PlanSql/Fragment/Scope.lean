import PlanSql.CompileError
import PlanSql.Relation.Basic

/-!
# Scopes of column references

Where column references lead when an expression becomes SQL.
-/
namespace PlanSql

/-- An output column and the SQL that defines it. -/
structure OutputColumn where
  name : String
  expr : Sql.Expr
  dataType : DataType
  deriving Repr

/-- Columns seen from outside the statement that makes them: by name, and possibly by an alias of
the statement. -/
def OutputColumn.under (qualifier : Option String) (c : OutputColumn) : OutputColumn :=
  { c with expr := .column qualifier c.name }

inductive Scope where
  /-- Every reference is a column of its name. -/
  | bare
  /-- References denote columns of one header and stand for their definitions. -/
  | columns (header : Header) (definitions : List OutputColumn)
  /-- References denote columns of either side of a join. -/
  | join (left right : Header) (leftColumns rightColumns : List OutputColumn)

/-- The definition of the column at a position. -/
def pickColumn (columns : List OutputColumn) (index : Nat) (ref : ColumnRef) :
    Except CompileError Sql.Expr :=
  match columns[index]? with
  | some c => .ok c.expr
  | none => .error (.plan (.columnNotFound ref.name (columns.map (·.name))))

/-- What a reference stands for. -/
def Scope.column (scope : Scope) (ref : ColumnRef) : Except CompileError Sql.Expr :=
  match scope with
  | .bare => .ok (.column none ref.name)
  | .columns header definitions =>
    match header.resolve ref with
    | .ok index => pickColumn definitions index ref
    | .error error => .error (.plan error)
  | .join left right leftColumns rightColumns =>
    match resolveSide left right ref with
    | .ok (.left, index) => pickColumn leftColumns index ref
    | .ok (.right, index) => pickColumn rightColumns index ref
    | .error error => .error (.plan error)

end PlanSql
