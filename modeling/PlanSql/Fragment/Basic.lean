import PlanSql.Fragment.Scalar
import PlanSql.Sql.Select

/-!
# SELECT statements under construction

Statements under construction. A fragment is a SELECT with the SQL that defines each of its output
columns; an operator either becomes part of the SELECT of its input or, where the order of
evaluation does not allow that, works on a new SELECT over it.
-/
namespace PlanSql

/-- A SELECT and its output columns. A projection that is there has one item for each column. -/
structure Fragment where
  select : Sql.Select
  columns : List OutputColumn
  /-- The SELECT groups or aggregates. -/
  aggregated : Bool
  /-- The SELECT evaluates window functions. -/
  windowed : Bool
  deriving Repr

/-- The alias of an item that makes the column `name`. A column reference has one only where its
name differs; any other expression has one only if it is asked for. -/
def itemAlias (e : Sql.Expr) (name : String) (asked : Bool) : Option String :=
  match e with
  | .column _ n => if n = name then none else some name
  | _ => if asked then some name else none

/-- Items that each show the name of their column. -/
def namedItems : List Sql.SelectItem → List OutputColumn → List Sql.SelectItem
  | item :: items, c :: columns =>
    (if item.aliasName.isNone && !item.expr.isColumnNamed c.name then ⟨item.expr, some c.name⟩
      else item)
      :: namedItems items columns
  | items, _ => items

namespace Fragment

/-- All rows and columns of a source. -/
def ofSource (source : Sql.FromItem) (columns : List OutputColumn) : Fragment where
  select := .ofSource source
  columns := columns
  aggregated := false
  windowed := false

def ofTable (name : String) (aliasName : Option String) (fields : Schema) : Fragment :=
  ofSource (.table name aliasName) (fields.map fun f => ⟨f.name, .column none f.name, f.dataType⟩)

/-- The statement with every column under its name. -/
def named (f : Fragment) : Sql.Select :=
  { f.select with projection := f.select.projection.map fun items => namedItems items f.columns }

/-- A new SELECT over the fragment as a derived table. -/
def wrapped (f : Fragment) (aliasName : String) : Fragment :=
  ofSource (.derived f.named aliasName) (f.columns.map (OutputColumn.under none))

/-- The fragment as a source of a join, and its columns as seen from there. -/
def joinSide (f : Fragment) (aliasName : String) : Sql.FromItem × List OutputColumn :=
  let source := match f.select.bareTable? with
    | some table => .table table (some aliasName)
    | none => .derived f.named aliasName
  (source, f.columns.map (OutputColumn.under (some aliasName)))

/-- The scope of expressions over the fragment's columns, which follow the given header. -/
def scope (f : Fragment) (header : Header) : Scope := .columns header f.columns

/-- The fragment with the rows of a table repeated or cut off. -/
def isSettled (f : Fragment) : Bool := f.select.isLimited || f.select.distinct

/-- The items of the projection, which may be that of the source. -/
def items (f : Fragment) : List Sql.SelectItem :=
  match f.select.projection with
  | some items => items
  | none => f.columns.map fun c => .unnamed c.expr

/-- An output as an item and a column. -/
def output (t : Target) (scope : Scope) (nameComputed : Bool) (n : NamedExpr) :
    Except CompileError (Sql.SelectItem × OutputColumn) := do
  let name := n.outputName
  let e ← n.expr.lower t scope
  return (⟨e, itemAlias e name (nameComputed || n.aliasName.isSome)⟩, ⟨name, e, n.expr.dataType⟩)

/-- Outputs as items and columns. Every computed item is named if `nameComputed` says so. -/
def outputs (t : Target) (scope : Scope) (nameComputed : Bool) (exprs : List NamedExpr) :
    Except CompileError (List Sql.SelectItem × List OutputColumn) := do
  let pairs ← exprs.mapM (output t scope nameComputed)
  return pairs.unzip

/-- Conditions as a list of conjuncts. -/
def conditions (t : Target) (scope : Scope) (cs : List Expr) :
    Except CompileError (List Sql.Expr) :=
  (cs.flatMap Expr.conjuncts).mapM (Expr.lower t scope)

/-- The given outputs of each row. -/
def project (t : Target) (header : Header) (exprs : List NamedExpr) (f : Fragment) :
    Except CompileError Fragment := do
  let (items, columns) ← outputs t (f.scope header) false exprs
  return { f with
    select := { f.select with projection := some items }
    columns := columns
    windowed := f.windowed || items.any fun item => item.expr.containsWindow }

/-- The dialect cannot express an operator. -/
def refuse {α : Type} (t : Target) (operator : String) (limit : OperatorLimit) :
    Except CompileError α :=
  .error (.unsupportedOperator operator t.dialect limit)

/-- The rows that satisfy the conditions: a condition goes to the last clause that sees all
columns. -/
def filter (t : Target) (header : Header) (cs : List Expr) (f : Fragment) :
    Except CompileError Fragment := do
  let conjuncts ← conditions t (f.scope header) cs
  if f.aggregated then
    if !t.descriptor.supportsHaving then refuse t "Filter" .having
    else return { f with select := { f.select with having := f.select.having ++ conjuncts } }
  else if f.windowed then
    return { f with select := { f.select with qualify := f.select.qualify ++ conjuncts } }
  else return { f with select := { f.select with selection := f.select.selection ++ conjuncts } }

/-- One row for each group. The keys stand in GROUP BY as they do in the projection; the order of
rows does not survive. -/
def aggregate (t : Target) (header : Header) (keys metrics : List NamedExpr) (having : List Expr)
    (f : Fragment) : Except CompileError Fragment := do
  let scope := f.scope header
  let (keyItems, keyColumns) ← outputs t scope true keys
  let (metricItems, metricColumns) ← outputs t scope false metrics
  let conjuncts ← conditions t scope having
  if !conjuncts.isEmpty && !t.descriptor.supportsHaving then refuse t "Having" .having
  else return {
    select := { f.select with
      projection := some (keyItems ++ metricItems)
      groupBy := keyItems.map (·.expr)
      having := f.select.having ++ conjuncts
      orderBy := [] }
    columns := keyColumns ++ metricColumns
    aggregated := true
    windowed := false }

/-- The rows in the order of the keys; an earlier order decides among rows with equal keys. -/
def sort (t : Target) (header : Header) (keys : List (SortKey Expr)) (f : Fragment) :
    Except CompileError Fragment := do
  let keys ← Expr.lowerKeys t (f.scope header) keys
  return { f with select := { f.select with orderBy := keys ++ f.select.orderBy } }

/-- At most `count` rows, after the first `offset`. -/
def limit (count : Option Nat) (offset : Nat) (f : Fragment) : Fragment :=
  { f with select := { f.select with limit := count, offset := offset } }

/-- The rows with window expressions as further columns. -/
def window (t : Target) (header : Header) (exprs : List NamedExpr) (f : Fragment) :
    Except CompileError Fragment := do
  let (items, columns) ← outputs t (f.scope header) false exprs
  return { f with
    select := { f.select with projection := some (f.items ++ items) }
    columns := f.columns ++ columns
    windowed := true }

/-- The sort keys that are among the projection's items. -/
def selectedKeys (projection : Option (List Sql.SelectItem)) (keys : List (SortKey Sql.Expr)) :
    List (SortKey Sql.Expr) :=
  match projection with
  | none => keys
  | some items => keys.filter fun key => items.any fun item => item.expr.same key.expr

/-- The rows without repetitions, which may be ordered by selected expressions only. -/
def distinct (f : Fragment) : Fragment :=
  { f with select := { f.select with
      distinct := true
      orderBy := selectedKeys f.select.projection f.select.orderBy } }

/-- The join operator of the dialect. -/
def joinOp (t : Target) (kind : JoinKind) : Except CompileError Sql.JoinOp :=
  match kind with
  | .inner => .ok .inner
  | .left => .ok .left
  | .cross => .ok .cross
  | .right =>
    if t.descriptor.supportsRightJoin then .ok .right
    else refuse t "Join" (.outerJoin kind.name)
  | .full =>
    if t.descriptor.supportsFullJoin then .ok .full
    else refuse t "Join" (.outerJoin kind.name)

/-- A column of one side under its name in the join. -/
def joinColumn (field : Field) (c : OutputColumn) : Sql.SelectItem × OutputColumn :=
  (⟨c.expr, itemAlias c.expr field.name false⟩, ⟨field.name, c.expr, field.dataType⟩)

/-- The pairs of rows of two sources. The fields are those of the join. -/
def join (t : Target) (op : Sql.JoinOp) (left right : Header) (fields : Schema) (cs : List Expr)
    (leftSide rightSide : Sql.FromItem × List OutputColumn) : Except CompileError Fragment := do
  let on ← conditions t (.join left right leftSide.2 rightSide.2) cs
  let (items, columns) := (List.zipWith joinColumn fields (leftSide.2 ++ rightSide.2)).unzip
  let f := ofSource (.join leftSide.1 rightSide.1 op on) columns
  return { f with select := { f.select with projection := some items } }

end Fragment

end PlanSql
