import Mathlib.Data.Multiset.Bind
import PlanSql.Proofs.Semantics.Rows

/-!
# Bags of rows

What plans and statements are worth as bags of rows. A plan is evaluated operator by operator. A
statement is evaluated clause by clause: source, WHERE, GROUP BY, HAVING, window functions, QUALIFY,
projection, DISTINCT, and LIMIT at last, of which it is not known what rows it keeps. A statement
has one row for each group if it has grouping keys or the call of an aggregate.
-/
namespace PlanSql

variable {V : Type} [DecidableEq V]

/-- Some row of a group on behalf of the group, or a row without values if there is none. -/
noncomputable def Focus.ofGroup (group : Multiset (List V)) : Focus (List V) :=
  ⟨group.toList.headD [], group⟩

/-- Rows in groups of equal keys. Without any key all rows are one group, even if there are none. -/
noncomputable def groups {ε : Type} (keys : List ε) (key : ε → List V → V)
    (rows : Multiset (List V)) : Multiset (Focus (List V)) :=
  let keysOf (row : List V) : List V := keys.map (key · row)
  let found := if keys.isEmpty then {[]} else (rows.map keysOf).dedup
  found.map fun k => .ofGroup (rows.filter fun row => keysOf row = k)

/-- Some of the rows: what is left if they are cut in some order. -/
noncomputable def limited (count : Option Nat) (offset : Nat) (rows : Multiset (List V)) :
    Multiset (List V) :=
  cut count offset rows.toList

def JoinKind.keepsLeft (kind : JoinKind) : Bool := kind = .left || kind = .full

def JoinKind.keepsRight (kind : JoinKind) : Bool := kind = .right || kind = .full

def Sql.JoinOp.keepsLeft (op : JoinOp) : Bool := op = .left || op = .full

def Sql.JoinOp.keepsRight (op : JoinOp) : Bool := op = .right || op = .full

namespace Meaning

variable (M : Meaning V)

/-- The pairs of rows that match, and the rows without a match that are kept, absent values standing
for the columns of the other side. -/
def joined (keepLeft keepRight : Bool) (on : List V → List V → Bool) (leftWidth rightWidth : Nat)
    (left right : Multiset (List V)) : Multiset (List V) :=
  let pairs := (left ×ˢ right).filter fun pair => on pair.1 pair.2
  let alone := left.filter fun l => ∀ r ∈ right, on l r = false
  let others := right.filter fun r => ∀ l ∈ left, on l r = false
  pairs.map (fun pair => pair.1 ++ pair.2)
    + (if keepLeft then alone.map (· ++ List.replicate rightWidth M.null) else 0)
    + (if keepRight then others.map (List.replicate leftWidth M.null ++ ·) else 0)

end Meaning

section

variable (M : Meaning V) (db : Database V)

namespace Relation

/-- The rows of a plan. -/
noncomputable def bag : Relation → Multiset (List V)
  | .table _ name _ _ => (db name).rows
  | .project _ input exprs =>
    let rows := input.bag
    rows.map fun row => exprs.map fun n =>
      n.expr.eval M (M.look input.header) (rows.map .single) (.single row)
  | .filter _ input conditions =>
    let rows := input.bag
    rows.filter fun row =>
      M.allHold (Expr.eval M (M.look input.header) (rows.map .single) · (.single row)) conditions
  | .aggregate _ input keys metrics having =>
    let value (x : Focus (List V)) (e : Expr) : V := e.eval M (M.look input.header) 0 x
    let kept := (groups keys (fun n row => value (.single row) n.expr) input.bag).filter fun x =>
      M.allHold (value x) having
    kept.map fun x => (keys ++ metrics).map fun n => value x n.expr
  | .sort _ input _ => input.bag
  | .limit _ input count offset => limited count offset input.bag
  | .join _ left right kind conditions =>
    let value (pair : List V × List V) (e : Expr) : V :=
      e.eval M (M.lookSide left.header right.header) 0 (.single pair)
    M.joined kind.keepsLeft kind.keepsRight (fun l r => M.allHold (value (l, r)) conditions)
      left.schema.length right.schema.length left.bag right.bag
  | .window _ input exprs =>
    let rows := input.bag
    rows.map fun row => row ++ exprs.map fun n =>
      n.expr.eval M (M.look input.header) (rows.map .single) (.single row)
  | .distinct _ input => input.bag.dedup

end Relation

namespace Sql

namespace SelectOver

variable {F : Type} (s : SelectOver F) (source : Yield (Multiset (List V)))

/-- The rows that WHERE lets through. -/
def selected : Multiset (List V) :=
  source.rows.filter fun row => M.allHold (source.value M 0 (.single row)) s.selection

/-- The rows or groups that HAVING lets through. -/
noncomputable def shown : Multiset (Focus (List V)) :=
  let all := if s.isGrouped
    then groups s.groupBy (fun e row => source.value M 0 (.single row) e) (s.selected M source)
    else (s.selected M source).map .single
  all.filter fun x => M.allHold (source.value M 0 x) s.having

/-- The rows or groups that QUALIFY lets through; windows range over those it is asked about. -/
noncomputable def qualified : Multiset (Focus (List V)) :=
  (s.shown M source).filter fun x => M.allHold (source.value M (s.shown M source) x) s.qualify

/-- The rows of a statement over an evaluated source. -/
noncomputable def bagOver : Multiset (List V) :=
  let outputs := (s.qualified M source).map fun x =>
    s.output x.row (source.value M (s.shown M source) x)
  limited s.limit s.offset (if s.distinct then outputs.dedup else outputs)

end SelectOver

/-- A source, evaluated. -/
noncomputable def FromItem.yield : FromItem → Yield (Multiset (List V))
  | .table name aliasName =>
    ⟨Label.list (aliasName.getD name) (db name).columns, (db name).rows⟩
  | .derived ⟨distinct, projection, source, selection, groupBy, having, qualify, orderBy, limit,
      offset⟩ itemAlias =>
    let s : Select :=
      ⟨distinct, projection, source, selection, groupBy, having, qualify, orderBy, limit, offset⟩
    ⟨s.labels itemAlias source.yield.labels, s.bagOver M source.yield⟩
  | .join left right op on =>
    let l := left.yield
    let r := right.yield
    let labels := l.labels ++ r.labels
    ⟨labels, M.joined op.keepsLeft op.keepsRight
      (fun x y => M.allHold (Expr.eval M (M.lookLabel labels) 0 · (.single (x ++ y))) on)
      l.labels.length r.labels.length l.rows r.rows⟩

/-- The rows of a statement. -/
noncomputable def Select.bag (s : Select) : Multiset (List V) :=
  s.bagOver M (s.source.yield M db)

end Sql

end

end PlanSql
