import PlanSql.Fragment.Basic
import PlanSql.Relation.Construction

/-!
# The fragment of a relation

Every node is made into a fragment once, however often it is used, and aliases are numbered in the
order they are given out.
-/
namespace PlanSql

/-- What has been made so far. -/
structure Progress where
  made : List (NodeId × Fragment)
  nextAlias : Nat

def Progress.start : Progress := ⟨[], 0⟩

/-- A computation that makes fragments. -/
abbrev Lowering := StateT Progress (Except CompileError)

namespace Lowering

def freshAlias : Lowering String := do
  let progress ← get
  set { progress with nextAlias := progress.nextAlias + 1 }
  return "t" ++ toString progress.nextAlias

/-- The fragment made for a node before, or else the one made now. -/
def once (id : NodeId) (make : Lowering Fragment) : Lowering Fragment := do
  match (← get).made.lookup id with
  | some f => return f
  | none =>
    let f ← make
    modify fun progress => { progress with made := (id, f) :: progress.made }
    return f

/-- A fragment, within a new SELECT if the condition holds. -/
def wrapIf (b : Bool) (f : Fragment) : Lowering Fragment :=
  if b then do
    let aliasName ← freshAlias
    return f.wrapped aliasName
  else return f

end Lowering

open Lowering

namespace Relation

def fragment (t : Target) : Relation → Lowering Fragment
  | .table id name aliasName fields => once id (return .ofTable name aliasName fields)
  | .project id input exprs => once id do
    let f ← fragment t input
    let f ← wrapIf (f.aggregated || f.isSettled) f
    f.project t input.header exprs
  | .filter id input conditions => once id do
    let f ← fragment t input
    let f ← wrapIf f.isSettled f
    let f ← wrapIf (f.windowed && !f.aggregated && !t.descriptor.supportsQualify) f
    f.filter t input.header conditions
  | .aggregate id input keys metrics having => once id do
    let f ← fragment t input
    let f ← wrapIf (f.aggregated || f.windowed || f.isSettled) f
    f.aggregate t input.header keys metrics having
  | .sort id input keys => once id do
    let f ← fragment t input
    let f ← wrapIf f.select.isLimited f
    f.sort t input.header keys
  | .limit id input count offset => once id do
    let f ← fragment t input
    let f ← wrapIf f.select.isLimited f
    return f.limit count offset
  | .join id left right kind conditions => once id do
    let op ← Fragment.joinOp t kind
    let l ← fragment t left
    let r ← fragment t right
    let leftAlias ← freshAlias
    let rightAlias ← freshAlias
    Fragment.join t op left.header right.header
      (joinFields left.header.fields right.header.fields) conditions
      (l.joinSide leftAlias) (r.joinSide rightAlias)
  | .window id input exprs => once id do
    let f ← fragment t input
    let f ← wrapIf (f.aggregated || f.windowed || f.isSettled) f
    f.window t input.header exprs
  | .distinct id input => once id do
    let f ← fragment t input
    let f ← wrapIf f.select.isLimited f
    return f.distinct

def toSelect (t : Target) (r : Relation) : Except CompileError Sql.Select := do
  let (f, _) ← (r.fragment t).run .start
  return f.select

end Relation

end PlanSql
