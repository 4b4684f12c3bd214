import PlanSql.Proofs.Plan.Validity

/-!
# Soundness of plans

The relation that a plan describes is well typed in every node: a column of a term is looked up
among the inputs of the operator it stands in and nowhere else, so that its type is that of the
column it denotes there. A condition on groups speaks of the rows that are grouped; the columns of
the groups themselves are not in its scope. Aggregates and window functions are nested in none of
the expressions, nor in any other one that constructors make or terms describe.
-/
namespace PlanSql

namespace Relation

/-- The names of the columns and their types. -/
def columns (r : Relation) : List (String × DataType) :=
  r.schema.map fun f => (f.name, f.dataType)

/-- The columns that the operator at the root makes: of a table its fields, of expressions their
names and types, and of a join the columns of both sides, those of the right side being renamed
where the left side has the name already. -/
def outputColumns : Relation → List (String × DataType)
  | .table _ _ _ fields => fields.map fun f => (f.name, f.dataType)
  | .project _ _ exprs => exprs.map fun n => (n.outputName, n.expr.dataType)
  | .aggregate _ _ keys metrics _ =>
    (keys ++ metrics).map fun n => (n.outputName, n.expr.dataType)
  | .window _ input exprs =>
    input.columns ++ exprs.map fun n => (n.outputName, n.expr.dataType)
  | .join _ left right _ _ =>
    left.columns ++ right.columns.map fun c =>
      if c.1 ∈ left.schema.names then (c.1 ++ "_right", c.2) else c
  | .filter _ input _ | .sort _ input _ | .limit _ input _ _ | .distinct _ input => input.columns

theorem columns_join (id : NodeId) (left right : Relation) (kind : JoinKind) (cs : List Expr) :
    (join id left right kind cs).columns = (join id left right kind cs).outputColumns := by
  simp only [columns, outputColumns, schema, header, joinFields, List.map_append, List.map_map,
    List.append_cancel_left_eq, List.map_inj_left, Function.comp_apply, List.contains_iff_mem]
  intro f _
  by_cases hf : f.name ∈ left.header.fields.names <;> simp [hf]

/-- Outputs make columns under their names and of their types. -/
theorem columns_of_outputs (exprs : List NamedExpr) :
    (exprs.map NamedExpr.field).map (fun f => (f.name, f.dataType)) =
      exprs.map fun n => (n.outputName, n.expr.dataType) := by
  rw [List.map_map]
  rfl

theorem columns_eq_outputColumns (r : Relation) : r.columns = r.outputColumns := by
  cases r with
  | table | filter | sort | limit | distinct => rfl
  | project id input exprs => exact columns_of_outputs exprs
  | aggregate id input keys metrics having => exact columns_of_outputs (keys ++ metrics)
  | window id input exprs =>
    exact (List.map_append ..).trans (congrArg _ (columns_of_outputs exprs))
  | join id left right kind cs => exact columns_join id left right kind cs

theorem Session.wellTyped_of_takesFromBelow {existing : List Relation} (hs : Session existing)
    {r n : Relation} (hr : r ∈ existing) (hb : r.TakesFromBelow) (hn : n ∈ r.nodes) :
    n.WellTyped := by
  have hw : r.WellFormed := Valid.wellFormed ⟨existing, hs, hr⟩
  refine (hw n hn).wellTyped (hs.isCondition n (hs.closed.1 r hr n hn)) fun e he ref t hp => ?_
  obtain ⟨i, hi, hg⟩ := hb n hn e he ref t hp
  exact ⟨i, (hw.node hn).input hi, hg, agrees_of_mem_inputs hi ref⟩

end Relation

namespace Plan

/-- In every node of the relation of a plan, the expressions are well typed over the inputs of the
node, its conditions are conditions, and its columns are those that its operator makes. -/
theorem wellTyped_relation {catalog : Catalog} {p : Plan} {r : Relation}
    (h : p.relation catalog = .ok r) :
    ∀ n ∈ r.nodes, n.WellTyped ∧ n.columns = n.outputColumns := by
  obtain ⟨⟨existing, hs, hr⟩, hb⟩ := made_relation h
  exact fun n hn => ⟨hs.wellTyped_of_takesFromBelow hr hb hn, n.columns_eq_outputColumns⟩

/-- Orders by the region of their customers, where they come to more than ten. -/
def busyRegions : Plan :=
  .aggregate
    (.join (.table "customers" none) (.table "orders" none) .inner
      [.binary .eq (.column "id" (some "customers")) (.column "customer" none)])
    [.unnamed (.column "region" none)]
    [⟨.aggregate "count" none false none, some "n"⟩]
    [.binary .gt (.aggregate "sum" (some (.column "amount" none)) false none)
      (.literal (.number (.int 10)) none)]

def shop : Catalog := [
  ("customers", [⟨"id", .int64, false⟩, ⟨"region", .string, true⟩]),
  ("orders", [⟨"id", .int64, false⟩, ⟨"customer", .int64, true⟩, ⟨"amount", .int64, true⟩])]

/-- The customers and the orders they placed. -/
def customerOrders : Relation :=
  .join 2 (.table 0 "customers" none [⟨"id", .int64, false⟩, ⟨"region", .string, true⟩])
    (.table 1 "orders" none
      [⟨"id", .int64, false⟩, ⟨"customer", .int64, true⟩, ⟨"amount", .int64, true⟩]) .inner
    [.binary .eq (.column ⟨some "customers", "id"⟩ .int64)
      (.column ⟨some "orders", "customer"⟩ .int64)]

/-- The groups of the orders, those that the conditions hold for. -/
def regionGroups (conditions : List Expr) : Relation :=
  .aggregate 3 customerOrders [.unnamed (.column ⟨none, "region"⟩ .string)]
    [⟨.countStar, some "n"⟩] conditions

/-- The condition on the regions. -/
def isBusy : Expr :=
  .binary .gt (.aggregate .sum (some (.column ⟨none, "amount"⟩ .int64)) false none)
    (.literal (.int 10))

/-- The regions with their conditions, down to the tables. -/
theorem busyRegions_wellTyped :
    busyRegions.relation shop = .ok (regionGroups [isBusy]) ∧
    ∀ n ∈ (regionGroups [isBusy]).nodes, n.WellTyped ∧ n.columns = n.outputColumns := by
  have h : busyRegions.relation shop = .ok (regionGroups [isBusy]) := rfl
  exact ⟨h, wellTyped_relation h⟩

/-- The condition works on the groups, and what it adds up is not a column of these. -/
theorem busyRegions_condition_ungrouped :
    busyRegions.relation shop = .ok (regionGroups [isBusy]) ∧
    (regionGroups [isBusy]).kindName = "Having" ∧
    (regionGroups [isBusy]).inputNames = [(regionGroups []).kindName] ∧
    .column ⟨none, "amount"⟩ .int64 ∈ isBusy.parts ∧
    (regionGroups []).header.lookup ⟨none, "amount"⟩ = .missing :=
  ⟨rfl, rfl, rfl,
    by simp [isBusy, Expr.parts, Expr.walk, Expr.visit, Expr.inside, Expr.insideOption], rfl⟩

end Plan

/-- Where expressions come from: constructors make them, terms describe them, and the relation that
a plan describes has them in its operators. -/
inductive Expr.Arises : Expr → Prop
  | made {e : Expr} (h : e.Made) : Arises e
  | resolved {scope : TermScope} {t : Term} {e : Expr} (h : t.resolve scope = .ok e) : Arises e
  | planned {catalog : Catalog} {p : Plan} {r n : Relation} {e : Expr}
      (h : p.relation catalog = .ok r) (hn : n ∈ r.nodes) (he : e ∈ n.exprs) : Arises e

/-- In no expression, wherever it comes from, are aggregates and window functions nested. -/
theorem Expr.unnested_of_arises {e : Expr} (h : e.Arises) : e.Unnested := by
  have hm : e.Made := by
    cases h with
    | made h => exact h
    | resolved h => exact (Term.madeWith_resolve h).1
    | planned h hn he => exact (((Plan.valid_relation h).wellFormed _ hn).binds he).1
  exact hm.unnested

/-- The condition on the regions has an aggregate, and it is not nested. -/
theorem isBusy_unnested : Plan.isBusy.Arises ∧ Plan.isBusy.Unnested := by
  have hp : Plan.busyRegions.relation Plan.shop = .ok (Plan.regionGroups [Plan.isBusy]) := rfl
  have h : Plan.isBusy.Arises :=
    .planned hp (Relation.mem_nodes_self _) (List.mem_append_right _ (List.mem_singleton_self _))
  exact ⟨h, Expr.unnested_of_arises h⟩

end PlanSql
