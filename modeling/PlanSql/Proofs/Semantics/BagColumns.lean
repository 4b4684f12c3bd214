import PlanSql.Proofs.Fragment.Shape
import PlanSql.Proofs.Semantics.BagClauses
import PlanSql.Proofs.Semantics.Columns

/-!
# Bags of a fragment

The rows or groups that the clauses of a fragment's SELECT let through, and the values of its
columns at them. The values stay the same as long as the source does, and what a statement shows
does not depend on the clauses after HAVING.
-/
namespace PlanSql

variable {V : Type} [DecidableEq V]

namespace Fragment

section

variable (M : Meaning V) (db : Database V) (f : Fragment)

/-- The source of the SELECT. -/
noncomputable def source : Sql.Yield (Multiset (List V)) := f.select.source.yield M db

/-- The rows or groups that get through HAVING. -/
noncomputable def shown : Multiset (Focus (List V)) := f.select.shown M (f.source M db)

/-- The rows or groups that get through all clauses. -/
noncomputable def qualified : Multiset (Focus (List V)) := f.select.qualified M (f.source M db)

/-- The values of the columns at a row or group. -/
noncomputable abbrev values (frame : Multiset (Focus (List V))) (x : Focus (List V)) : List V :=
  f.valuesIn M (f.source M db) frame x

end

variable {M : Meaning V} {db : Database V} {f g : Fragment}
  {frame frame' : Multiset (Focus (List V))} {x x' : Focus (List V)}

theorem source_eq (hs : g.select.source = f.select.source) : g.source M db = f.source M db := by
  unfold source
  rw [hs]

theorem values_eq (hs : g.select.source = f.select.source) (hc : g.columns = f.columns) :
    g.values M db frame x = f.values M db frame x := by
  unfold values valuesIn
  rw [source_eq hs, hc]

/-- The SELECTs of two fragments have the same source and the same clauses up to HAVING. -/
structure SameUpToHaving (f g : Fragment) : Prop where
  source : g.select.source = f.select.source
  selection : g.select.selection = f.select.selection
  groupBy : g.select.groupBy = f.select.groupBy
  having : g.select.having = f.select.having
  aggregated : g.aggregated = f.aggregated

/-- What a statement shows does not depend on its projection, its order and its QUALIFY clause. -/
theorem SameUpToHaving.shown_eq (h : f.SameUpToHaving g) (hf : f.Shaped) (hg : g.Shaped) :
    g.shown M db = f.shown M db := by
  unfold shown
  rw [source_eq h.source]
  refine Sql.SelectOver.shown_congr h.selection h.groupBy h.having ?_
  rw [hf.isGrouped, hg.isGrouped, h.aggregated]

theorem SameUpToHaving.qualified_eq (h : f.SameUpToHaving g) (hf : f.Shaped) (hg : g.Shaped)
    (hq : g.select.qualify = f.select.qualify) : g.qualified M db = f.qualified M db := by
  have hs : g.shown M db = f.shown M db := h.shown_eq hf hg
  unfold shown at hs
  unfold qualified
  rw [source_eq h.source] at hs ⊢
  exact Sql.SelectOver.qualified_congr hs hq

theorem SameUpToHaving.outputs_eq (h : f.SameUpToHaving g) (hf : f.Shaped) (hg : g.Shaped)
    (hq : g.select.qualify = f.select.qualify) (hc : g.columns = f.columns) :
    (g.qualified M db).map (g.values M db (g.shown M db)) =
      (f.qualified M db).map (f.values M db (f.shown M db)) := by
  rw [h.qualified_eq hf hg hq, h.shown_eq hf hg]
  exact Multiset.map_congr rfl fun x _ => values_eq h.source hc

end Fragment

end PlanSql
