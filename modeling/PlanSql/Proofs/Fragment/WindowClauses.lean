import PlanSql.Proofs.Fragment.References
import PlanSql.Proofs.Fragment.Shape
import PlanSql.Proofs.Sql.Statements

/-!
# Window calls and the clauses before them

A window function is evaluated after ON, WHERE, GROUP BY and HAVING, so no window call may stand
there. A fragment that evaluates window functions says so by its flag; otherwise none of its columns
hides one, and conditions over them may go to WHERE or HAVING. This holds for conditions without
window functions of their own: nothing keeps such a condition out of WHERE.
-/
namespace PlanSql

namespace Sql

/-- No window call stands in a clause that is evaluated before window functions, here or in a
derived table. -/
structure Select.Cleared (s : Select) : Prop where
  own : ∀ e ∈ s.beforeWindows, e.windows = false
  nested : ∀ q ∈ s.source.selects, ∀ e ∈ q.beforeWindows, e.windows = false

theorem Select.Cleared.statements {s : Select} (h : s.Cleared) :
    ∀ q ∈ s.statements, ∀ e ∈ q.beforeWindows, e.windows = false :=
  List.forall_mem_cons.mpr ⟨h.own, h.nested⟩

end Sql

namespace Fragment

/-- What the flags say about window calls, and that these stand in no earlier clause. -/
structure Cleared (f : Fragment) : Prop where
  select : f.select.Cleared
  grouped : f.aggregated = true → f.windowed = false
  unwindowed : f.windowed = false → ∀ c ∈ f.columns, c.expr.windows = false

variable {t : Target} {header : Header} {f g : Fragment}

theorem windows_column (q : Option String) (name : String) :
    (Sql.Expr.column q name).windows = false := by
  simp [Sql.Expr.windows, Sql.Expr.parts, Sql.Expr.isWindowCall]

theorem windows_under {columns : List OutputColumn} (q : Option String) :
    ∀ c ∈ columns.map (OutputColumn.under q), c.expr.windows = false := by
  intro c hc
  obtain ⟨c', -, rfl⟩ := List.mem_map.mp hc
  exact windows_column q c'.name

theorem windows_conditions {scope : Scope} {cs : List Expr} {ss : List Sql.Expr}
    (h : conditions t scope cs = .ok ss) (hw : ∀ c ∈ cs, c.containsWindow = false)
    (hs : ∀ ref d, scope.column ref = .ok d → d.windows = false) :
    ∀ s ∈ ss, s.windows = false :=
  forall_conditions h fun c hc _ hp _ hl => Expr.windows_lower_eq_false hl
    (Expr.containsWindow_of_part (Expr.mem_parts_of_mem_conjuncts hp) (hw c hc)) hs

namespace Cleared

variable (h : f.Cleared)
include h

theorem named : f.named.Cleared := ⟨h.select.own, h.select.nested⟩

theorem wrapped (aliasName : String) : (f.wrapped aliasName).Cleared where
  select := ⟨by simp [Fragment.wrapped, ofSource, Sql.SelectOver.ofSource,
    Sql.Select.beforeWindows, Sql.FromItem.ons], h.named.statements⟩
  grouped hg := by simp [Fragment.wrapped, ofSource] at hg
  unwindowed _ := windows_under none

theorem joinSide (aliasName : String) : (f.joinSide aliasName).1.ons = [] ∧
    ∀ q ∈ (f.joinSide aliasName).1.selects, ∀ e ∈ q.beforeWindows, e.windows = false := by
  unfold Fragment.joinSide
  cases f.select.bareTable? with
  | some table => exact ⟨rfl, by simp [Sql.FromItem.selects]⟩
  | none => exact ⟨rfl, h.named.statements⟩

/-- A projection over columns without window calls contains one only if the flag says so: a
projection has no aggregates, so it has no FILTER clause for a window call to hide in. -/
theorem project {exprs : List NamedExpr}
    (hm : ∀ n ∈ exprs, n.expr.Made ∧ n.expr.containsAggregate = false)
    (ha : f.aggregated = false) (hg : f.project t header exprs = .ok g) : g.Cleared := by
  obtain ⟨items, columns, ho, rfl⟩ := project_eq_ok hg
  obtain ⟨hcols, hitems⟩ := outputs_eq_ok ho
  refine ⟨⟨h.select.own, h.select.nested⟩, fun hp => absurd (ha.symm.trans hp) (by simp),
    fun hw c hc => ?_⟩
  obtain ⟨hf, hi⟩ := Bool.or_eq_false_iff.mp hw
  obtain ⟨item, him, he, -⟩ := forall₂_mem_right hitems hc
  obtain ⟨n, hn, hl, -⟩ := forall₂_mem_right hcols hc
  have hfound : c.expr.containsWindow = false := by
    rw [← he]
    simpa using List.any_eq_false.mp hi item him
  rw [← hfound]
  exact (Expr.containsWindow_lower (hm n hn).1 (hm n hn).2 hl
    (Scope.forall_columns header (h.unwindowed hf))).symm

theorem filter {cs : List Expr} (hw : ∀ c ∈ cs, c.containsWindow = false)
    (hg : f.filter t header cs = .ok g) : g.Cleared := by
  obtain ⟨ss, hss, hg⟩ := filter_eq_ok hg
  obtain ⟨ho, hse, hge, hhe⟩ := Sql.Select.forall_beforeWindows.mp h.select.own
  have hnew : f.windowed = false → ∀ s ∈ ss, s.windows = false := fun hf =>
    windows_conditions hss hw (Scope.forall_columns header (h.unwindowed hf))
  rcases hg with ⟨ha, rfl⟩ | ⟨ha, hf, rfl⟩ | ⟨ha, hf, rfl⟩
  · exact ⟨⟨Sql.Select.forall_beforeWindows.mpr ⟨ho, hse, hge,
      List.forall_mem_append.mpr ⟨hhe, hnew (h.grouped ha)⟩⟩, h.select.nested⟩, h.grouped,
      h.unwindowed⟩
  · exact ⟨⟨h.select.own, h.select.nested⟩, h.grouped, h.unwindowed⟩
  · exact ⟨⟨Sql.Select.forall_beforeWindows.mpr ⟨ho,
      List.forall_mem_append.mpr ⟨hse, hnew hf⟩, hge, hhe⟩, h.select.nested⟩, h.grouped,
      h.unwindowed⟩

theorem aggregate {keys metrics : List NamedExpr} {having : List Expr}
    (hk : ∀ n ∈ keys, n.expr.containsWindow = false)
    (hm : ∀ n ∈ metrics, n.expr.containsWindow = false)
    (hh : ∀ c ∈ having, c.containsWindow = false) (hf : f.windowed = false)
    (hg : f.aggregate t header keys metrics having = .ok g) : g.Cleared := by
  obtain ⟨keyItems, keyColumns, metricItems, metricColumns, ss, hko, hmo, hss, rfl⟩ :=
    aggregate_eq_ok hg
  obtain ⟨hkc, hki⟩ := outputs_eq_ok hko
  obtain ⟨hmc, -⟩ := outputs_eq_ok hmo
  obtain ⟨ho, hse, -, hhe⟩ := Sql.Select.forall_beforeWindows.mp h.select.own
  have hcols := h.unwindowed hf
  have hkw := windows_columns hkc hk hcols
  have hkey : ∀ e ∈ keyItems.map (·.expr), e.windows = false :=
    List.forall_mem_map.mpr (forall_items (P := fun e => e.windows = false) hki hkw)
  have hhaving := windows_conditions hss hh (Scope.forall_columns header hcols)
  exact ⟨⟨Sql.Select.forall_beforeWindows.mpr
    ⟨ho, hse, hkey, List.forall_mem_append.mpr ⟨hhe, hhaving⟩⟩, h.select.nested⟩, fun _ => rfl,
    fun _ => List.forall_mem_append.mpr ⟨hkw, windows_columns hmc hm hcols⟩⟩

theorem sort {keys : List (SortKey Expr)} (hg : f.sort t header keys = .ok g) : g.Cleared := by
  obtain ⟨ss, -, rfl⟩ := sort_eq_ok hg
  exact ⟨⟨h.select.own, h.select.nested⟩, h.grouped, h.unwindowed⟩

theorem limit (count : Option Nat) (offset : Nat) : (f.limit count offset).Cleared :=
  ⟨⟨h.select.own, h.select.nested⟩, h.grouped, h.unwindowed⟩

theorem window {exprs : List NamedExpr} (ha : f.aggregated = false)
    (hg : f.window t header exprs = .ok g) : g.Cleared := by
  obtain ⟨items, columns, -, rfl⟩ := window_eq_ok hg
  exact ⟨⟨h.select.own, h.select.nested⟩, fun hp => absurd (ha.symm.trans hp) (by simp), by simp⟩

theorem distinct : f.distinct.Cleared :=
  ⟨⟨h.select.own, h.select.nested⟩, h.grouped, h.unwindowed⟩

end Cleared

theorem Cleared.join {l r : Fragment} (hl : l.Cleared) (hr : r.Cleared) {op : Sql.JoinOp}
    {left right : Header} {fields : Schema} {cs : List Expr} {a b : String}
    (hw : ∀ c ∈ cs, c.containsWindow = false)
    (hlen : fields.length = ((l.joinSide a).2 ++ (r.joinSide b).2).length)
    (hg : Fragment.join t op left right fields cs (l.joinSide a) (r.joinSide b) = .ok g) :
    g.Cleared := by
  obtain ⟨on, hon, rfl⟩ := join_eq_ok hg
  obtain ⟨hlo, hls⟩ := hl.joinSide a
  obtain ⟨hro, hrs⟩ := hr.joinSide b
  have hcols : ∀ c ∈ (l.joinSide a).2 ++ (r.joinSide b).2, c.expr.windows = false :=
    List.forall_mem_append.mpr ⟨windows_under (some a), windows_under (some b)⟩
  have hon := windows_conditions hon hw (Scope.forall_join left right hcols)
  obtain ⟨-, -, hexprs⟩ := joinColumns hlen
  refine ⟨⟨Sql.Select.forall_beforeWindows.mpr ⟨?_, by simp [Sql.SelectOver.ofSource]⟩,
    List.forall_mem_append.mpr ⟨hls, hrs⟩⟩, fun _ => rfl, fun _ => ?_⟩
  · simpa [Sql.SelectOver.ofSource, Sql.FromItem.ons, hlo, hro] using hon
  · exact (forall_mem_iff_of_map_eq (P := fun e => e.windows = false) hexprs).mpr hcols

end Fragment

namespace Relation

variable {t : Target} {root : Relation}

end Relation

end PlanSql
