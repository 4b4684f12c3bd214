import PlanSql.Proofs.Fragment.Clauses
import PlanSql.Proofs.Fragment.Retention

/-!
# Flags of fragments

What the flags of a fragment say about its SELECT, and that every operator keeps them true. A
fragment without groups has no aggregates anywhere, one with groups has grouping keys or shows an
aggregate, and one without windows has no window in its columns.
-/
namespace PlanSql.Fragment

/-- What the flags of a fragment say about its SELECT, which cuts no rows off. -/
structure Shaped (f : Fragment) : Prop where
  unlimited : f.select.isLimited = false
  items : match f.select.projection with
    | some items => List.Forall₂ Shows items f.columns
    | none => f.aggregated = false ∧ f.windowed = false
  plain : f.aggregated = false → f.select.groupBy = [] ∧ f.select.having = [] ∧
    (∀ e ∈ f.select.expressions, e.aggregates = false) ∧
    ∀ c ∈ f.columns, c.expr.aggregates = false
  grouped : f.aggregated = true → f.windowed = false ∧
    (f.select.groupBy ≠ [] ∨ ∃ c ∈ f.columns, c.expr.aggregates = true)
  unwindowed : f.windowed = false → f.select.qualify = [] ∧
    ∀ c ∈ f.columns, c.expr.windows = false

variable {d : Dialect} {header : Header} {f g : Fragment}

theorem Shaped.of_no_projection (h : f.Shaped) (hp : f.select.projection = none) :
    f.aggregated = false ∧ f.windowed = false := by
  have hi := h.items
  rwa [hp] at hi

theorem Shaped.items_some (h : f.Shaped) {items : List Sql.SelectItem}
    (hp : f.select.projection = some items) : List.Forall₂ Shows items f.columns := by
  have hi := h.items
  rwa [hp] at hi

/-- The items show the columns, also where these are those of the source. -/
theorem Shaped.shows (h : f.Shaped) : List.Forall₂ Shows f.items f.columns := by
  unfold Fragment.items
  cases hp : f.select.projection with
  | some items => exact h.items_some hp
  | none =>
    simp only [List.forall₂_map_left_iff, List.forall₂_same]
    exact fun c _ => ⟨rfl, .inl rfl⟩

/-- A statement groups if the flag says so. -/
theorem Shaped.isGrouped (h : f.Shaped) : f.select.isGrouped = f.aggregated := by
  cases ha : f.aggregated with
  | false =>
    obtain ⟨hk, -, he, -⟩ := h.plain ha
    have hany : f.select.expressions.any Sql.Expr.aggregates = false :=
      List.any_eq_false.mpr fun e hm => by simp [he e hm]
    simp [Sql.SelectOver.isGrouped, hk, hany]
  | true =>
    rcases (h.grouped ha).2 with hk | ⟨c, hc, hagg⟩
    · simp [Sql.SelectOver.isGrouped, hk]
    · cases hp : f.select.projection with
      | none => exact absurd (ha.symm.trans (h.of_no_projection hp).1) (by simp)
      | some items =>
        obtain ⟨item, hm, he, -⟩ := forall₂_mem_right (h.items_some hp) hc
        have hany : f.select.expressions.any Sql.Expr.aggregates = true := by
          refine List.any_eq_true.mpr ⟨item.expr, ?_, by rw [he]; exact hagg⟩
          simp only [Sql.SelectOver.expressions, hp, Option.getD_some, List.mem_append,
            List.mem_map]
          exact .inl (.inl (.inl (.inl (.inl ⟨item, hm, rfl⟩))))
        simp [Sql.SelectOver.isGrouped, hany]

theorem shaped_ofSource (source : Sql.FromItem) {columns : List OutputColumn}
    (hc : ∀ c ∈ columns, ∃ q name, c.expr = .column q name) :
    (ofSource source columns).Shaped where
  unlimited := rfl
  items := ⟨rfl, rfl⟩
  plain _ := ⟨rfl, rfl, by simp [ofSource, Sql.SelectOver.ofSource, Sql.SelectOver.expressions],
    fun c hm => by
      obtain ⟨q, name, hq⟩ := hc c hm
      rw [hq]
      rfl⟩
  grouped hg := by simp [ofSource] at hg
  unwindowed _ := ⟨rfl, fun c hm => by
    obtain ⟨q, name, hq⟩ := hc c hm
    rw [hq]
    rfl⟩

/-- A SELECT of some columns of a source and nothing else. -/
theorem shaped_items (source : Sql.FromItem) {items : List Sql.SelectItem}
    {columns : List OutputColumn} (hs : List.Forall₂ Shows items columns)
    (hc : ∀ c ∈ columns, ∃ q name, c.expr = .column q name) :
    Shaped {
      select := { Sql.SelectOver.ofSource source with projection := some items }
      columns := columns
      aggregated := false
      windowed := false } := by
  have h := shaped_ofSource source hc
  obtain ⟨-, -, -, hplain⟩ := h.plain rfl
  have hshown : ∀ item ∈ items, item.expr.aggregates = false :=
    forall_items (P := fun e => e.aggregates = false) hs hplain
  refine ⟨rfl, hs, fun _ => ⟨rfl, rfl, ?_, hplain⟩, by simp, h.unwindowed⟩
  exact Sql.SelectOver.forall_mem_expressions.mpr
    ⟨hshown, by simp [Sql.SelectOver.ofSource]⟩

theorem aggregates_columns {exprs : List NamedExpr} {columns : List OutputColumn}
    (hcols : List.Forall₂ (ColumnOf (Target.builtin d) (f.scope header)) exprs columns)
    (hm : ∀ n ∈ exprs, n.expr.Made ∧ n.expr.containsAggregate = false)
    (hf : ∀ c ∈ f.columns, c.expr.aggregates = false) : ∀ c ∈ columns, c.expr.aggregates = false :=
  forall_columns hcols fun n hn _ hs => Expr.aggregates_lower_eq_false hs
    (fun _ hq => (hm n hn).1.isAggregate_of_part (hm n hn).2 hq) (Scope.forall_columns header hf)

theorem windows_columns {t : Target} {exprs : List NamedExpr} {columns : List OutputColumn}
    (hcols : List.Forall₂ (ColumnOf t (f.scope header)) exprs columns)
    (hw : ∀ n ∈ exprs, n.expr.containsWindow = false)
    (hf : ∀ c ∈ f.columns, c.expr.windows = false) : ∀ c ∈ columns, c.expr.windows = false :=
  forall_columns hcols fun n hn _ hs =>
    Expr.windows_lower_eq_false hs (hw n hn) (Scope.forall_columns header hf)

theorem aggregates_conditions {cs : List Expr} {ss : List Sql.Expr}
    (hss : conditions (Target.builtin d) (f.scope header) cs = .ok ss)
    (hm : ∀ c ∈ cs, c.Made ∧ c.containsAggregate = false)
    (hf : ∀ c ∈ f.columns, c.expr.aggregates = false) : ∀ s ∈ ss, s.aggregates = false := by
  refine forall_conditions hss fun c hc p hp s hl => ?_
  have hparts := Expr.mem_parts_of_mem_conjuncts hp
  exact Expr.aggregates_lower_eq_false hl (fun q hq => (hm c hc).1.isAggregate_of_part (hm c hc).2
    (Expr.mem_parts_trans hparts hq)) (Scope.forall_columns header hf)

theorem aggregates_keys {keys : List (SortKey Expr)} {ss : List (SortKey Sql.Expr)}
    (hss : Expr.lowerKeys (Target.builtin d) (f.scope header) keys = .ok ss)
    (hm : ∀ k ∈ keys, k.expr.Made ∧ k.expr.containsAggregate = false)
    (hf : ∀ c ∈ f.columns, c.expr.aggregates = false) : ∀ s ∈ ss, s.expr.aggregates = false :=
  forall_keys (P := fun e => e.aggregates = false) hss fun k hk _ hl =>
    Expr.aggregates_lower_eq_false hl
      (fun _ hq => (hm k hk).1.isAggregate_of_part (hm k hk).2 hq) (Scope.forall_columns header hf)

namespace Shaped

variable (h : f.Shaped)
include h

theorem project {exprs : List NamedExpr}
    (hm : ∀ n ∈ exprs, n.expr.Made ∧ n.expr.containsAggregate = false)
    (hw : ∀ n ∈ exprs, n.expr.containsWindow = false) (ha : f.aggregated = false)
    (hg : f.project (Target.builtin d) header exprs = .ok g) : g.Shaped := by
  obtain ⟨items, columns, ho, rfl⟩ := project_eq_ok hg
  obtain ⟨hcols, hitems⟩ := outputs_eq_ok ho
  obtain ⟨hk, hh, hplain, hcp⟩ := h.plain ha
  obtain ⟨-, hexprs⟩ := Sql.SelectOver.forall_mem_expressions.mp hplain
  have hnew := aggregates_columns hcols hm hcp
  have hshown : ∀ item ∈ items, item.expr.aggregates = false :=
    forall_items (P := fun e => e.aggregates = false) hitems hnew
  refine ⟨h.unlimited, hitems, fun _ => ⟨hk, hh, ?_, hnew⟩, fun hagg => ?_, fun hu => ?_⟩
  · exact Sql.SelectOver.forall_mem_expressions.mpr ⟨hshown, hexprs⟩
  · exact absurd (ha.symm.trans hagg) (by simp)
  · obtain ⟨hq, hcw⟩ := h.unwindowed (Bool.or_eq_false_iff.mp hu).1
    exact ⟨hq, windows_columns hcols hw hcw⟩

theorem filter {cs : List Expr} (hm : ∀ c ∈ cs, c.Made ∧ c.containsAggregate = false)
    (hg : f.filter (Target.builtin d) header cs = .ok g) : g.Shaped := by
  obtain ⟨ss, hss, hg⟩ := filter_eq_ok hg
  have happ : f.aggregated = false → ∀ {es : List Sql.Expr}, (∀ e ∈ es, e.aggregates = false) →
      ∀ e ∈ es ++ ss, e.aggregates = false := fun ha _ hes =>
    List.forall_mem_append.mpr ⟨hes, aggregates_conditions hss hm (h.plain ha).2.2.2⟩
  rcases hg with ⟨ha, rfl⟩ | ⟨ha, hw, rfl⟩ | ⟨ha, hw, rfl⟩
  · exact ⟨h.unlimited, h.items, fun hp => absurd (ha.symm.trans hp) (by simp), h.grouped,
      h.unwindowed⟩
  · obtain ⟨hk, hh, hplain, hcp⟩ := h.plain ha
    obtain ⟨hpe, hse, hge, hhe, hqe, hoe⟩ := Sql.SelectOver.forall_mem_expressions.mp hplain
    exact ⟨h.unlimited, h.items, fun _ => ⟨hk, hh, Sql.SelectOver.forall_mem_expressions.mpr
      ⟨hpe, hse, hge, hhe, happ ha hqe, hoe⟩, hcp⟩, fun hp => absurd (ha.symm.trans hp) (by simp),
      fun hu => absurd (hw.symm.trans hu) (by simp)⟩
  · obtain ⟨hk, hh, hplain, hcp⟩ := h.plain ha
    obtain ⟨hpe, hse, hge, hhe, hqe, hoe⟩ := Sql.SelectOver.forall_mem_expressions.mp hplain
    exact ⟨h.unlimited, h.items, fun _ => ⟨hk, hh, Sql.SelectOver.forall_mem_expressions.mpr
      ⟨hpe, happ ha hse, hge, hhe, hqe, hoe⟩, hcp⟩, fun hp => absurd (ha.symm.trans hp) (by simp),
      h.unwindowed⟩

/-- The columns of an aggregation have aggregates in them unless all of them are keys. -/
theorem aggregate {keys metrics : List NamedExpr} {having : List Expr}
    (hne : ¬ (keys = [] ∧ metrics = [])) (hk : ∀ n ∈ keys, n.expr.isRowLevel = true)
    (hm : ∀ n ∈ metrics, n.expr.Made ∧ n.expr.containsAggregate = true ∧
      n.expr.containsWindow = false)
    (hv : ∀ n ∈ metrics, ∀ p ∈ n.expr.parts, p.isVoidMembership = false)
    (hw : f.windowed = false)
    (hg : f.aggregate (Target.builtin d) header keys metrics having = .ok g) : g.Shaped := by
  obtain ⟨keyItems, keyColumns, metricItems, metricColumns, ss, hko, hmo, -, rfl⟩ :=
    aggregate_eq_ok hg
  obtain ⟨hkc, hki⟩ := outputs_eq_ok hko
  obtain ⟨hmc, hmi⟩ := outputs_eq_ok hmo
  obtain ⟨hq, hcw⟩ := h.unwindowed hw
  refine ⟨h.unlimited, List.rel_append hki hmi, by simp, fun _ => ⟨rfl, ?_⟩, fun _ => ⟨hq, ?_⟩⟩
  · cases keys with
    | cons k rest =>
      refine .inl fun he => ?_
      have hlen := hkc.length_eq.trans hki.length_eq.symm
      rw [List.map_eq_nil_iff.mp he] at hlen
      simp at hlen
    | nil =>
      obtain ⟨n, rest, rfl⟩ := List.exists_cons_of_ne_nil fun hme => hne ⟨rfl, hme⟩
      obtain ⟨c, hc, hs, -⟩ := forall₂_mem_left hmc List.mem_cons_self
      obtain ⟨hmade, hagg, hwin⟩ := hm n List.mem_cons_self
      exact .inr ⟨c, List.mem_append_right _ hc, Expr.aggregates_lower hmade hwin
        (Expr.keepsAggregate_of_containsAggregate (hv n List.mem_cons_self) hagg) hs⟩
  · have hkw : ∀ n ∈ keys, n.expr.containsWindow = false := fun n hn =>
      (Expr.isRowLevel_eq_true.mp (hk n hn)).2
    exact List.forall_mem_append.mpr ⟨windows_columns hkc hkw hcw,
      windows_columns hmc (fun n hn => (hm n hn).2.2) hcw⟩

theorem sort {keys : List (SortKey Expr)}
    (hm : ∀ k ∈ keys, k.expr.Made ∧ k.expr.containsAggregate = false)
    (hg : f.sort (Target.builtin d) header keys = .ok g) : g.Shaped := by
  obtain ⟨ss, hss, rfl⟩ := sort_eq_ok hg
  refine ⟨h.unlimited, h.items, fun ha => ?_, h.grouped, h.unwindowed⟩
  obtain ⟨hk, hh, hplain, hcp⟩ := h.plain ha
  obtain ⟨hpe, hse, hge, hhe, hqe, hoe⟩ := Sql.SelectOver.forall_mem_expressions.mp hplain
  exact ⟨hk, hh, Sql.SelectOver.forall_mem_expressions.mpr ⟨hpe, hse, hge, hhe, hqe,
    List.forall_mem_append.mpr ⟨aggregates_keys hss hm hcp, hoe⟩⟩, hcp⟩

theorem window {exprs : List NamedExpr}
    (hm : ∀ n ∈ exprs, n.expr.Made ∧ n.expr.containsAggregate = false)
    (ha : f.aggregated = false)
    (hg : f.window (Target.builtin d) header exprs = .ok g) : g.Shaped := by
  obtain ⟨items, columns, ho, rfl⟩ := window_eq_ok hg
  obtain ⟨hcols, hitems⟩ := outputs_eq_ok ho
  obtain ⟨hk, hh, hplain, hcp⟩ := h.plain ha
  obtain ⟨-, hexprs⟩ := Sql.SelectOver.forall_mem_expressions.mp hplain
  have hall : ∀ c ∈ f.columns ++ columns, c.expr.aggregates = false :=
    List.forall_mem_append.mpr ⟨hcp, aggregates_columns hcols hm hcp⟩
  have hshows : List.Forall₂ Shows (f.items ++ items) (f.columns ++ columns) :=
    List.rel_append h.shows hitems
  have hshown : ∀ item ∈ f.items ++ items, item.expr.aggregates = false :=
    forall_items (P := fun e => e.aggregates = false) hshows hall
  exact ⟨h.unlimited, hshows, fun _ => ⟨hk, hh, Sql.SelectOver.forall_mem_expressions.mpr
    ⟨hshown, hexprs⟩, hall⟩, fun hagg => absurd (ha.symm.trans hagg) (by simp),
    by simp⟩

theorem distinct : f.distinct.Shaped := by
  refine ⟨h.unlimited, h.items, fun ha => ?_, h.grouped, h.unwindowed⟩
  obtain ⟨hk, hh, hplain, hcp⟩ := h.plain ha
  obtain ⟨hpe, hse, hge, hhe, hqe, hoe⟩ := Sql.SelectOver.forall_mem_expressions.mp hplain
  refine ⟨hk, hh, Sql.SelectOver.forall_mem_expressions.mpr ⟨hpe, hse, hge, hhe, hqe,
    fun k hk => hoe k (orderBy_distinct_subset f hk)⟩, hcp⟩

end Shaped

end PlanSql.Fragment
