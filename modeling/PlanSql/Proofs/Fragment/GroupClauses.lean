import PlanSql.Proofs.Fragment.WindowClauses

/-!
# Aggregates and the clauses around grouping

Aggregates are evaluated once rows are grouped, so no aggregate call may stand in ON, WHERE, GROUP BY
or QUALIFY, nor among the operands of another aggregate call or of a window call. A column that an
aggregation made takes its aggregate calls along to wherever a later operator refers to it; they stay
out of the wrong places because such an operator starts a new SELECT unless all it does is to add to
HAVING or to ORDER BY. The keys of GROUP BY stay the first items of the projection for the same
reason.
-/
namespace PlanSql

namespace Sql

/-- If the expression is the call of an aggregate or a call over a window, none of its operands has
an aggregate call in it. -/
def Expr.FlatAt (e : Expr) : Prop :=
  (e.isAggregateCall || e.isWindowCall) = true → ∀ c ∈ e.children, c.aggregates = false

/-- No aggregate call stands within the operands of an aggregate call or of a window call. -/
def Expr.Flat (e : Expr) : Prop := ∀ p ∈ e.parts, p.FlatAt

theorem Expr.flatAt_of_neither {e : Expr} (ha : e.isAggregateCall = false)
    (hw : e.isWindowCall = false) : e.FlatAt :=
  fun h => absurd h (by simp [ha, hw])

theorem Expr.aggregates_of_part {e p : Expr} (hp : p ∈ e.parts) (h : e.aggregates = false) :
    p.aggregates = false :=
  aggregates_eq_false.mpr fun q hq => aggregates_eq_false.mp h q (mem_parts_trans hp hq)

theorem Expr.flat_of_aggregates {e : Expr} (h : e.aggregates = false) : e.Flat :=
  fun _ hp _ _ hc => aggregates_of_child hc (aggregates_of_part hp h)

/-- The expressions that a statement evaluates for single rows: those of ON, WHERE, GROUP BY and
QUALIFY. -/
def Select.ofRows (s : Select) : List Expr :=
  s.source.ons ++ s.selection ++ s.groupBy ++ s.qualify

theorem Select.forall_ofRows {s : Select} {P : Expr → Prop} :
    (∀ e ∈ s.ofRows, P e) ↔ (∀ e ∈ s.source.ons, P e) ∧ (∀ e ∈ s.selection, P e) ∧
      (∀ e ∈ s.groupBy, P e) ∧ ∀ e ∈ s.qualify, P e := by
  simp only [ofRows, List.forall_mem_append, and_assoc]

/-- Aggregate calls and grouping keys stand where the statement can evaluate them. -/
structure Select.WellGrouped (s : Select) : Prop where
  rows : ∀ e ∈ s.ofRows, e.aggregates = false
  flat : ∀ e ∈ s.expressions, e.Flat
  keys : s.groupBy <+: (s.projection.getD []).map (·.expr)

end Sql

namespace Expr

variable {d : Dialect} {scope : Scope} {e : Expr} {s : Sql.Expr}

/-- Over columns without aggregates, an aggregate has none among its operands. -/
theorem flat_of_isAggregate (hf : e.Formed) (ha : e.isAggregate = true)
    (h : e.lower (Target.builtin d) scope = .ok s)
    (hs : ∀ ref c, scope.column ref = .ok c → c.aggregates = false) : s.Flat := by
  cases e with
  | aggregate f arg distinct filter =>
    obtain ⟨a, c, ha, hc, h⟩ := lower_eq_ok.mp h
    obtain rfl := Target.aggregate_builtin rfl h
    obtain ⟨-, harg, hfilter⟩ := hf
    have hrow : ∀ x ∈ arg.toList ++ filter.toList, x.isRowLevel = true :=
      List.forall_mem_append.mpr ⟨by simpa using harg, by simpa using hfilter⟩
    have hplain : ∀ y ∈ a.toList ++ c.toList, y.aggregates = false := by
      intro y hy
      obtain ⟨x, hx, hl⟩ := forall₂_mem_right (List.rel_append ha hc) hy
      exact aggregates_lower_eq_false hl (fun q hq => (isRowLevel_iff.mp (hrow x hx) q hq).1) hs
    have hoperand : ((Target.builtin d).aggregateArg a c).aggregates = false := by
      refine Sql.Expr.aggregates_eq_false.mpr fun p hp => ?_
      rcases Target.mem_parts_aggregateArg hp with ⟨y, hy, hpy⟩ | ⟨-, -, hn⟩
      · exact Sql.Expr.aggregates_eq_false.mp (hplain y hy) p hpy
      · exact hn
    have hfilter : ∀ y ∈ (Target.builtin d).aggregateFilter c, y.aggregates = false := by
      intro y hy
      unfold Target.aggregateFilter at hy
      split at hy
      · exact hplain y (List.mem_append_right _ (Option.mem_toList.mpr hy))
      · simp at hy
    have hchildren : ∀ y ∈ (Sql.Expr.call f.sqlName [(Target.builtin d).aggregateArg a c] distinct
        ((Target.builtin d).aggregateFilter c) none).children, y.aggregates = false := by
      simpa [Sql.Expr.children, or_imp, forall_and] using ⟨hoperand, hfilter⟩
    intro p hp
    rcases Sql.Expr.mem_parts.mp hp with rfl | ⟨y, hy, hpy⟩
    · exact fun _ => hchildren
    · exact Sql.Expr.flat_of_aggregates (hchildren y hy) p hpy
  | _ => simp [isAggregate] at ha

/-- In the SQL of an expression without windows, calls within aggregate calls come from columns and
from aggregates only. -/
theorem admits_flatAt (hw : e.containsWindow = false)
    (ha : ∀ x ∈ e.parts, x.isAggregate = true → ∀ s, x.lower (Target.builtin d) scope = .ok s →
      s.Flat) : Admits (Target.builtin d) scope e Sql.Expr.FlatAt where
  constant h := by
    obtain rfl := Target.constant_eq_ok h
    exact Sql.Expr.flatAt_of_neither rfl rfl
  unary := Sql.Expr.flatAt_of_neither rfl rfl
  binary := Sql.Expr.flatAt_of_neither rfl rfl
  row hfn h hargs p hp := by
    rcases Target.mem_parts_call h hp with ⟨a, ha, hpa⟩ | ⟨-, hw, hagg⟩
    · exact hargs a ha p hpa
    · exact Sql.Expr.flatAt_of_neither (hagg rfl _ hfn) hw
  inList := Sql.Expr.flatAt_of_neither rfl rfl
  isNull := Sql.Expr.flatAt_of_neither rfl rfl
  cast _ := Sql.Expr.flatAt_of_neither rfl rfl
  case := Sql.Expr.flatAt_of_neither rfl rfl
  aggregate hm hl _ _ := ha _ (mem_parts_of_mem_kept hm) rfl _ hl
  window hm :=
    absurd (containsWindow_eq_false.mp hw _ (mem_parts_of_mem_kept hm)) (by simp [isWindow])

/-- An expression over groups becomes flat SQL if what its columns stand for has no aggregates. -/
theorem flat_lower_group (hm : e.Made) (hw : e.containsWindow = false)
    (h : e.lower (Target.builtin d) scope = .ok s)
    (hs : ∀ ref c, scope.column ref = .ok c → c.aggregates = false) : s.Flat :=
  (admits_flatAt hw fun _ hx ha _ hl => flat_of_isAggregate (hm.part hx).formed ha hl hs).lower
    (fun ref _ c hc => Sql.Expr.flat_of_aggregates (hs ref c hc)) h

/-- A row-level expression becomes flat SQL if what its columns stand for is flat. -/
theorem flat_lower_row (ha : ∀ q ∈ e.parts, q.isAggregate = false) (hw : e.containsWindow = false)
    (h : e.lower (Target.builtin d) scope = .ok s)
    (hs : ∀ ref c, scope.column ref = .ok c → c.Flat) : s.Flat :=
  (admits_flatAt hw fun x hx hxa => absurd (ha x hx) (by simp [hxa])).lower (fun ref _ => hs ref) h

end Expr

/-- Window functions are in the nodes made for them only. -/
def Relation.ConfinesWindows (r : Relation) : Prop :=
  ∀ n ∈ r.nodes, ∀ e ∈ n.exprs,
    (∃ id input exprs, n = .window id input exprs) ∨ e.containsWindow = false

namespace Fragment

/-- Where aggregate calls are in a fragment and in the statements within it: a fragment that does not
aggregate has neither grouping keys nor a column with an aggregate call. -/
structure WellGrouped (f : Fragment) : Prop where
  select : f.select.WellGrouped
  nested : ∀ q ∈ f.select.source.selects, q.WellGrouped
  flat : ∀ c ∈ f.columns, c.expr.Flat
  plain : f.aggregated = false →
    f.select.groupBy = [] ∧ ∀ c ∈ f.columns, c.expr.aggregates = false

variable {d : Dialect} {header : Header} {f g : Fragment}

theorem aggregates_under {columns : List OutputColumn} (q : Option String) :
    ∀ c ∈ columns.map (OutputColumn.under q), c.expr.aggregates = false := by
  intro c hc
  obtain ⟨c', -, rfl⟩ := List.mem_map.mp hc
  rfl

/-- All rows and columns of a source whose statements are well grouped. -/
theorem wellGrouped_ofSource {source : Sql.FromItem} {columns : List OutputColumn}
    (hons : ∀ e ∈ source.ons, e.aggregates = false) (hs : ∀ q ∈ source.selects, q.WellGrouped)
    (hc : ∀ c ∈ columns, c.expr.aggregates = false) : (ofSource source columns).WellGrouped where
  select := {
    rows := Sql.Select.forall_ofRows.mpr ⟨hons, by simp [ofSource, Sql.SelectOver.ofSource]⟩
    flat := by simp [ofSource, Sql.SelectOver.ofSource, Sql.SelectOver.expressions]
    keys := List.nil_prefix }
  nested := hs
  flat c hm := Sql.Expr.flat_of_aggregates (hc c hm)
  plain _ := ⟨rfl, hc⟩

theorem wellGrouped_ofTable (name : String) (aliasName : Option String) (fields : Schema) :
    (ofTable name aliasName fields).WellGrouped :=
  wellGrouped_ofSource (by simp [Sql.FromItem.ons]) (by simp [Sql.FromItem.selects])
    (List.forall_mem_map.mpr fun _ _ => rfl)

namespace WellGrouped

variable (h : f.WellGrouped)
include h

/-- Putting names to the items moves none of the expressions. -/
theorem statements_named : ∀ q ∈ f.named.statements, q.WellGrouped := by
  have hitems : (f.named.projection.getD []).map (·.expr) =
      (f.select.projection.getD []).map (·.expr) := by
    unfold named
    cases f.select.projection with
    | none => rfl
    | some items => exact namedItems_exprs items f.columns
  refine List.forall_mem_cons.mpr ⟨⟨h.select.rows, ?_, ?_⟩, h.nested⟩
  · rw [expressions_named]
    exact h.select.flat
  · rw [hitems]
    exact h.select.keys

theorem wrapped (aliasName : String) : (f.wrapped aliasName).WellGrouped :=
  wellGrouped_ofSource (by simp [Sql.FromItem.ons]) h.statements_named (aggregates_under none)

theorem joinSide (aliasName : String) : (f.joinSide aliasName).1.ons = [] ∧
    ∀ q ∈ (f.joinSide aliasName).1.selects, q.WellGrouped := by
  unfold Fragment.joinSide
  cases f.select.bareTable? with
  | some table => exact ⟨rfl, by simp [Sql.FromItem.selects]⟩
  | none => exact ⟨rfl, h.statements_named⟩

theorem flat_items : ∀ item ∈ f.items, item.expr.Flat := by
  have hshown := (Sql.SelectOver.forall_mem_expressions.mp h.select.flat).1
  unfold items
  cases hp : f.select.projection with
  | none => exact List.forall_mem_map.mpr h.flat
  | some items => simpa [hp] using hshown

/-- A SELECT without grouping keys stays well grouped with flat items for columns without
aggregates. -/
theorem withItems {items : List Sql.SelectItem} {columns : List OutputColumn} {w : Bool}
    (ha : f.aggregated = false) (hi : ∀ item ∈ items, item.expr.Flat)
    (hc : ∀ c ∈ columns, c.expr.aggregates = false) :
    WellGrouped { f with
      select := { f.select with projection := some items }
      columns := columns
      windowed := w } := by
  obtain ⟨hk, -⟩ := h.plain ha
  obtain ⟨-, hexprs⟩ := Sql.SelectOver.forall_mem_expressions.mp h.select.flat
  refine ⟨⟨h.select.rows, ?_, ?_⟩, h.nested, fun c hm => Sql.Expr.flat_of_aggregates (hc c hm),
    fun _ => ⟨hk, hc⟩⟩
  · exact Sql.SelectOver.forall_mem_expressions.mpr ⟨hi, hexprs⟩
  · rw [show f.select.groupBy = [] from hk]
    exact List.nil_prefix

theorem project {exprs : List NamedExpr}
    (hm : ∀ n ∈ exprs, n.expr.Made ∧ n.expr.containsAggregate = false) (ha : f.aggregated = false)
    (hg : f.project (Target.builtin d) header exprs = .ok g) : g.WellGrouped := by
  obtain ⟨items, columns, ho, rfl⟩ := project_eq_ok hg
  obtain ⟨hcols, hitems⟩ := outputs_eq_ok ho
  have hnew := aggregates_columns hcols hm (h.plain ha).2
  refine h.withItems ha (forall_items hitems fun c hc => ?_) hnew
  exact Sql.Expr.flat_of_aggregates (hnew c hc)

theorem window {exprs : List NamedExpr}
    (hm : ∀ n ∈ exprs, n.expr.Made ∧ n.expr.containsAggregate = false) (ha : f.aggregated = false)
    (hg : f.window (Target.builtin d) header exprs = .ok g) : g.WellGrouped := by
  obtain ⟨items, columns, ho, rfl⟩ := window_eq_ok hg
  obtain ⟨hcols, hitems⟩ := outputs_eq_ok ho
  have hold := (h.plain ha).2
  have hnew := aggregates_columns hcols hm hold
  have hshown : ∀ item ∈ items, item.expr.Flat :=
    forall_items hitems fun c hc => Sql.Expr.flat_of_aggregates (hnew c hc)
  exact h.withItems ha (List.forall_mem_append.mpr ⟨h.flat_items, hshown⟩)
    (List.forall_mem_append.mpr ⟨hold, hnew⟩)

/-- On groups a condition goes to HAVING, where its columns may stand for aggregates. -/
theorem filter {cs : List Expr} (hm : ∀ c ∈ cs, c.Made ∧ c.containsAggregate = false)
    (hw : ∀ c ∈ cs, c.containsWindow = false)
    (hg : f.filter (Target.builtin d) header cs = .ok g) : g.WellGrouped := by
  obtain ⟨ss, hss, hg⟩ := filter_eq_ok hg
  obtain ⟨hon, hse, hge, hqe⟩ := Sql.Select.forall_ofRows.mp h.select.rows
  obtain ⟨hpf, hsf, hgf, hhf, hqf, hof⟩ := Sql.SelectOver.forall_mem_expressions.mp h.select.flat
  have hflat : ∀ s ∈ ss, s.Flat := by
    refine forall_conditions hss fun c hc p hp s hl => ?_
    have hparts := Expr.mem_parts_of_mem_conjuncts hp
    exact Expr.flat_lower_row
      (fun q hq => (hm c hc).1.isAggregate_of_part (hm c hc).2 (Expr.mem_parts_trans hparts hq))
      (Expr.containsWindow_of_part hparts (hw c hc)) hl (Scope.forall_columns header h.flat)
  have hplain : f.aggregated = false → ∀ s ∈ ss, s.aggregates = false := fun ha =>
    aggregates_conditions hss hm (h.plain ha).2
  rcases hg with ⟨ha, rfl⟩ | ⟨ha, -, rfl⟩ | ⟨ha, -, rfl⟩
  · exact ⟨⟨h.select.rows, Sql.SelectOver.forall_mem_expressions.mpr ⟨hpf, hsf, hgf,
      List.forall_mem_append.mpr ⟨hhf, hflat⟩, hqf, hof⟩, h.select.keys⟩, h.nested, h.flat, h.plain⟩
  · exact ⟨⟨Sql.Select.forall_ofRows.mpr ⟨hon, hse, hge,
        List.forall_mem_append.mpr ⟨hqe, hplain ha⟩⟩,
      Sql.SelectOver.forall_mem_expressions.mpr ⟨hpf, hsf, hgf, hhf,
        List.forall_mem_append.mpr ⟨hqf, hflat⟩, hof⟩, h.select.keys⟩, h.nested, h.flat, h.plain⟩
  · exact ⟨⟨Sql.Select.forall_ofRows.mpr ⟨hon,
        List.forall_mem_append.mpr ⟨hse, hplain ha⟩, hge, hqe⟩,
      Sql.SelectOver.forall_mem_expressions.mpr ⟨hpf, List.forall_mem_append.mpr ⟨hsf, hflat⟩, hgf,
        hhf, hqf, hof⟩, h.select.keys⟩, h.nested, h.flat, h.plain⟩

/-- The keys of GROUP BY are the first items. -/
theorem aggregate {keys metrics : List NamedExpr} {having : List Expr}
    (hk : ∀ n ∈ keys, n.expr.Made ∧ n.expr.isRowLevel = true)
    (hm : ∀ n ∈ metrics, n.expr.Made ∧ n.expr.containsWindow = false)
    (hh : ∀ c ∈ having, c.Made ∧ c.containsWindow = false) (ha : f.aggregated = false)
    (hg : f.aggregate (Target.builtin d) header keys metrics having = .ok g) : g.WellGrouped := by
  obtain ⟨keyItems, keyColumns, metricItems, metricColumns, ss, hko, hmo, hss, rfl⟩ :=
    aggregate_eq_ok hg
  obtain ⟨hkc, hki⟩ := outputs_eq_ok hko
  obtain ⟨hmc, hmi⟩ := outputs_eq_ok hmo
  obtain ⟨hon, hse, -, hqe⟩ := Sql.Select.forall_ofRows.mp h.select.rows
  obtain ⟨-, hsf, -, hhf, hqf, -⟩ := Sql.SelectOver.forall_mem_expressions.mp h.select.flat
  have hscope : ∀ ref c, (f.scope header).column ref = .ok c → c.aggregates = false :=
    Scope.forall_columns header (h.plain ha).2
  have hkeys : ∀ c ∈ keyColumns, c.expr.aggregates = false := aggregates_columns hkc
    (fun n hn => ⟨(hk n hn).1, (Expr.isRowLevel_eq_true.mp (hk n hn).2).1⟩) (h.plain ha).2
  have hmetrics : ∀ c ∈ metricColumns, c.expr.Flat := forall_columns hmc fun n hn _ hl =>
    Expr.flat_lower_group (hm n hn).1 (hm n hn).2 hl hscope
  have hcolumns : ∀ c ∈ keyColumns ++ metricColumns, c.expr.Flat :=
    List.forall_mem_append.mpr ⟨fun c hc => Sql.Expr.flat_of_aggregates (hkeys c hc), hmetrics⟩
  have hshown : ∀ item ∈ keyItems ++ metricItems, item.expr.Flat :=
    forall_items (List.rel_append hki hmi) hcolumns
  have hgroup : ∀ e ∈ keyItems.map (·.expr), e.aggregates = false :=
    List.forall_mem_map.mpr (forall_items (P := fun e => e.aggregates = false) hki hkeys)
  have hconditions : ∀ s ∈ ss, s.Flat := forall_conditions hss fun c hc p hp _ hl =>
    have hparts := Expr.mem_parts_of_mem_conjuncts hp
    Expr.flat_lower_group ((hh c hc).1.part hparts)
      (Expr.containsWindow_of_part hparts (hh c hc).2) hl hscope
  refine ⟨⟨Sql.Select.forall_ofRows.mpr ⟨hon, hse, hgroup, hqe⟩, ?_, ?_⟩, h.nested, hcolumns,
    by simp⟩
  · exact Sql.SelectOver.forall_mem_expressions.mpr ⟨hshown, hsf,
      fun e he => Sql.Expr.flat_of_aggregates (hgroup e he),
      List.forall_mem_append.mpr ⟨hhf, hconditions⟩, hqf, by simp⟩
  · rw [Option.getD_some, List.map_append]
    exact List.prefix_append _ _

theorem sort {keys : List (SortKey Expr)}
    (hm : ∀ k ∈ keys, k.expr.Made ∧ k.expr.containsAggregate = false)
    (hw : ∀ k ∈ keys, k.expr.containsWindow = false)
    (hg : f.sort (Target.builtin d) header keys = .ok g) : g.WellGrouped := by
  obtain ⟨ss, hss, rfl⟩ := sort_eq_ok hg
  obtain ⟨hpf, hsf, hgf, hhf, hqf, hof⟩ := Sql.SelectOver.forall_mem_expressions.mp h.select.flat
  have hflat : ∀ s ∈ ss, s.expr.Flat := forall_keys hss fun k hk _ hl =>
    Expr.flat_lower_row (fun _ hq => (hm k hk).1.isAggregate_of_part (hm k hk).2 hq) (hw k hk) hl
      (Scope.forall_columns header h.flat)
  exact ⟨⟨h.select.rows, Sql.SelectOver.forall_mem_expressions.mpr ⟨hpf, hsf, hgf, hhf, hqf,
    List.forall_mem_append.mpr ⟨hflat, hof⟩⟩, h.select.keys⟩, h.nested, h.flat, h.plain⟩

theorem limit (count : Option Nat) (offset : Nat) : (f.limit count offset).WellGrouped :=
  ⟨⟨h.select.rows, h.select.flat, h.select.keys⟩, h.nested, h.flat, h.plain⟩

theorem distinct : f.distinct.WellGrouped := by
  obtain ⟨hpf, hsf, hgf, hhf, hqf, hof⟩ := Sql.SelectOver.forall_mem_expressions.mp h.select.flat
  exact ⟨⟨h.select.rows, Sql.SelectOver.forall_mem_expressions.mpr ⟨hpf, hsf, hgf, hhf, hqf,
    fun k hk => hof k (orderBy_distinct_subset f hk)⟩, h.select.keys⟩, h.nested, h.flat, h.plain⟩

end WellGrouped

theorem WellGrouped.join {l r : Fragment} (hl : l.WellGrouped) (hr : r.WellGrouped)
    {op : Sql.JoinOp} {left right : Header} {fields : Schema} {cs : List Expr} {a b : String}
    (hc : ∀ c ∈ cs, c.Made ∧ c.isRowLevel = true)
    (hlen : fields.length = ((l.joinSide a).2 ++ (r.joinSide b).2).length)
    (hg : Fragment.join (Target.builtin d) op left right fields cs (l.joinSide a) (r.joinSide b) =
      .ok g) : g.WellGrouped := by
  obtain ⟨on, hon, rfl⟩ := join_eq_ok hg
  obtain ⟨hlo, hls⟩ := hl.joinSide a
  obtain ⟨hro, hrs⟩ := hr.joinSide b
  have hsides : ∀ c ∈ (l.joinSide a).2 ++ (r.joinSide b).2, c.expr.aggregates = false :=
    List.forall_mem_append.mpr ⟨aggregates_under (some a), aggregates_under (some b)⟩
  have hon : ∀ e ∈ on, e.aggregates = false := forall_conditions hon fun c hm p hp _ hl =>
    have hparts := Expr.mem_parts_of_mem_conjuncts hp
    Expr.aggregates_lower_eq_false hl
      (fun q hq => (Expr.isRowLevel_iff.mp (hc c hm).2 q (Expr.mem_parts_trans hparts hq)).1)
      (Scope.forall_join left right hsides)
  obtain ⟨hshows, -, hexprs⟩ := joinColumns hlen
  have hcolumns := (forall_mem_iff_of_map_eq (P := fun e => e.aggregates = false) hexprs).mpr hsides
  have hons : ∀ e ∈ (Sql.FromItem.join (l.joinSide a).1 (r.joinSide b).1 op on).ons,
      e.aggregates = false := by
    simpa [Sql.FromItem.ons, hlo, hro] using hon
  have hsource := wellGrouped_ofSource hons (List.forall_mem_append.mpr ⟨hls, hrs⟩) hcolumns
  refine hsource.withItems rfl (forall_items hshows fun c hm => ?_) hcolumns
  exact Sql.Expr.flat_of_aggregates (hcolumns c hm)

end Fragment

namespace Relation

variable {d : Dialect} {root : Relation}

theorem ConfinesWindows.of_not_window (h : root.ConfinesWindows) {n : Relation}
    (hn : n ∈ root.nodes) (hw : ∀ id input exprs, n ≠ .window id input exprs) :
    ∀ e ∈ n.exprs, e.containsWindow = false := by
  intro e he
  rcases h n hn e he with ⟨id, input, exprs, hx⟩ | hx
  · exact absurd hx (hw id input exprs)
  · exact hx

theorem keeps_wellGrouped (hw : root.WellFormed) (hc : root.ConfinesWindows) :
    Keeps (Target.builtin d) root (fun r f => Grounded r f ∧ f.WellGrouped) fun _ => True where
  wrapped a hr h := ⟨(keeps_grounded hw (t := Target.builtin d)).wrapped a hr h.1, h.2.wrapped a⟩
  table {id name aliasName fields} hr :=
    ⟨grounded_table (hw _ hr), Fragment.wellGrouped_ofTable name aliasName fields⟩
  project hr h ha _ := settles_of_ok fun _ hg =>
    ⟨h.1.project hg, h.2.project
      (fun n hn => ⟨((hw _ hr).2.1 n hn).1, (hw _ hr).2.2.1 n hn⟩) ha hg⟩
  filter hr h _ _ := settles_of_ok fun _ hg =>
    ⟨h.1.filter hg, h.2.filter (fun c hm => ⟨(hw _ hr c hm).1, (hw _ hr c hm).2.2⟩)
      (hc.of_not_window hr (by simp)) hg⟩
  aggregate {id input keys metrics having f} hr h ha _ _ := settles_of_ok fun _ hg => by
    obtain ⟨hh, -, hko, hk, hmo, hm, -⟩ := hw _ hr
    exact ⟨h.1.aggregate hg, h.2.aggregate (fun n hn => ⟨(hko n hn).1, hk n hn⟩)
      (fun n hn => ⟨(hmo n hn).1, (hm n hn).2.1⟩) (fun c hm => ⟨(hh c hm).1, (hh c hm).2.2⟩) ha hg⟩
  sort hr h _ := settles_of_ok fun _ hg =>
    ⟨h.1.sort hg, h.2.sort (fun k hm => ⟨(hw _ hr k hm).1, (hw _ hr k hm).2.2⟩)
      (List.forall_mem_map.mp (hc.of_not_window hr (by simp))) hg⟩
  limit {id input count offset f} _ h _ := ⟨h.1.limit count offset, h.2.limit count offset⟩
  joinOp _ := settles_of_ok fun _ _ => trivial
  join {id left right kind cs op l r a b} hr _ hl hrr hab := settles_of_ok fun g hg => by
    have hdl := hw.nodup_input hr (i := left) (by simp [inputs])
    have hdr := hw.nodup_input hr (i := right) (by simp [inputs])
    have hlen : (joinFields left.header.fields right.header.fields).length =
        ((l.joinSide a).2 ++ (r.joinSide b).2).length := by
      simp [Fragment.joinSide, hl.1.length, hrr.1.length]
    obtain ⟨-, hcs, -⟩ := hw _ hr
    exact ⟨hl.1.join hrr.1 hdl hdr hab hg,
      hl.2.join hrr.2 (fun c hm => ⟨(hcs c hm).1, (hcs c hm).2.2⟩) hlen hg⟩
  window hr h ha _ _ := settles_of_ok fun _ hg =>
    ⟨h.1.window hg, h.2.window
      (fun n hn => ⟨((hw _ hr).1 n hn).1, ((hw _ hr).2.1 n hn).2⟩) ha hg⟩
  distinct _ h _ := ⟨h.1.distinct, h.2.distinct⟩

/-- In the statement of a relation whose window functions are in the nodes made for them, and in every
derived table in it, no aggregate call stands in ON, WHERE, GROUP BY or QUALIFY, nor within another
aggregate call or a window call, and the keys of GROUP BY are the first items of the projection. -/
theorem toSelect_aggregates_placed {r : Relation} (h : r.Valid) (hc : r.ConfinesWindows)
    {s : Sql.Select} (hs : r.toSelect (Target.builtin d) = .ok s) :
    ∀ q ∈ s.statements,
      (∀ e ∈ q.source.ons ++ q.selection ++ q.groupBy ++ q.qualify, e.aggregates = false) ∧
      (∀ e ∈ q.source.ons ++ q.expressions, ∀ p ∈ e.parts,
        (p.isAggregateCall || p.isWindowCall) = true → ∀ c ∈ p.children, c.aggregates = false) ∧
      q.groupBy <+: (q.projection.getD []).map (·.expr) := by
  obtain ⟨f, ⟨-, hf⟩, rfl⟩ := ((keeps_wellGrouped h.wellFormed hc).toSelect h.coherent).of_ok hs
  intro q hq
  have hg : q.WellGrouped := List.forall_mem_cons.mpr ⟨hf.select, hf.nested⟩ q hq
  have hons : ∀ e ∈ q.source.ons, e.Flat := fun e he =>
    Sql.Expr.flat_of_aggregates ((Sql.Select.forall_ofRows.mp hg.rows).1 e he)
  exact ⟨hg.rows, List.forall_mem_append.mpr ⟨hons, hg.flat⟩, hg.keys⟩

/-- A table of sales. -/
def sales : Relation :=
  .table 0 "sales" none [⟨"region", .string, true⟩, ⟨"amount", .int64, true⟩]

/-- The amount sold in each region. -/
def totals : Relation :=
  .aggregate 1 sales [⟨.column ⟨none, "region"⟩ .string, none⟩]
    [⟨.aggregate .sum (some (.column ⟨none, "amount"⟩ .int64)) false none, some "total"⟩] []

theorem session_totals : Session [totals, sales] := by
  have ht : scan 0 "sales" none [⟨"region", .string, true⟩, ⟨"amount", .int64, true⟩] =
      .ok sales := rfl
  have hs : Expr.applyAggregate .sum (.column ⟨none, "amount"⟩ .int64) false = .ok _ := rfl
  have hg : group 1 sales [⟨.column ⟨none, "region"⟩ .string, none⟩] []
      [⟨.aggregate .sum (some (.column ⟨none, "amount"⟩ .int64)) false none, some "total"⟩] =
      .ok totals := rfl
  refine .call (.call .start (.scan ht) (by simp)) (.group (by simp) ?_ (by simp) ?_ hg)
    (by simp [id, totals, sales])
  · simpa using .column _ _
  · simpa using .aggregate (.column _ _) hs

/-- The large amounts. -/
def largeTotals : Relation :=
  .filter 2 totals [.binary .gt (.column ⟨none, "total"⟩ .int64) (.int 10)]

/-- The large amounts, the largest first. -/
def rankedTotals : Relation := .sort 3 largeTotals [⟨.column ⟨none, "total"⟩ .int64, true⟩]

theorem valid_rankedTotals : rankedTotals.Valid := by
  have he : Expr.applyBinary .gt (.column ⟨none, "total"⟩ .int64) (.int 10) = .ok _ := rfl
  have hf : restrict 2 totals [.binary .gt (.column ⟨none, "total"⟩ .int64) (.int 10)] =
      .ok largeTotals := rfl
  have hk : sortBy 3 largeTotals [⟨.column ⟨none, "total"⟩ .int64, true⟩] = .ok rankedTotals := rfl
  have hfilter : Session [largeTotals, totals, sales] :=
    session_totals.call (.restrict (by simp) (by simpa using .binary (.column _ _) (.literal _) he)
      hf) (by simp [id, largeTotals, totals, sales])
  exact ⟨_, .call hfilter (.sortBy (by simp) (by simpa using .column _ _) hk)
    (by simp [id, rankedTotals, largeTotals, totals, sales]), List.mem_cons_self⟩

theorem confinesWindows_rankedTotals : rankedTotals.ConfinesWindows := by
  intro n hn e he
  refine .inr ?_
  simp only [rankedTotals, largeTotals, totals, sales, nodes, List.mem_cons, List.not_mem_nil,
    or_false] at hn
  rcases hn with rfl | rfl | rfl | rfl <;>
    simp only [exprs, List.map_cons, List.map_nil, List.cons_append, List.nil_append,
      List.mem_cons, List.not_mem_nil, or_false] at he
  · exact he ▸ rfl
  · exact he ▸ rfl
  · rcases he with rfl | rfl <;> rfl

theorem toSelect_rankedTotals_aggregates_placed : ∃ s,
    rankedTotals.toSelect (Target.builtin .postgres) = .ok s ∧ ∀ q ∈ s.statements,
      (∀ e ∈ q.source.ons ++ q.selection ++ q.groupBy ++ q.qualify, e.aggregates = false) ∧
      (∀ e ∈ q.source.ons ++ q.expressions, ∀ p ∈ e.parts,
        (p.isAggregateCall || p.isWindowCall) = true → ∀ c ∈ p.children, c.aggregates = false) ∧
      q.groupBy <+: (q.projection.getD []).map (·.expr) := by
  have hs : rankedTotals.toSelect (Target.builtin .postgres) = .ok _ := rfl
  exact ⟨_, hs, toSelect_aggregates_placed valid_rankedTotals confinesWindows_rankedTotals hs⟩

end Relation

end PlanSql
