import PlanSql.Proofs.Semantics.BagOperators

/-!
# Aggregates become groups

The groups of a statement's rows correspond to those of the node's rows. At corresponding groups
keys have the values that they have at any row of the group, and whatever else is asked of a group
is asked of its keys and of its rows.
-/
namespace PlanSql

variable {V : Type} [DecidableEq V]

/-- The group of what the columns are worth at the rows of a group. -/
noncomputable def Fragment.groupOf (M : Meaning V) (db : Database V) (f : Fragment)
    (rows : Multiset (List V)) : Focus (List V) :=
  .ofGroup (rows.map fun row => f.values M db 0 (.single row))

namespace Relation

section Operators

variable {M : Meaning V} {db : Database V} {d : Dialect} {id : NodeId} {input : Relation}
  {f g : Fragment}

/-- A column that is one of the keys is a key of the statement. -/
theorem mem_keys_of_isAmong {header : Header} {keys : List NamedExpr}
    {columns : List OutputColumn}
    (hk : List.Forall₂ (Fragment.ColumnOf (Target.builtin d) (f.scope header)) keys columns)
    {ref : ColumnRef} (hr : header.isAmong (header.keyPositions keys) ref = true) {s : Sql.Expr}
    (hs : (f.scope header).column ref = .ok s) : s ∈ columns.map (·.expr) := by
  obtain ⟨i, hi, hl⟩ := Header.isAmong_iff.mp hr
  obtain ⟨k, hkm, ref', type, hke, hl'⟩ := Header.mem_keyPositions.mp hi
  obtain ⟨c, hc, hlower, -⟩ := forall₂_mem_left hk hkm
  have hcol : (f.scope header).column ref' = .ok c.expr := by
    have hlower := Expr.lower_eq_ok.mp hlower
    rwa [hke] at hlower
  obtain ⟨j, c₁, hj, hc₁, rfl⟩ := Scope.columns_eq_ok hs
  obtain ⟨j', c₂, hj', hc₂, he₂⟩ := Scope.columns_eq_ok hcol
  obtain rfl : i = j := by simpa using hl.symm.trans hj
  obtain rfl : i = j' := by simpa using hl'.symm.trans hj'
  obtain rfl : c₁ = c₂ := by simpa using hc₁.symm.trans hc₂
  exact List.mem_map.mpr ⟨c, hc, he₂.symm⟩

section Aggregate

variable {header : Header} {keys : List NamedExpr} {columns : List OutputColumn}
  {rows : Multiset (List V)} {frame : Multiset (Focus (List V))}
  (hcw : ∀ c ∈ f.columns, c.expr.windows = false)
  (hca : ∀ c ∈ f.columns, c.expr.aggregates = false)
  (hrows : IsGroup (columns.map (·.expr))
    (fun e row => (f.source M db).value M 0 (.single row) e) rows)

include hrows in
/-- A key is worth the same at a group as at any of its rows. -/
theorem value_key {s : Sql.Expr} (hs : s ∈ columns.map (·.expr)) (hsw : s.windows = false)
    (hsa : s.aggregates = false) {y : List V} (hy : y ∈ rows) :
    (f.source M db).value M frame (.ofGroup rows) s =
      (f.source M db).value M 0 (.single y) s := by
  have hmem := Focus.row_mem_ofGroup (hrows.1 (List.ne_nil_of_mem hs))
  refine Eq.trans ?_ (hrows.2 _ hmem y hy s hs)
  exact Sql.Expr.eval_congr hsw rfl (.inl hsa)

/-- What represents the group of what the columns are worth is what they are worth at one row. -/
theorem exists_row_groupOf (hne : rows ≠ 0) :
    ∃ y ∈ rows, (f.groupOf M db rows).row = f.values M db 0 (.single y) := by
  have hmem : (f.groupOf M db rows).row ∈ rows.map fun row => f.values M db 0 (.single row) :=
    Focus.row_mem_ofGroup (by simpa using hne)
  obtain ⟨y, hy, he⟩ := Multiset.mem_map.mp hmem
  exact ⟨y, hy, he.symm⟩

include hcw hca hrows in
/-- The SQL of an expression over groups is worth at a group of rows what the expression is worth at
the group of what the rows stand for. -/
theorem value_group (hM : M.Keeps d)
    (hk : List.Forall₂ (Fragment.ColumnOf (Target.builtin d) (f.scope header)) keys columns)
    {e : Expr} {s : Sql.Expr} (hs : e.lower (Target.builtin d) (f.scope header) = .ok s)
    (hm : e.Made) (hw : e.containsWindow = false)
    (hb : ∀ ref ∈ e.bareColumns, header.isAmong (header.keyPositions keys) ref = true)
    (frame' : Multiset (Focus (List V))) :
    (f.source M db).value M frame (.ofGroup rows) s =
      e.eval M (M.look header) frame' (f.groupOf M db rows) := by
  refine Expr.eval_lower_group hM hs hm hw rfl (fun y _ => ?_) fun ref hr c hc => ?_
  · rw [Fragment.values, Fragment.valuesIn_congr (x := .single y) hcw rfl (.inr rfl)]
    exact f.agrees header e
  · have hmem := mem_keys_of_isAmong hk (hb ref hr) hc
    have hcw : c.windows = false :=
      Scope.forall_columns (P := fun c => c.windows = false) header hcw ref c hc
    have hca : c.aggregates = false :=
      Scope.forall_columns (P := fun c => c.aggregates = false) header hca ref c hc
    obtain ⟨y, hy, hrow⟩ := exists_row_groupOf (hrows.1 (List.ne_nil_of_mem hmem))
    rw [hrow]
    refine (value_key hrows hmem hcw hca hy).trans ?_
    exact Fragment.value_column hc

include hrows in
/-- The SQL of a key is worth at a group of rows what the key is worth at the group of what the rows
stand for. -/
theorem value_group_key (hM : M.Keeps d)
    (hk : List.Forall₂ (Fragment.ColumnOf (Target.builtin d) (f.scope header)) keys columns)
    (hkw : ∀ c ∈ columns, c.expr.windows = false)
    (hka : ∀ c ∈ columns, c.expr.aggregates = false) {n : NamedExpr} (hn : n ∈ keys)
    (hr : n.expr.isRowLevel = true) {s : Sql.Expr}
    (hs : n.expr.lower (Target.builtin d) (f.scope header) = .ok s)
    (frame' : Multiset (Focus (List V))) :
    (f.source M db).value M frame (.ofGroup rows) s =
      n.expr.eval M (M.look header) frame' (f.groupOf M db rows) := by
  obtain ⟨c, hc, hl, -⟩ := forall₂_mem_left hk hn
  obtain rfl : c.expr = s := by simpa using hl.symm.trans hs
  have hmem : c.expr ∈ columns.map (·.expr) := List.mem_map_of_mem hc
  obtain ⟨y, hy, hrow⟩ := exists_row_groupOf (hrows.1 (List.ne_nil_of_mem hmem))
  refine (value_key hrows hmem (hkw c hc) (hka c hc) hy).trans ?_
  refine Expr.eval_lower_row hM hs hr ?_
  rw [hrow]
  exact f.agrees header n.expr

variable (db) in
/-- The groups of a statement's rows correspond to the groups of what the columns are worth. -/
theorem exists_groups (hM : M.Keeps d)
    (hk : List.Forall₂ (Fragment.ColumnOf (Target.builtin d) (f.scope header)) keys columns)
    (hr : ∀ n ∈ keys, n.expr.isRowLevel = true) (rows : Multiset (List V)) :
    ∃ gs : Multiset (Multiset (List V)),
      groups (columns.map (·.expr)) (fun e row => (f.source M db).value M 0 (.single row) e) rows =
        gs.map .ofGroup ∧
      groups keys (fun n row => n.expr.eval M (M.look header) 0 (.single row))
        (rows.map fun row => f.values M db 0 (.single row)) = gs.map (f.groupOf M db) ∧
      ∀ g ∈ gs, IsGroup (columns.map (·.expr))
        (fun e row => (f.source M db).value M 0 (.single row) e) g := by
  have hkeys : ∀ row ∈ rows, keys.map (fun n => n.expr.eval M (M.look header) 0
        (.single (f.values M db 0 (.single row)))) =
      (columns.map (·.expr)).map fun e => (f.source M db).value M 0 (.single row) e := by
    intro row _
    rw [List.map_map]
    exact (map_columns (w := fun e => e.eval M (M.look header) _ (.single _)) hk
      fun n hn s hs => Fragment.value_lower hM hs (hr n hn) _ _ _).symm
  have hempty : keys.isEmpty = (columns.map (·.expr)).isEmpty := by
    have hlen := hk.length_eq
    cases keys <;> cases columns <;> simp_all
  obtain ⟨gs, hgs, hgs', hg⟩ := groups_map
    (fun e row => (f.source M db).value M 0 (.single row) e)
    (fun n row => n.expr.eval M (M.look header) 0 (.single row))
    (fun row => f.values M db 0 (.single row)) hkeys hempty
  exact ⟨gs, hgs, hgs', fun g hmem => (hg g hmem).1⟩

end Aggregate

/-- The rows of a fragment that has neither groups nor windows are those that WHERE lets through. -/
theorem Means.rows_of_selected {r : Relation} (h : Means M db r f) (ha : f.aggregated = false)
    (hw : f.windowed = false) (hd : f.select.distinct = false) : r.bag M db =
      (f.select.selected M (f.source M db)).map fun row => f.values M db 0 (.single row) := by
  obtain ⟨hq, hcw⟩ := h.unwindowed hw
  obtain ⟨-, hh, -, -⟩ := h.plain ha
  rw [h.rows_of_not_distinct hd, Fragment.qualified, Sql.SelectOver.qualified_of_nil hq,
    Sql.SelectOver.shown_of_not_grouped (h.isGrouped.trans ha) hh, Multiset.map_map]
  exact Multiset.map_congr rfl fun row _ => Fragment.valuesIn_congr hcw rfl (.inr rfl)

/-- What the statement of an aggregation shows are the groups that the conditions hold for. -/
theorem Means.qualified_aggregate (h : Means M db input f) {keys metrics : List NamedExpr}
    {having : List Expr} (ha : f.aggregated = false) (hw : f.windowed = false)
    (hg : f.aggregate (Target.builtin d) input.header keys metrics having = .ok g)
    (hshaped : g.Shaped) : ∃ keyColumns metricColumns ss,
      List.Forall₂ (Fragment.ColumnOf (Target.builtin d) (f.scope input.header)) keys keyColumns ∧
      List.Forall₂ (Fragment.ColumnOf (Target.builtin d) (f.scope input.header)) metrics
        metricColumns ∧
      Fragment.conditions (Target.builtin d) (f.scope input.header) having = .ok ss ∧
      g.columns = keyColumns ++ metricColumns ∧ g.qualified M db =
        (groups (keyColumns.map (·.expr))
          (fun e row => (f.source M db).value M 0 (.single row) e)
          (f.select.selected M (f.source M db))).filter fun x =>
            M.allHold ((f.source M db).value M 0 x) ss := by
  obtain ⟨hq, -⟩ := h.unwindowed hw
  obtain ⟨-, hh, -, -⟩ := h.plain ha
  obtain ⟨keyItems, keyColumns, metricItems, metricColumns, ss, hk, hm, hss, hgeq⟩ :=
    Fragment.aggregate_eq_ok hg
  obtain ⟨hkc, hki⟩ := Fragment.outputs_eq_ok hk
  obtain ⟨hmc, -⟩ := Fragment.outputs_eq_ok hm
  refine ⟨keyColumns, metricColumns, ss, hkc, hmc, hss, by rw [hgeq], ?_⟩
  have hsource : g.source M db = f.source M db := Fragment.source_eq (by rw [hgeq])
  have hkeys : g.select.groupBy = keyColumns.map (·.expr) := by
    rw [hgeq]
    exact Fragment.map_value_of_shows hki fun e => e
  have hhaving : g.select.having = ss := by
    rw [hgeq]
    simp [hh]
  have hselected : g.select.selected M (f.source M db) =
      f.select.selected M (f.source M db) := by
    rw [hgeq]
    rfl
  unfold Fragment.qualified
  rw [hsource, Sql.SelectOver.qualified_of_nil (by rw [hgeq]; exact hq),
    Sql.SelectOver.shown_of_grouped (hshaped.isGrouped.trans (by rw [hgeq])), hhaving, hkeys,
    hselected]

theorem Means.aggregate (hM : M.Keeps d) (h : Means M db input f) {keys metrics : List NamedExpr}
    {having : List Expr} (hc : (Relation.aggregate id input keys metrics having).Checked)
    (hb : ∀ c ∈ having, ∀ ref ∈ c.bareColumns,
      input.header.isAmong (input.header.keyPositions keys) ref = true)
    (hv : ∀ n ∈ metrics, ∀ p ∈ n.expr.parts, p.isVoidMembership = false)
    (ha : f.aggregated = false) (hw : f.windowed = false) (hd : f.select.distinct = false)
    (hg : f.aggregate (Target.builtin d) input.header keys metrics having = .ok g) :
    Means M db (.aggregate id input keys metrics having) g := by
  obtain ⟨hhave, hne, hkout, hkrow, hmout, hmet, -⟩ := hc
  have hshaped := h.toShaped.aggregate hne hkrow
    (fun n hn => ⟨(hmout n hn).1, (hmet n hn).1, (hmet n hn).2.1⟩) hv hw hg
  obtain ⟨-, hcw⟩ := h.unwindowed hw
  obtain ⟨-, -, -, hca⟩ := h.plain ha
  obtain ⟨keyColumns, metricColumns, ss, hkc, hmc, hss, hcolumns, hqualified⟩ :=
    h.qualified_aggregate ha hw hg hshaped
  obtain ⟨gs, hgs, hgs', hgroup⟩ :=
    exists_groups db hM hkc hkrow (f.select.selected M (f.source M db))
  have hkeyLevel : ∀ n ∈ keys, n.expr.containsAggregate = false ∧ n.expr.containsWindow = false :=
    fun n hn => Expr.isRowLevel_eq_true.mp (hkrow n hn)
  have hkeyw := Fragment.windows_columns hkc (fun n hn => (hkeyLevel n hn).2) hcw
  have hkeya := Fragment.aggregates_columns hkc
    (fun n hn => ⟨(hkout n hn).1, (hkeyLevel n hn).1⟩) hca
  obtain ⟨hsource, hdist, hproj⟩ : g.source M db = f.source M db ∧ g.select.distinct = false ∧
      g.select.projection ≠ none := by
    obtain ⟨_, _, _, _, _, -, -, -, rfl⟩ := Fragment.aggregate_eq_ok hg
    exact ⟨rfl, hd, by simp⟩
  refine ⟨hshaped, ?_, ?_, fun hp => absurd hp hproj⟩
  · rw [hcolumns, List.map_append, Fragment.names_of_columnOf hkc, Fragment.names_of_columnOf hmc]
    simp [schema, header, Schema.names]
  -- a group gets through HAVING if the conditions hold for the group of its values
  have hconds : ∀ G ∈ gs, M.allHold ((f.source M db).value M 0 (.ofGroup G)) ss =
      M.allHold (fun e => e.eval M (M.look input.header) 0 (f.groupOf M db G)) having := by
    intro G hG
    apply allHold_conditions hss (fun _ _ => rfl)
    intro c hcm p hp s hs
    obtain ⟨hmade, -, hwin⟩ := hhave c hcm
    have hpart := Expr.mem_parts_of_mem_conjuncts hp
    exact value_group hcw hca (hgroup G hG) hM hkc hs (hmade.part hpart)
      (Expr.containsWindow_of_part hpart hwin)
      (fun ref hr => hb c hcm ref (Expr.mem_bareColumns_of_mem_conjuncts hp hr)) 0
  have hkept : gs.filter (fun G => M.allHold
        (fun e => e.eval M (M.look input.header) 0 (f.groupOf M db G)) having) =
      gs.filter fun G => M.allHold ((f.source M db).value M 0 (.ofGroup G)) ss :=
    Multiset.filter_congr fun G hG => by rw [hconds G hG]
  rw [if_neg (by simp [hdist]), hqualified, Relation.bag, h.rows_of_selected ha hw hd]
  simp only [hgs, hgs', Multiset.filter_map, Multiset.map_map]
  refine (congrArg (Multiset.map _) hkept).trans (Multiset.map_congr rfl fun G hG => ?_)
  have hG := hgroup G (Multiset.mem_filter.mp hG).1
  rw [Function.comp_apply, Function.comp_apply, Fragment.values, Fragment.valuesIn, hsource,
    hcolumns, List.map_append, List.map_append]
  congr 1
  · exact (map_columns (w := fun e => e.eval M (M.look input.header) 0 (f.groupOf M db G)) hkc
      fun n hn s hs => value_group_key hG hM hkc hkeyw hkeya hn (hkrow n hn) hs 0).symm
  · exact (map_columns (w := fun e => e.eval M (M.look input.header) 0 (f.groupOf M db G)) hmc
      fun n hn s hs => value_group hcw hca hG hM hkc hs (hmout n hn).1 (hmet n hn).2.1
        (hmet n hn).2.2 0).symm

end Operators

end Relation

end PlanSql
