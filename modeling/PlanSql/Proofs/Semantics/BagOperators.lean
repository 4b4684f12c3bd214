import PlanSql.Proofs.Semantics.BagColumns

/-!
# Operators that become part of a SELECT

At every stage of a statement's construction its rows are those of the node it stands for, and the
definitions of its columns have the values of the node's rows at the rows or groups that the
statement shows. What an operator adds is evaluated in the clause it is put into; the flags of the
fragment see to it that this clause still sees the columns as they were.
-/
namespace PlanSql

variable {V : Type} [DecidableEq V]

namespace Relation

/-- A fragment stands for a node: its columns are the node's, and their values at the rows and
groups that get through all clauses are the node's rows. -/
structure Means (M : Meaning V) (db : Database V) (r : Relation) (f : Fragment) : Prop
    extends f.Shaped where
  names : f.columns.map (·.name) = r.schema.names
  rows : r.bag M db =
    let outputs := (f.qualified M db).map (f.values M db (f.shown M db))
    if f.select.distinct then outputs.dedup else outputs
  /-- Without a projection the columns are those of the source. -/
  passes : f.select.projection = none →
    (f.source M db).labels.map (·.2) = r.schema.names.map some ∧
    ∀ row ∈ (f.source M db).rows, f.values M db 0 (.single row) = row

section Operators

variable {M : Meaning V} {db : Database V} {d : Dialect} {id : NodeId} {input : Relation}
  {f g : Fragment}

theorem Means.rows_of_not_distinct {r : Relation} (h : Means M db r f)
    (hd : f.select.distinct = false) : r.bag M db =
      (f.qualified M db).map (f.values M db (f.shown M db)) := by
  rw [h.rows]
  simp [hd]

theorem Means.project (hM : M.Keeps d) (h : Means M db input f) {exprs : List NamedExpr}
    (hc : (Relation.project id input exprs).Checked)
    (hw : ∀ n ∈ exprs, n.expr.containsWindow = false) (ha : f.aggregated = false)
    (hd : f.select.distinct = false)
    (hg : f.project (Target.builtin d) input.header exprs = .ok g) :
    Means M db (.project id input exprs) g := by
  obtain ⟨-, hout, hagg, -⟩ := hc
  have hshaped := h.toShaped.project (fun n hn => ⟨(hout n hn).1, hagg n hn⟩) hw ha hg
  obtain ⟨items, columns, ho, hgeq⟩ := Fragment.project_eq_ok hg
  obtain ⟨hcols, -⟩ := Fragment.outputs_eq_ok ho
  have hsame : f.SameUpToHaving g := by subst hgeq; exact ⟨rfl, rfl, rfl, rfl, rfl⟩
  have hcolumns : g.columns = columns := by rw [hgeq]
  have hqual : g.select.qualify = f.select.qualify := by rw [hgeq]
  have hdist : g.select.distinct = false := by rw [hgeq]; exact hd
  refine ⟨hshaped, ?_, ?_, by simp [hgeq]⟩
  · rw [hcolumns, Fragment.names_of_columnOf hcols]
    rfl
  · rw [Relation.bag, h.rows_of_not_distinct hd, if_neg (by simp [hdist]), Multiset.map_map,
      hsame.qualified_eq h.toShaped hshaped hqual, hsame.shown_eq h.toShaped hshaped]
    apply Multiset.map_congr rfl
    intro x _
    rw [Fragment.values, Fragment.valuesIn, Fragment.source_eq hsame.source, hcolumns,
      Function.comp_apply]
    refine (map_columns (w := fun e => e.eval M (M.look input.header) _ (.single _)) hcols
      fun n hn s hs => ?_).symm
    exact Fragment.value_lower hM hs ((hout n hn).1.isRowLevel_of_part (hagg n hn) (hw n hn)
      (Expr.mem_parts_self _)) _ _ x

/-- An operator that leaves the columns, the source and the projection alone has the rows to see
to. -/
theorem Means.of_same_columns {r : Relation} (h : Means M db input f) (hshaped : g.Shaped)
    (hcolumns : g.columns = f.columns) (hsource : g.select.source = f.select.source)
    (hproj : g.select.projection = f.select.projection) (hschema : r.schema = input.schema)
    (hrows : r.bag M db =
      let outputs := (g.qualified M db).map (g.values M db (g.shown M db))
      if g.select.distinct then outputs.dedup else outputs) : Means M db r g where
  toShaped := hshaped
  names := by rw [hcolumns, h.names, hschema]
  rows := hrows
  passes hp := by
    obtain ⟨hl, hv⟩ := h.passes (hproj.symm.trans hp)
    rw [Fragment.source_eq hsource, hschema]
    exact ⟨hl, fun row hrow => (Fragment.values_eq hsource hcolumns).trans (hv row hrow)⟩

/-- Filtered rows are those for which the conditions hold in some clause that sees the columns. -/
theorem Means.rows_filter (hM : M.Keeps d) (h : Means M db input f) {cs : List Expr}
    {ss : List Sql.Expr} (hc : (Relation.filter id input cs).Checked)
    (hw : ∀ c ∈ cs, c.containsWindow = false) (hd : f.select.distinct = false)
    (hss : Fragment.conditions (Target.builtin d) (f.scope input.header) cs = .ok ss)
    (frame : Multiset (Focus (List V)))
    (hq : g.qualified M db = (f.qualified M db).filter fun x =>
      M.allHold ((f.source M db).value M frame x) ss)
    (hf : ∀ x, f.values M db frame x = f.values M db (f.shown M db) x)
    (hg : ∀ x, g.values M db (g.shown M db) x = f.values M db (f.shown M db) x) :
    (Relation.filter id input cs).bag M db =
      (g.qualified M db).map (g.values M db (g.shown M db)) := by
  rw [Relation.bag, h.rows_of_not_distinct hd, Multiset.filter_map, hq]
  have hconds : ∀ x frame', M.allHold ((f.source M db).value M frame x) ss =
      M.allHold (Expr.eval M (M.look input.header) frame' ·
        (.single (f.values M db (f.shown M db) x))) cs := by
    intro x frame'
    apply allHold_conditions hss (fun _ _ => rfl)
    intro c hcm p hp s hs
    obtain ⟨hm, -, ha⟩ := hc c hcm
    rw [← hf x]
    exact Fragment.value_lower hM hs (hm.isRowLevel_of_part ha (hw c hcm)
      (Expr.mem_parts_of_mem_conjuncts hp)) _ _ x
  rw [Multiset.map_congr rfl fun x _ => hg x]
  refine congrArg _ (Multiset.filter_congr fun x _ => ?_)
  rw [hconds x, Function.comp_apply]

theorem Means.filter (hM : M.Keeps d) (h : Means M db input f) {cs : List Expr}
    (hc : (Relation.filter id input cs).Checked) (hw : ∀ c ∈ cs, c.containsWindow = false)
    (hd : f.select.distinct = false)
    (hg : f.filter (Target.builtin d) input.header cs = .ok g) :
    Means M db (.filter id input cs) g := by
  have hshaped := h.toShaped.filter (fun c hm => ⟨(hc c hm).1, (hc c hm).2.2⟩) hg
  obtain ⟨ss, hss, hg⟩ := Fragment.filter_eq_ok hg
  have hdist : g.select.distinct = false := by
    rcases hg with ⟨-, rfl⟩ | ⟨-, -, rfl⟩ | ⟨-, -, rfl⟩ <;> exact hd
  have hcolumns : g.columns = f.columns := by
    rcases hg with ⟨-, rfl⟩ | ⟨-, -, rfl⟩ | ⟨-, -, rfl⟩ <;> rfl
  have hsource : g.select.source = f.select.source := by
    rcases hg with ⟨-, rfl⟩ | ⟨-, -, rfl⟩ | ⟨-, -, rfl⟩ <;> rfl
  have hproj : g.select.projection = f.select.projection := by
    rcases hg with ⟨-, rfl⟩ | ⟨-, -, rfl⟩ | ⟨-, -, rfl⟩ <;> rfl
  have hvalues : ∀ frame x, g.values M db frame x = f.values M db frame x := fun _ _ =>
    Fragment.values_eq hsource hcolumns
  refine h.of_same_columns hshaped hcolumns hsource hproj rfl ?_
  rw [if_neg (by simp [hdist])]
  rcases hg with ⟨ha, hgeq⟩ | ⟨ha, hwin, hgeq⟩ | ⟨ha, hwin, hgeq⟩
  · -- fewer groups get through HAVING, and nothing in the columns looks at the others
    obtain ⟨hqual, hcw⟩ := h.unwindowed (h.grouped ha).1
    refine h.rows_filter hM hc hw hd hss 0 ?_ (fun x => ?_) fun x => ?_
    · have hgrouped : g.select.isGrouped = f.select.isGrouped := by
        rw [hshaped.isGrouped, h.isGrouped, hgeq]
      unfold Fragment.qualified
      rw [Fragment.source_eq hsource, Sql.SelectOver.qualified_of_nil hqual,
        Sql.SelectOver.qualified_of_nil (by rw [hgeq]; exact hqual)]
      exact Sql.SelectOver.shown_append (by rw [hgeq]) (by rw [hgeq]) hgrouped (by rw [hgeq])
    · exact Fragment.valuesIn_congr hcw rfl (.inr rfl)
    · rw [hvalues]
      exact Fragment.valuesIn_congr hcw rfl (.inr rfl)
  · -- windows range over the rows before QUALIFY, which stay the same
    have hsame : f.SameUpToHaving g := by
      subst hgeq
      exact ⟨rfl, rfl, rfl, rfl, rfl⟩
    have hshown : g.shown M db = f.shown M db := hsame.shown_eq h.toShaped hshaped
    refine h.rows_filter hM hc hw hd hss (f.shown M db) ?_ (fun _ => rfl) fun x => ?_
    · unfold Fragment.shown at hshown
      unfold Fragment.qualified
      rw [Fragment.source_eq hsource] at hshown ⊢
      exact Sql.SelectOver.qualified_append hshown (by rw [hgeq])
    · rw [hvalues, hshown]
  · obtain ⟨hqual, hcw⟩ := h.unwindowed hwin
    obtain ⟨-, hhaving, -, -⟩ := h.plain ha
    refine h.rows_filter hM hc hw hd hss 0 ?_ (fun x => ?_) fun x => ?_
    · unfold Fragment.qualified
      rw [Fragment.source_eq hsource, Sql.SelectOver.qualified_of_nil hqual,
        Sql.SelectOver.qualified_of_nil (by rw [hgeq]; exact hqual),
        Sql.SelectOver.shown_of_not_grouped (h.isGrouped.trans ha) hhaving,
        Sql.SelectOver.shown_of_not_grouped (hshaped.isGrouped.trans (by rw [hgeq]; exact ha))
          (by rw [hgeq]; exact hhaving),
        Sql.SelectOver.selected_append (by rw [hgeq]), Multiset.filter_map]
      rfl
    · exact Fragment.valuesIn_congr hcw rfl (.inr rfl)
    · rw [hvalues]
      exact Fragment.valuesIn_congr hcw rfl (.inr rfl)

theorem Means.sort (h : Means M db input f) {keys : List (SortKey Expr)}
    (hc : (Relation.sort id input keys).Checked)
    (hg : f.sort (Target.builtin d) input.header keys = .ok g) :
    Means M db (.sort id input keys) g := by
  have hshaped := h.toShaped.sort (fun k hk => ⟨(hc k hk).1, (hc k hk).2.2⟩) hg
  obtain ⟨ss, -, hgeq⟩ := Fragment.sort_eq_ok hg
  have hsame : f.SameUpToHaving g := by
    subst hgeq
    exact ⟨rfl, rfl, rfl, rfl, rfl⟩
  have hcolumns : g.columns = f.columns := by rw [hgeq]
  have hdist : g.select.distinct = f.select.distinct := by rw [hgeq]
  refine h.of_same_columns hshaped hcolumns hsame.source (by rw [hgeq]) rfl ?_
  rw [Relation.bag, h.rows, hdist,
    hsame.outputs_eq h.toShaped hshaped (by rw [hgeq]) hcolumns]

theorem Means.distinct (h : Means M db input f) : Means M db (.distinct id input) f.distinct := by
  have hshaped := h.toShaped.distinct
  have hsame : f.SameUpToHaving f.distinct := ⟨rfl, rfl, rfl, rfl, rfl⟩
  refine h.of_same_columns hshaped rfl rfl rfl rfl ?_
  rw [Relation.bag, h.rows, if_pos (show f.distinct.select.distinct = true from rfl),
    hsame.outputs_eq h.toShaped hshaped rfl rfl]
  cases f.select.distinct with
  | true => simp
  | false => simp

theorem Means.window (hM : M.Keeps d) (h : Means M db input f) {exprs : List NamedExpr}
    (hc : (Relation.window id input exprs).Checked) (ha : f.aggregated = false)
    (hw : f.windowed = false) (hd : f.select.distinct = false)
    (hg : f.window (Target.builtin d) input.header exprs = .ok g) :
    Means M db (.window id input exprs) g := by
  obtain ⟨hout, hwin, -⟩ := hc
  have hshaped := h.toShaped.window (fun n hn => ⟨(hout n hn).1, (hwin n hn).2⟩) ha hg
  obtain ⟨items, columns, ho, hgeq⟩ := Fragment.window_eq_ok hg
  obtain ⟨hcols, -⟩ := Fragment.outputs_eq_ok ho
  have hsame : f.SameUpToHaving g := by
    subst hgeq
    exact ⟨rfl, rfl, rfl, rfl, rfl⟩
  have hcolumns : g.columns = f.columns ++ columns := by rw [hgeq]
  have hqual : g.select.qualify = f.select.qualify := by rw [hgeq]
  have hdist : g.select.distinct = false := by
    rw [hgeq]
    exact hd
  have hshown : f.qualified M db = f.shown M db :=
    Sql.SelectOver.qualified_of_nil (h.unwindowed hw).1
  refine ⟨hshaped, ?_, ?_, by simp [hgeq]⟩
  · rw [hcolumns, List.map_append, h.names, Fragment.names_of_columnOf hcols]
    simp [schema, header, Schema.names]
  · rw [Relation.bag, h.rows_of_not_distinct hd, if_neg (by simp [hdist]), Multiset.map_map,
      hsame.qualified_eq h.toShaped hshaped hqual, hsame.shown_eq h.toShaped hshaped, hshown]
    apply Multiset.map_congr rfl
    intro x _
    rw [Function.comp_apply]
    unfold Fragment.values Fragment.valuesIn
    rw [Fragment.source_eq hsame.source, hcolumns, List.map_append]
    refine congrArg _ (map_columns (w := fun e => e.eval M (M.look input.header) _ (.single _))
      hcols fun n hn s hs => ?_).symm
    -- both sides range over what the statement shows
    exact Expr.eval_lower_frame hM hs (hout n hn).1 (hwin n hn).2 (Multiset.map_map _ _ _)
      (fun y _ => f.agrees input.header n.expr) (f.agrees input.header n.expr)

end Operators

end Relation

end PlanSql
