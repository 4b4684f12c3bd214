import PlanSql.Proofs.Fragment.Clauses
import PlanSql.Proofs.Semantics.Lowering
import PlanSql.Proofs.Semantics.Rows

/-!
# Values of columns

What the columns of a fragment are worth in the clauses of its SELECT, and what becomes of the
values of outputs and conditions over them. Where a fragment shows a source as it is, the columns
have the values of its rows.
-/
namespace PlanSql

variable {V R : Type} [DecidableEq V]

namespace Fragment

/-- The values of the columns, given what the source is. -/
def valuesIn (M : Meaning V) (f : Fragment) (source : Sql.Yield R)
    (frame : Multiset (Focus (List V))) (x : Focus (List V)) : List V :=
  f.columns.map fun c => source.value M frame x c.expr

variable {M : Meaning V} {d : Dialect} {f : Fragment} {source : Sql.Yield R}
  {frame frame' : Multiset (Focus (List V))} {x x' : Focus (List V)}

/-- A column of a node has the value of its definition. -/
theorem value_column {header : Header} {ref : ColumnRef} {s : Sql.Expr}
    (hs : (f.scope header).column ref = .ok s) :
    source.value M frame x s = M.look header ref (f.valuesIn M source frame x) := by
  obtain ⟨i, c, hl, hc, rfl⟩ := Scope.columns_eq_ok hs
  rw [Meaning.look, hl]
  exact (M.cell_eq_of_getElem? (by simp [valuesIn, hc, Sql.Yield.value])).symm

theorem agrees (f : Fragment) (header : Header) (e : Expr) :
    e.Agrees M (f.scope header) (M.look header) (M.lookLabel source.labels) frame x
      (f.valuesIn M source frame x) :=
  fun _ _ _ hs => value_column hs

/-- The SQL of a row-level expression has the value of the expression at the values of the
columns. -/
theorem value_lower (hM : M.Keeps d) {header : Header} {e : Expr} {s : Sql.Expr}
    (hs : e.lower (Target.builtin d) (f.scope header) = .ok s) (hr : e.isRowLevel = true)
    (frame frame' : Multiset (Focus (List V))) (x : Focus (List V)) :
    source.value M frame x s =
      e.eval M (M.look header) frame' (.single (f.valuesIn M source frame x)) :=
  Expr.eval_lower_row hM hs hr (f.agrees header e)

theorem valuesIn_congr (hw : ∀ c ∈ f.columns, c.expr.windows = false) (hrow : x.row = x'.row)
    (hg : (∀ c ∈ f.columns, c.expr.aggregates = false) ∨ x.group = x'.group) :
    f.valuesIn M source frame x = f.valuesIn M source frame' x' :=
  List.map_congr_left fun c hc =>
    Sql.Expr.eval_congr (hw c hc) hrow (hg.imp_left fun ha => ha c hc)

/-- Columns that go by the names of a source have the values of its rows. -/
theorem valuesIn_of_names {names : List String} (hd : names.Nodup) {itemAlias : String}
    (hl : source.labels = Sql.Label.list itemAlias names)
    (hc : f.columns.map (·.expr) = names.map fun name => .column none name) {row : List V}
    (hrow : row.length = names.length) : f.valuesIn M source frame (.single row) = row := by
  have hmap := congrArg (List.map fun e => source.value M frame (.single row) e) hc
  rw [List.map_map, List.map_map] at hmap
  refine hmap.trans ?_
  rw [show source = ⟨source.labels, source.rows⟩ from rfl, hl]
  exact M.map_lookLabel_list itemAlias hd (.inl rfl) hrow

theorem exprs_wrapped (f : Fragment) {names : List String} (hn : f.columns.map (·.name) = names)
    (itemAlias : String) :
    (f.wrapped itemAlias).columns.map (·.expr) = names.map fun name => .column none name := by
  rw [← hn]
  simp [wrapped, ofSource, OutputColumn.under]

theorem exprs_ofTable (name : String) (aliasName : Option String) (fields : Schema) :
    (ofTable name aliasName fields).columns.map (·.expr) =
      fields.names.map fun name => .column none name := by
  simp [ofTable, ofSource, Schema.names]

omit [DecidableEq V] in
theorem output_named (f : Fragment) (row : List V) (value : Sql.Expr → V) :
    f.named.output row value = f.select.output row value := by
  unfold named
  cases hp : f.select.projection with
  | none => simp [Sql.SelectOver.output, hp]
  | some items =>
    have hmap := congrArg (List.map value) (namedItems_exprs items f.columns)
    simpa [Sql.SelectOver.output, hp, Function.comp_def] using hmap

/-- As a derived table the statement has the names of the columns. -/
theorem labels_named
    (hs : ∀ items, f.select.projection = some items → List.Forall₂ Shows items f.columns)
    {names : List String} (hn : f.columns.map (·.name) = names)
    {labels : List Sql.Label}
    (hl : f.select.projection = none → labels.map (·.2) = names.map some) (itemAlias : String) :
    f.named.labels itemAlias labels = Sql.Label.list itemAlias names := by
  unfold named Sql.SelectOver.labels
  cases hp : f.select.projection with
  | none =>
    have hmap := congrArg (List.map fun name : Option String => (some itemAlias, name)) (hl hp)
    simpa [Sql.Label.list, Function.comp_def] using hmap
  | some items =>
    have hmap := congrArg (List.map fun name : Option String => (some itemAlias, name))
      (namedItems_names (hs items hp)).2
    rw [← hn]
    simpa [Sql.Label.list, Function.comp_def] using hmap

end Fragment

section Lowered

variable {M : Meaning V} {t : Target} {scope : Scope} {v : Sql.Expr → V} {w : Expr → V}

omit [DecidableEq V] in
/-- The values of the columns that outputs make are those of the outputs. -/
theorem map_columns {exprs : List NamedExpr} {columns : List OutputColumn}
    (h : List.Forall₂ (Fragment.ColumnOf t scope) exprs columns)
    (hv : ∀ n ∈ exprs, ∀ s, n.expr.lower t scope = .ok s → v s = w n.expr) :
    columns.map (fun c => v c.expr) = exprs.map fun n => w n.expr := by
  induction h with
  | nil => rfl
  | @cons n c exprs columns hc _ ih =>
    obtain ⟨hn, hrest⟩ := List.forall_mem_cons.mp hv
    rw [List.map_cons, List.map_cons, hn c.expr hc.1, ih hrest]

omit [DecidableEq V] in
theorem allHold_conjuncts (hand : ∀ l r, w (.binary .and l r) = M.and (w l) (w r))
    (c : Expr) : M.allHold w c.conjuncts = M.holds (w c) := by
  fun_induction Expr.conjuncts c with
  | case1 l r ihl ihr => rw [Meaning.allHold_append, ihl, ihr, hand, Domain.holds_and]
  | case2 e he => simp [Meaning.allHold]

omit [DecidableEq V] in
theorem allHold_lowered {ps : List Expr} {ss : List Sql.Expr}
    (h : List.Forall₂ (fun e s => e.lower t scope = .ok s) ps ss)
    (hv : ∀ p ∈ ps, ∀ s, p.lower t scope = .ok s → v s = w p) :
    M.allHold v ss = M.allHold w ps := by
  induction h with
  | nil => rfl
  | @cons p s ps ss hs _ ih =>
    obtain ⟨hp, hrest⟩ := List.forall_mem_cons.mp hv
    have ih := ih hrest
    simp only [Meaning.allHold, List.all_cons, hp s hs] at ih ⊢
    rw [ih]

omit [DecidableEq V] in
/-- The conjuncts of conditions hold where the conditions do. -/
theorem allHold_conditions {cs : List Expr} {ss : List Sql.Expr}
    (h : Fragment.conditions t scope cs = .ok ss)
    (hand : ∀ l r, w (.binary .and l r) = M.and (w l) (w r))
    (hv : ∀ c ∈ cs, ∀ p ∈ c.conjuncts, ∀ s, p.lower t scope = .ok s → v s = w p) :
    M.allHold v ss = M.allHold w cs := by
  have hconj : M.allHold w (cs.flatMap Expr.conjuncts) = M.allHold w cs := by
    clear h hv
    induction cs with
    | nil => rfl
    | cons c cs ih =>
      rw [List.flatMap_cons, Meaning.allHold_append, allHold_conjuncts hand, ih]
      rfl
  rw [← hconj]
  apply allHold_lowered (Fragment.conditions_eq_ok.mp h)
  intro p hp
  obtain ⟨c, hc, hpc⟩ := List.mem_flatMap.mp hp
  exact hv c hc p hpc

end Lowered

end PlanSql
