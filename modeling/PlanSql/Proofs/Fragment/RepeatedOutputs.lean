import PlanSql.Proofs.Fragment.ColumnDefinitions
import PlanSql.Proofs.Fragment.Tracing
import PlanSql.Proofs.Relation.References

/-!
# Expressions that repeat an output

The columns of a SELECT are made by one of its operators, each of them of an expression over what that
operator works on. An expression over these columns is one over what the operator works on as well,
once each column in it is replaced by what it is made of. If it then is an output of the operator, it
has the SQL of a column.
-/
namespace PlanSql

namespace Relation

/-- The position of the first column that the operator at the root makes; those before it are passed
on. -/
def firstOutput (m : Relation) : Nat := m.header.fields.length - m.outputs.length

/-- What the operator at the root makes the column of that a reference denotes; a column that is
passed on stays. -/
def defines (m : Relation) (ref : ColumnRef) (type : DataType) : Expr :=
  match m.header.lookup ref with
  | .found i =>
    if i < m.firstOutput then .column ref type
    else ((m.outputs[i - m.firstOutput]?).map (·.expr)).getD (.column ref type)
  | _ => .column ref type

/-- With its columns replaced by what the SELECT makes them of, the expression is an output. -/
def Repeats (t : Target) (r : Relation) (e : Expr) : Prop :=
  ∃ m, (r.shared t).find? makesColumns = some m ∧ e.KeepsTypes m.defines ∧
    e.substitute m.defines ∈ m.outputs.map (·.expr)

variable {t : Target} {d : Dialect} {r m input : Relation} {f f' g : Fragment}

theorem header_of_input (hin : r.inputs = [input]) (hm : r.makesColumns = false) :
    r.header = input.header := by
  cases r <;> simp_all [inputs, makesColumns, header]

/-- The columns of a fragment are those that the operator which makes them made. -/
theorem Becomes.maker {n : NamedExpr} (h : Becomes (Target.builtin d) r f) (hw : r.WellFormed)
    (hm : (r.shared (Target.builtin d)).find? makesColumns = some m) (hn : n ∈ m.outputs) :
    ∃ i f' g, m.inputs = [i] ∧ m.header = r.header ∧ Grounded i f' ∧
      m.operate (Target.builtin d) f' = .ok g ∧ g.columns = f.columns := by
  induction h with
  | table => simp [shared, makesColumns] at hm
  | join =>
    obtain rfl := by simpa [shared, makesColumns] using hm
    simp [outputs] at hn
  | @step r i f f' g hin hf he hg ih =>
    have hwi := hw.input (i := i) (by simp [hin])
    rw [shared_of_input hin, List.find?_cons] at hm
    cases hmakes : r.makesColumns with
    | true =>
      obtain rfl : r = m := by simpa [hmakes] using hm
      exact ⟨i, f', g, hin, rfl, hf.grounded_entered hwi he, hg, rfl⟩
    | false =>
      simp only [hmakes] at hm
      rcases hf.enters hwi hin he with ⟨hs, rfl⟩ | ⟨hs, -⟩
      · obtain ⟨k, f₀, g₀, hk, hheader, hgrounded, hg₀, hcols⟩ := ih hwi (by simpa [hs] using hm)
        refine ⟨k, f₀, g₀, hk, hheader.trans (header_of_input hin hmakes).symm, hgrounded, hg₀, ?_⟩
        rw [hcols, (columns_operate hmakes hg).1]
      · simp [hs] at hm

/-- A column is passed on, or it has the SQL of the output it is made of. -/
theorem columns_made (hin : m.inputs = [input]) (hn : m.outputs ≠ [])
    (hlen : f.columns.length = input.header.fields.length) (hg : m.operate t f = .ok g) :
    ∃ passed made, g.columns = passed ++ made ∧ passed.length = m.firstOutput ∧
      List.Forall₂ (Fragment.ColumnOf t (f.scope input.header)) m.outputs made ∧
      (passed = [] ∨ passed = f.columns ∧ input.header.Heads m.header) := by
  cases m with
  | table | filter | sort | limit | join | distinct => simp [outputs] at hn
  | project id i exprs =>
    obtain rfl := List.singleton_inj.mp hin
    obtain ⟨items, columns, ho, rfl⟩ := Fragment.project_eq_ok hg
    exact ⟨[], columns, rfl, by simp [firstOutput, outputs, header, Header.make],
      (Fragment.outputs_eq_ok ho).1, .inl rfl⟩
  | aggregate id i keys metrics having =>
    obtain rfl := List.singleton_inj.mp hin
    obtain ⟨_, _, _, _, _, hk, hm, -, rfl⟩ := Fragment.aggregate_eq_ok hg
    exact ⟨[], _, rfl, by simp [firstOutput, outputs, header, Header.make],
      List.rel_append (Fragment.outputs_eq_ok hk).1 (Fragment.outputs_eq_ok hm).1, .inl rfl⟩
  | window id i exprs =>
    obtain rfl := List.singleton_inj.mp hin
    obtain ⟨items, columns, ho, rfl⟩ := Fragment.window_eq_ok hg
    exact ⟨f.columns, columns, rfl, by simp [firstOutput, outputs, header, Header.make, hlen],
      (Fragment.outputs_eq_ok ho).1, .inr ⟨rfl, heads_window id i exprs⟩⟩

/-- A column stands for the SQL of what it is made of. -/
theorem agree_column_defines {ref : ColumnRef} {u : DataType} {i : Nat} (hin : m.inputs = [input])
    (hn : m.outputs ≠ []) (hf : f.columns.length = input.header.fields.length)
    (hg : m.operate t f = .ok g) (hgl : g.columns.length = m.header.fields.length)
    (hl : m.header.lookup ref = .found i) :
    Agree Eq ((g.scope m.header).column ref) ((m.defines ref u).lower t (f.scope input.header)) := by
  obtain ⟨passed, made, hcols, hlen, hmade, hpassed⟩ := columns_made hin hn hf hg
  have hi : i < g.columns.length := hgl ▸ (aligned_header m).lt_of_found hl
  have hcolumn : ∀ {f : Fragment} {header : Header} {c : OutputColumn},
      header.lookup ref = .found i → f.columns[i]? = some c →
      (f.scope header).column ref = .ok c.expr := fun hl hc => by
    simp [Fragment.scope, Scope.column, Header.resolve_eq_ok.mpr hl, pickColumn, hc]
  obtain ⟨c, hc⟩ : ∃ c, g.columns[i]? = some c := ⟨_, List.getElem?_eq_getElem hi⟩
  rw [hcolumn hl hc, defines, hl]
  rw [hcols] at hc
  by_cases hlt : i < m.firstOutput
  · rw [List.getElem?_append_left (by omega)] at hc
    rcases hpassed with rfl | ⟨rfl, hheads⟩
    · simp at hc
    have hli := hheads.lookup_of_lt (aligned_header input) hl (by omega)
    simp only [if_pos hlt, Expr.lower, hcolumn hli hc]
    exact agree_ok.mpr rfl
  · rw [List.getElem?_append_right (by omega), hlen] at hc
    obtain ⟨n, hn, hlower, -⟩ := forall₂_getElem? hmade.flip hc
    simp only [if_neg hlt, hn, Option.map_some, Option.getD_some, hlower]
    exact agree_ok.mpr rfl

/-- An expression that repeats an output has the SQL of a column. -/
theorem Becomes.mem_columns_of_repeats {e : Expr} {s : Sql.Expr}
    (h : Becomes (Target.builtin d) r f) (hw : r.WellFormed) (hb : r.header.Binds e)
    (he : r.Repeats (Target.builtin d) e)
    (hs : e.lower (Target.builtin d) (f.scope r.header) = .ok s) :
    s ∈ f.columns.map (·.expr) := by
  obtain ⟨m, hm, hσ, hout⟩ := he
  obtain ⟨n, hn, hne⟩ := List.mem_map.mp hout
  obtain ⟨i, f', g, hin, hheader, hgrounded, hg, hcols⟩ := h.maker hw hm hn
  have hnil : m.outputs ≠ [] := List.ne_nil_of_mem hn
  have hgl : g.columns.length = m.header.fields.length := by
    rw [hcols, hheader]
    exact (h.grounded hw).length
  -- the expression has the SQL of the output
  have hagree : Agree Eq (e.lower (Target.builtin d) (g.scope m.header))
      ((e.substitute m.defines).lower (Target.builtin d) (f'.scope i.header)) := by
    refine Expr.agree_lower_substitute hσ fun ref u hu => ?_
    obtain ⟨l, hl⟩ := hb ref (Expr.mem_columnRefs.mpr ⟨u, hu⟩)
    exact agree_column_defines hin hnil hgrounded.length hg hgl (hheader ▸ hl)
  have hscope : g.scope m.header = f.scope r.header := by
    simp [Fragment.scope, hcols, hheader]
  rw [hscope, hs, ← hne] at hagree
  obtain ⟨s', hs', rfl⟩ := hagree
  obtain ⟨passed, made, hmade, -, hof, -⟩ := columns_made hin hnil hgrounded.length hg
  obtain ⟨c, hc, hlower, -⟩ := forall₂_mem_left hof hn
  obtain rfl : c.expr = s := Except.ok.inj (hlower.symm.trans hs')
  rw [← hcols, hmade]
  exact List.mem_map_of_mem (List.mem_append_right _ hc)

end Relation

end PlanSql
