import PlanSql.Proofs.Fragment.Clauses
import PlanSql.Proofs.Fragment.Induction

/-!
# What an operator adds to a SELECT

Each clause of a SELECT is as it was before an operator became part of it, or it has got something
that only one kind of operator puts there.
-/
namespace PlanSql

namespace Relation

/-- The operator at the root makes columns of its own. -/
def makesColumns : Relation → Bool
  | .project _ _ _ | .aggregate _ _ _ _ _ | .window _ _ _ | .join _ _ _ _ _ => true
  | .table _ _ _ _ | .filter _ _ _ | .sort _ _ _ | .limit _ _ _ _ | .distinct _ _ => false

variable {t : Target} {r input : Relation} {f g : Fragment}

theorem source_operate (hg : r.operate t f = .ok g) : g.select.source = f.select.source := by
  cases r with
  | table | join | limit | distinct =>
    obtain rfl := Except.ok.inj hg
    rfl
  | project =>
    obtain ⟨_, _, -, rfl⟩ := Fragment.project_eq_ok hg
    rfl
  | filter =>
    obtain ⟨_, -, ⟨-, rfl⟩ | ⟨-, -, rfl⟩ | ⟨-, -, rfl⟩⟩ := Fragment.filter_eq_ok hg <;> rfl
  | aggregate =>
    obtain ⟨_, _, _, _, _, -, -, -, rfl⟩ := Fragment.aggregate_eq_ok hg
    rfl
  | sort =>
    obtain ⟨_, -, rfl⟩ := Fragment.sort_eq_ok hg
    rfl
  | window =>
    obtain ⟨_, _, -, rfl⟩ := Fragment.window_eq_ok hg
    rfl

theorem columns_operate (hm : r.makesColumns = false) (hg : r.operate t f = .ok g) :
    g.columns = f.columns ∧ g.select.projection = f.select.projection := by
  cases r with
  | project | aggregate | window | join => simp [makesColumns] at hm
  | table | limit | distinct =>
    obtain rfl := Except.ok.inj hg
    exact ⟨rfl, rfl⟩
  | filter =>
    obtain ⟨_, -, ⟨-, rfl⟩ | ⟨-, -, rfl⟩ | ⟨-, -, rfl⟩⟩ := Fragment.filter_eq_ok hg <;>
      exact ⟨rfl, rfl⟩
  | sort =>
    obtain ⟨_, -, rfl⟩ := Fragment.sort_eq_ok hg
    exact ⟨rfl, rfl⟩

theorem projection_operate (hin : r.inputs = [input]) (hm : r.makesColumns = true)
    (hg : r.operate t f = .ok g) : g.select.projection ≠ none := by
  cases r with
  | table | filter | sort | limit | distinct => simp [makesColumns] at hm
  | join => simp [inputs] at hin
  | project =>
    obtain ⟨_, _, -, rfl⟩ := Fragment.project_eq_ok hg
    simp
  | aggregate =>
    obtain ⟨_, _, _, _, _, -, -, -, rfl⟩ := Fragment.aggregate_eq_ok hg
    simp
  | window =>
    obtain ⟨_, _, -, rfl⟩ := Fragment.window_eq_ok hg
    simp

/-- The expressions and columns of a SELECT are those that it had before an operator and what the
operator's expressions, or conjuncts of them, become. -/
theorem forall_expressions_operate {P : Sql.Expr → Prop} (hin : r.inputs = [input])
    (hg : r.operate t f = .ok g) (hc : ∀ c ∈ f.columns, P c.expr)
    (he : ∀ e ∈ f.select.expressions, P e)
    (hnew : ∀ c ∈ r.exprs, ∀ p ∈ c.kept, ∀ s, p.lower t (f.scope input.header) = .ok s → P s) :
    (∀ c ∈ g.columns, P c.expr) ∧ ∀ e ∈ g.select.expressions, P e := by
  obtain ⟨hpe, hse, hge, hhe, hqe, hoe⟩ := Sql.SelectOver.forall_mem_expressions.mp he
  have houtputs : ∀ {exprs : List NamedExpr} {b : Bool} {items : List Sql.SelectItem}
      {columns : List OutputColumn}, (∀ n ∈ exprs, n.expr ∈ r.exprs) →
      Fragment.outputs t (f.scope input.header) b exprs = .ok (items, columns) →
      (∀ item ∈ items, P item.expr) ∧ ∀ c ∈ columns, P c.expr := by
    intro exprs b items columns hsub ho
    obtain ⟨hcols, hitems⟩ := Fragment.outputs_eq_ok ho
    have hall := Fragment.forall_columns hcols fun n hn =>
      hnew n.expr (hsub n hn) n.expr (Expr.mem_kept_self _)
    exact ⟨Fragment.forall_items hitems hall, hall⟩
  have hconditions : ∀ {cs : List Expr} {ss : List Sql.Expr}, (∀ c ∈ cs, c ∈ r.exprs) →
      Fragment.conditions t (f.scope input.header) cs = .ok ss → ∀ e ∈ ss, P e :=
    fun hsub hss => Fragment.forall_conditions hss fun c hc p hp =>
      hnew c (hsub c hc) p (Expr.mem_kept_of_mem_conjuncts hp)
  cases r with
  | table | join => simp [inputs] at hin
  | limit =>
    obtain rfl := Except.ok.inj hg
    exact ⟨hc, he⟩
  | distinct =>
    obtain rfl := Except.ok.inj hg
    exact ⟨hc, Sql.SelectOver.forall_mem_expressions.mpr ⟨hpe, hse, hge, hhe, hqe, fun k hk =>
      hoe k (f.orderBy_distinct_subset hk)⟩⟩
  | project id i exprs =>
    obtain rfl := List.singleton_inj.mp hin
    obtain ⟨items, columns, ho, rfl⟩ := Fragment.project_eq_ok hg
    obtain ⟨hi, hcols⟩ := houtputs (fun n hn => List.mem_map_of_mem hn) ho
    exact ⟨hcols, Sql.SelectOver.forall_mem_expressions.mpr ⟨hi, hse, hge, hhe, hqe, hoe⟩⟩
  | window id i exprs =>
    obtain rfl := List.singleton_inj.mp hin
    obtain ⟨items, columns, ho, rfl⟩ := Fragment.window_eq_ok hg
    obtain ⟨hi, hcols⟩ := houtputs (fun n hn => List.mem_map_of_mem hn) ho
    have hold : ∀ item ∈ f.items, P item.expr := by
      unfold Fragment.items
      cases hp : f.select.projection with
      | some items => simpa [hp] using hpe
      | none => exact List.forall_mem_map.mpr hc
    exact ⟨List.forall_mem_append.mpr ⟨hc, hcols⟩, Sql.SelectOver.forall_mem_expressions.mpr
      ⟨List.forall_mem_append.mpr ⟨hold, hi⟩, hse, hge, hhe, hqe, hoe⟩⟩
  | filter id i cs =>
    obtain rfl := List.singleton_inj.mp hin
    obtain ⟨ss, hss, hg⟩ := Fragment.filter_eq_ok hg
    have hadd := hconditions (fun c hc => hc) hss
    rcases hg with ⟨-, rfl⟩ | ⟨-, -, rfl⟩ | ⟨-, -, rfl⟩
    · exact ⟨hc, Sql.SelectOver.forall_mem_expressions.mpr
        ⟨hpe, hse, hge, List.forall_mem_append.mpr ⟨hhe, hadd⟩, hqe, hoe⟩⟩
    · exact ⟨hc, Sql.SelectOver.forall_mem_expressions.mpr
        ⟨hpe, hse, hge, hhe, List.forall_mem_append.mpr ⟨hqe, hadd⟩, hoe⟩⟩
    · exact ⟨hc, Sql.SelectOver.forall_mem_expressions.mpr
        ⟨hpe, List.forall_mem_append.mpr ⟨hse, hadd⟩, hge, hhe, hqe, hoe⟩⟩
  | aggregate id i keys metrics having =>
    obtain rfl := List.singleton_inj.mp hin
    obtain ⟨_, _, _, _, ss, hk, hm, hss, rfl⟩ := Fragment.aggregate_eq_ok hg
    obtain ⟨hki, hkc⟩ := houtputs (fun n hn => by simp [exprs, List.mem_map_of_mem hn]) hk
    obtain ⟨hmi, hmc⟩ := houtputs (fun n hn => by simp [exprs, List.mem_map_of_mem hn]) hm
    have hadd := hconditions (fun c hc => by simp [exprs, hc]) hss
    exact ⟨List.forall_mem_append.mpr ⟨hkc, hmc⟩, Sql.SelectOver.forall_mem_expressions.mpr
      ⟨List.forall_mem_append.mpr ⟨hki, hmi⟩, hse, List.forall_mem_map.mpr hki,
        List.forall_mem_append.mpr ⟨hhe, hadd⟩, hqe, by simp⟩⟩
  | sort id i keys =>
    obtain rfl := List.singleton_inj.mp hin
    obtain ⟨ss, hss, rfl⟩ := Fragment.sort_eq_ok hg
    have hadd := Fragment.forall_keys hss fun k hk =>
      hnew k.expr (List.mem_map_of_mem hk) k.expr (Expr.mem_kept_self _)
    exact ⟨hc, Sql.SelectOver.forall_mem_expressions.mpr
      ⟨hpe, hse, hge, hhe, hqe, List.forall_mem_append.mpr ⟨hadd, hoe⟩⟩⟩

/-- Rows become distinct by one operator only. -/
theorem distinct_operate (hg : r.operate t f = .ok g) (hd : g.select.distinct = true) :
    f.select.distinct = true ∨ ∃ id input, r = .distinct id input ∧ g = f.distinct := by
  cases r with
  | table | join | limit =>
    obtain rfl := Except.ok.inj hg
    exact .inl hd
  | distinct id input => exact .inr ⟨id, input, rfl, (Except.ok.inj hg).symm⟩
  | project =>
    obtain ⟨_, _, -, rfl⟩ := Fragment.project_eq_ok hg
    exact .inl hd
  | filter =>
    obtain ⟨_, -, ⟨-, rfl⟩ | ⟨-, -, rfl⟩ | ⟨-, -, rfl⟩⟩ := Fragment.filter_eq_ok hg <;> exact .inl hd
  | aggregate =>
    obtain ⟨_, _, _, _, _, -, -, -, rfl⟩ := Fragment.aggregate_eq_ok hg
    exact .inl hd
  | sort =>
    obtain ⟨_, -, rfl⟩ := Fragment.sort_eq_ok hg
    exact .inl hd
  | window =>
    obtain ⟨_, _, -, rfl⟩ := Fragment.window_eq_ok hg
    exact .inl hd

theorem groupBy_operate (hg : r.operate t f = .ok g) {e : Sql.Expr} (he : e ∈ g.select.groupBy) :
    e ∈ f.select.groupBy ∨ ∃ id input keys metrics having,
      r = .aggregate id input keys metrics having ∧
        ∃ n ∈ keys, n.expr.lower t (f.scope input.header) = .ok e := by
  cases r with
  | table | join | limit | distinct =>
    obtain rfl := Except.ok.inj hg
    exact .inl he
  | project =>
    obtain ⟨_, _, -, rfl⟩ := Fragment.project_eq_ok hg
    exact .inl he
  | filter =>
    obtain ⟨_, -, ⟨-, rfl⟩ | ⟨-, -, rfl⟩ | ⟨-, -, rfl⟩⟩ := Fragment.filter_eq_ok hg <;> exact .inl he
  | aggregate id input keys metrics having =>
    obtain ⟨_, _, _, _, _, hk, -, -, rfl⟩ := Fragment.aggregate_eq_ok hg
    obtain ⟨item, hitem, rfl⟩ := List.mem_map.mp he
    exact .inr ⟨id, input, keys, metrics, having, rfl,
      forall₂_mem_right (Fragment.outputs_items hk) hitem⟩
  | sort =>
    obtain ⟨_, -, rfl⟩ := Fragment.sort_eq_ok hg
    exact .inl he
  | window =>
    obtain ⟨_, _, -, rfl⟩ := Fragment.window_eq_ok hg
    exact .inl he

/-- No operator but a filter adds to QUALIFY. -/
theorem qualify_operate (hg : r.operate t f = .ok g) :
    g.select.qualify = f.select.qualify ∨
      ∃ id input cs ss, r = .filter id input cs ∧ f.aggregated = false ∧ f.windowed = true ∧
        Fragment.conditions t (f.scope input.header) cs = .ok ss ∧
        g = { f with select := { f.select with qualify := f.select.qualify ++ ss } } := by
  cases r with
  | table | join | limit | distinct =>
    obtain rfl := Except.ok.inj hg
    exact .inl rfl
  | project =>
    obtain ⟨_, _, -, rfl⟩ := Fragment.project_eq_ok hg
    exact .inl rfl
  | filter id i cs =>
    obtain ⟨ss, hss, ⟨-, rfl⟩ | ⟨ha, hw, rfl⟩ | ⟨-, -, rfl⟩⟩ := Fragment.filter_eq_ok hg
    · exact .inl rfl
    · exact .inr ⟨id, i, cs, ss, rfl, ha, hw, hss, rfl⟩
    · exact .inl rfl
  | aggregate =>
    obtain ⟨_, _, _, _, _, -, -, -, rfl⟩ := Fragment.aggregate_eq_ok hg
    exact .inl rfl
  | sort =>
    obtain ⟨_, -, rfl⟩ := Fragment.sort_eq_ok hg
    exact .inl rfl
  | window =>
    obtain ⟨_, _, -, rfl⟩ := Fragment.window_eq_ok hg
    exact .inl rfl

/-- No operator but a filter adds to WHERE, and it does so before grouping and windows. -/
theorem selection_operate (hg : r.operate t f = .ok g) :
    g.select.selection = f.select.selection ∨
      ∃ id input cs, r = .filter id input cs ∧ cs ≠ [] ∧ g.aggregated = false ∧
        g.windowed = false := by
  cases r with
  | table | join | limit | distinct =>
    obtain rfl := Except.ok.inj hg
    exact .inl rfl
  | project =>
    obtain ⟨_, _, -, rfl⟩ := Fragment.project_eq_ok hg
    exact .inl rfl
  | filter id i cs =>
    obtain ⟨ss, hss, ⟨-, rfl⟩ | ⟨-, -, rfl⟩ | ⟨ha, hw, rfl⟩⟩ := Fragment.filter_eq_ok hg
    · exact .inl rfl
    · exact .inl rfl
    · cases cs with
      | nil =>
        obtain rfl : ss = [] := by simpa [Fragment.conditions] using hss.symm
        exact .inl (List.append_nil _)
      | cons c cs => exact .inr ⟨id, i, _, rfl, List.cons_ne_nil _ _, ha, hw⟩
  | aggregate =>
    obtain ⟨_, _, _, _, _, -, -, -, rfl⟩ := Fragment.aggregate_eq_ok hg
    exact .inl rfl
  | sort =>
    obtain ⟨_, -, rfl⟩ := Fragment.sort_eq_ok hg
    exact .inl rfl
  | window =>
    obtain ⟨_, _, -, rfl⟩ := Fragment.window_eq_ok hg
    exact .inl rfl

/-- Which groups there are is changed by a grouping and by a filter of groups. -/
theorem groups_operate (hg : r.operate t f = .ok g) :
    g.aggregated = f.aggregated ∧ g.select.groupBy = f.select.groupBy ∧
        g.select.having = f.select.having ∨
      (∃ id input cs, r = .filter id input cs ∧ cs ≠ [] ∧ g.aggregated = true ∧
        f.aggregated = true) ∨
      (∃ id input keys metrics having, r = .aggregate id input keys metrics having) ∧
        g.aggregated = true := by
  cases r with
  | table | join | limit | distinct =>
    obtain rfl := Except.ok.inj hg
    exact .inl ⟨rfl, rfl, rfl⟩
  | project =>
    obtain ⟨_, _, -, rfl⟩ := Fragment.project_eq_ok hg
    exact .inl ⟨rfl, rfl, rfl⟩
  | filter id i cs =>
    obtain ⟨ss, hss, ⟨ha, rfl⟩ | ⟨-, -, rfl⟩ | ⟨-, -, rfl⟩⟩ := Fragment.filter_eq_ok hg
    · cases cs with
      | nil =>
        obtain rfl : ss = [] := by simpa [Fragment.conditions] using hss.symm
        exact .inl ⟨rfl, rfl, List.append_nil _⟩
      | cons c cs => exact .inr (.inl ⟨id, i, _, rfl, List.cons_ne_nil _ _, ha, ha⟩)
    · exact .inl ⟨rfl, rfl, rfl⟩
    · exact .inl ⟨rfl, rfl, rfl⟩
  | aggregate =>
    obtain ⟨_, _, _, _, _, -, -, -, rfl⟩ := Fragment.aggregate_eq_ok hg
    exact .inr (.inr ⟨⟨_, _, _, _, _, rfl⟩, rfl⟩)
  | sort =>
    obtain ⟨_, -, rfl⟩ := Fragment.sort_eq_ok hg
    exact .inl ⟨rfl, rfl, rfl⟩
  | window =>
    obtain ⟨_, _, -, rfl⟩ := Fragment.window_eq_ok hg
    exact .inl ⟨rfl, rfl, rfl⟩

theorem orderBy_operate (hg : r.operate t f = .ok g) {key : SortKey Sql.Expr}
    (hkey : key ∈ g.select.orderBy) :
    key ∈ f.select.orderBy ∨ ∃ id input keys, r = .sort id input keys ∧
      ∃ k ∈ keys, k.expr.lower t (f.scope input.header) = .ok key.expr := by
  cases r with
  | table | join | limit =>
    obtain rfl := Except.ok.inj hg
    exact .inl hkey
  | project =>
    obtain ⟨_, _, -, rfl⟩ := Fragment.project_eq_ok hg
    exact .inl hkey
  | filter =>
    obtain ⟨_, -, ⟨-, rfl⟩ | ⟨-, -, rfl⟩ | ⟨-, -, rfl⟩⟩ := Fragment.filter_eq_ok hg <;>
      exact .inl hkey
  | aggregate =>
    obtain ⟨_, _, _, _, _, -, -, -, rfl⟩ := Fragment.aggregate_eq_ok hg
    simp at hkey
  | sort id input keys =>
    obtain ⟨ss, hk, rfl⟩ := Fragment.sort_eq_ok hg
    rcases List.mem_append.mp hkey with hkey | hkey
    · obtain ⟨k, hm, hl, -⟩ := forall₂_mem_right (Expr.lowerKeys_eq_ok.mp hk) hkey
      exact .inr ⟨id, input, keys, rfl, k, hm, hl⟩
    · exact .inl hkey
  | window =>
    obtain ⟨_, _, -, rfl⟩ := Fragment.window_eq_ok hg
    exact .inl hkey
  | distinct =>
    obtain rfl := Except.ok.inj hg
    exact .inl (f.orderBy_distinct_subset hkey)

end Relation

end PlanSql
