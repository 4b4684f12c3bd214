import PlanSql.Proofs.Fragment.QualifyClauses

/-!
# Features that a statement uses

A dialect says which clauses and joins it has. A filter becomes QUALIFY, and an aggregate gets a
FILTER clause, only where the dialect has them; joins and windows that it does not have are refused.
Whatever the rules for functions are, a statement uses nothing else, at any depth: what goes into a
derived table has been made by the same operators.
-/
namespace PlanSql

namespace Sql

/-- A call, if it is one, has no clauses but those that the dialect declares. -/
def Expr.WithinFeatures (d : Descriptor) : Expr → Prop
  | .call _ _ _ filter window =>
    (filter ≠ none → d.supportsFilterClause = true) ∧
      ∀ w ∈ window, d.windowRequiresOrderBy = true → w.orderBy ≠ []
  | _ => True

/-- The statement itself, without its derived tables, has no QUALIFY clause and no joins but those
that the dialect declares. -/
structure Select.ClausesWithin (d : Descriptor) (s : Select) : Prop where
  qualify : s.qualify ≠ [] → d.supportsQualify = true
  rightJoin : .right ∈ s.source.joinOps → d.supportsRightJoin = true
  fullJoin : .full ∈ s.source.joinOps → d.supportsFullJoin = true

/-- The statement itself, without its derived tables, uses no features but those that the dialect
declares. -/
structure Select.WithinFeatures (d : Descriptor) (s : Select) : Prop
    extends s.ClausesWithin d where
  calls : ∀ e ∈ s.expressions ++ s.source.ons, ∀ p ∈ e.parts, p.WithinFeatures d

end Sql

/-- What a template puts on top is a plain call or none. -/
theorem Template.Heads.withinFeatures {T : Template} {p : Sql.Expr} (h : T.Heads p)
    (d : Descriptor) : p.WithinFeatures d := by
  cases T with
  | arg | args => exact h.elim
  | call name items =>
    obtain ⟨as, rfl⟩ := h
    exact ⟨fun hf => absurd rfl hf, by simp⟩
  | extract field operand | cast operand field =>
    obtain ⟨a, rfl⟩ := h
    trivial
  | binary op left right =>
    obtain ⟨l, r, rfl⟩ := h
    trivial
  | int value | number text | string value =>
    obtain rfl := h
    trivial

namespace Target

/-- A window that is not refused is ordered where it has to be. -/
theorem checkWindow_eq_ok {t : Target} {e : Expr} {ordered : Bool}
    (h : t.checkWindow e ordered = .ok ()) :
    t.descriptor.windowRequiresOrderBy = true → ordered = true := by
  unfold checkWindow at h
  intro hw
  cases ordered with
  | true => rfl
  | false => split at h <;> simp [refuse, hw] at h

/-- A FILTER clause is put on an aggregate only where there is one. -/
theorem supportsFilterClause_of_aggregateFilter {t : Target} {condition : Option Sql.Expr}
    (h : t.aggregateFilter condition ≠ none) : t.descriptor.supportsFilterClause = true := by
  unfold aggregateFilter at h
  by_contra hn
  exact h (if_neg hn)

end Target

/-- Lowering puts FILTER and OVER on calls only as the dialect allows, whatever the rules are. -/
theorem Expr.admits_withinFeatures (t : Target) (scope : Scope) (e : Expr) :
    Admits t scope e fun p => p.WithinFeatures t.descriptor where
  constant h := by
    obtain rfl := Target.constant_eq_ok h
    trivial
  unary := trivial
  binary := trivial
  row _ h hargs :=
    Target.forall_parts_call h (fun _ _ _ _ _ hp => hp.withinFeatures t.descriptor) hargs
  inList := trivial
  isNull := trivial
  cast _ := trivial
  case := trivial
  aggregate _ _ h hx :=
    Target.forall_parts_aggregate h (fun _ _ _ _ _ hp => hp.withinFeatures t.descriptor) trivial
      trivial (fun _ => trivial) (fun _ _ _ _ _ hc =>
        ⟨Target.supportsFilterClause_of_aggregateFilter, hc.2⟩) hx
  window {f args partitionBy orderBy as call w s} _ hl hcall h hx := by
    refine Target.forall_parts_attach hcall h
      (fun _ _ _ _ _ hp => hp.withinFeatures t.descriptor) trivial (fun hc => ?_) hx
    -- the window of the call is the one that has been checked, and its keys are as many
    obtain ⟨as', call', ps, ks, hw, -, -, -, hks, h'⟩ := lower_eq_ok.mp hl
    obtain ⟨name, args', d, c, w', rfl, rfl⟩ := Target.attach_eq_ok h
    obtain ⟨_, _, _, _, _, -, hcall'⟩ := Target.attach_eq_ok h'
    obtain ⟨-, -, -, rfl, hover⟩ := Sql.Expr.call.inj hcall'
    obtain rfl := Option.some.inj hover
    refine ⟨hc.1, fun w hm hreq => ?_⟩
    obtain rfl := Option.some.inj hm
    have hordered : orderBy ≠ [] := by simpa using Target.checkWindow_eq_ok hw hreq
    rintro (rfl : ks = [])
    exact hordered (List.forall₂_nil_right_iff.mp hks)

theorem Target.permits_withinFeatures (t : Target) :
    t.Permits fun p => p.WithinFeatures t.descriptor where
  column _ _ := trivial
  lower := Expr.admits_withinFeatures t

namespace Relation

variable {t : Target} {r input : Relation} {f f' g : Fragment}

theorem ite_refuse_eq_ok {c : Prop} [Decidable c] {operator : String} {limit : OperatorLimit}
    {op op' : Sql.JoinOp}
    (h : (if c then .ok op else Fragment.refuse t operator limit) = Except.ok op') :
    c ∧ op = op' := by
  split at h
  · next hc => exact ⟨hc, Except.ok.inj h⟩
  · simp [Fragment.refuse] at h

/-- Joins that the dialect does not have are refused. -/
theorem joinOp_eq_ok {kind : JoinKind} {op : Sql.JoinOp} (h : Fragment.joinOp t kind = .ok op) :
    (op = .right → t.descriptor.supportsRightJoin = true) ∧
      (op = .full → t.descriptor.supportsFullJoin = true) := by
  cases kind with
  | inner | left | cross =>
    obtain rfl := Except.ok.inj h
    simp
  | right | full =>
    obtain ⟨hs, rfl⟩ := ite_refuse_eq_ok h
    simpa using hs

theorem joinOps_joinSide (f : Fragment) (aliasName : String) :
    (f.joinSide aliasName).1.joinOps = [] := by
  unfold Fragment.joinSide
  cases f.select.bareTable? <;> rfl

/-- A filter that becomes QUALIFY has not been given a SELECT of its own, as it would have been for
want of the clause. -/
theorem clausesWithin_operate (hin : r.inputs = [input]) (hsep : r.separates t f.flags = false)
    (hf : f.select.ClausesWithin t.descriptor) (hg : r.operate t f = .ok g) :
    g.select.ClausesWithin t.descriptor := by
  have hsource := source_operate hg
  refine ⟨fun hq => ?_, by rw [hsource]; exact hf.rightJoin, by rw [hsource]; exact hf.fullJoin⟩
  rcases qualify_operate hg with h | ⟨_, _, _, _, rfl, ha, hw, -, -⟩
  · exact hf.qualify (h ▸ hq)
  · simpa [separates, Fragment.flags, ha, hw] using (Bool.or_eq_false_iff.mp hsep).2

theorem clausesWithin_ofSource {source : Sql.FromItem} {columns : List OutputColumn}
    {d : Descriptor} (hs : source.joinOps = []) :
    (Fragment.ofSource source columns).select.ClausesWithin d :=
  ⟨fun h => absurd rfl h, by simp [Fragment.ofSource, Sql.SelectOver.ofSource, hs],
    by simp [Fragment.ofSource, Sql.SelectOver.ofSource, hs]⟩

/-- Putting names to the items of a statement leaves its clauses and sources alone. -/
theorem clausesWithin_named {d : Descriptor} (h : ∀ q ∈ f.select.statements, q.ClausesWithin d) :
    ∀ q ∈ f.named.statements, q.ClausesWithin d := by
  obtain ⟨⟨hq, hr, hf⟩, hsub⟩ := List.forall_mem_cons.mp h
  exact List.forall_mem_cons.mpr ⟨⟨hq, hr, hf⟩, hsub⟩

theorem steps_clausesWithin (t : Target) (root : Relation) :
    Steps t root (fun _ f => ∀ q ∈ f.select.statements, q.ClausesWithin t.descriptor)
      fun _ => True where
  table _ := by
    refine List.forall_mem_cons.mpr ⟨clausesWithin_ofSource rfl, ?_⟩
    simp [Fragment.ofTable, Fragment.ofSource, Sql.SelectOver.ofSource, Sql.FromItem.selects]
  joinOp _ := settles_of_ok fun _ _ => trivial
  join _ hop hl hr _ := settles_of_ok fun g hg => by
    obtain ⟨hright, hfull⟩ := joinOp_eq_ok hop
    obtain ⟨on, -, rfl⟩ := Fragment.join_eq_ok hg
    refine List.forall_mem_cons.mpr ⟨⟨fun h => absurd rfl h, fun h => hright ?_,
      fun h => hfull ?_⟩, List.forall_mem_append.mpr
        ⟨fun q hq => clausesWithin_named hl q (selects_joinSide hq),
          fun q hq => clausesWithin_named hr q (selects_joinSide hq)⟩⟩
    all_goals
      simpa [Sql.SelectOver.ofSource, Sql.FromItem.joinOps, joinOps_joinSide, eq_comm] using h
  step {r input f f'} _ hin hf he := settles_of_ok fun g hg => by
    have hf' : ∀ q ∈ f'.select.statements, q.ClausesWithin t.descriptor := by
      rcases he with ⟨-, rfl⟩ | ⟨-, a, rfl⟩
      · exact hf
      · exact List.forall_mem_cons.mpr ⟨clausesWithin_ofSource rfl, clausesWithin_named hf⟩
    obtain ⟨hown, hbelow⟩ := List.forall_mem_cons.mp hf'
    refine List.forall_mem_cons.mpr
      ⟨clausesWithin_operate hin (separates_entered hin he) hown hg, ?_⟩
    rw [source_operate hg]
    exact hbelow

/-- The statement of a relation, under whatever rules for functions, uses no feature that the
dialect does not declare, and neither does any statement within it. -/
theorem toSelect_within_features (h : r.Valid) (t : Target) {s : Sql.Select}
    (hs : r.toSelect t = .ok s) : ∀ q ∈ s.statements, q.WithinFeatures t.descriptor := by
  intro q hq
  have hclauses : q.ClausesWithin t.descriptor := by
    obtain ⟨f, hf, rfl⟩ := ((steps_clausesWithin t r).toSelect h.coherent).of_ok hs
    exact hf q hq
  have hcalls := forall_parts_toSelect (Target.permits_withinFeatures t) h.coherent hs
  exact ⟨hclauses, fun e he => hcalls e (Sql.Select.mem_allExpressions_of_statements hq he)⟩

theorem toSelect_first_within_features :
    ∃ s, first.toSelect (Target.builtin .duckdb) = .ok s ∧ s.qualify ≠ [] ∧
      ∀ q ∈ s.statements, q.WithinFeatures Dialect.duckdb.descriptor := by
  have hs : first.toSelect (Target.builtin .duckdb) = .ok _ := rfl
  exact ⟨_, hs, by simp, toSelect_within_features valid_first (Target.builtin .duckdb) hs⟩

end Relation

end PlanSql
