import PlanSql.Proofs.Fragment.Sharing

/-!
# Where window calls come from

A node's operator works on the fragment that its input has become, or on a new SELECT around it, and
other operators may follow in the same SELECT. A window call in that SELECT is made by one of these
nodes, of a window function among its expressions over the columns of the fragment it works on. The
operators above hand the call on, since a column stands for its definition.
-/
namespace PlanSql

namespace Expr

variable {t : Target} {scope : Scope}

/-- In the SQL of an expression without aggregates, window calls are what its window functions
become and what its columns stand for. -/
theorem windowCalls_lower {e : Expr} {s : Sql.Expr} {R : Sql.Expr → Prop}
    (ha : ∀ q ∈ e.parts, q.isAggregate = false) (h : e.lower t scope = .ok s)
    (hown : ∀ x ∈ e.kept, x.isWindow = true → ∀ w, x.lower t scope = .ok w → R w)
    (hs : ∀ ref d, scope.column ref = .ok d → ∀ w ∈ d.parts, w.isWindowCall = true → R w) :
    ∀ w ∈ s.parts, w.isWindowCall = true → R w := by
  have other : ∀ {p : Sql.Expr}, p.isWindowCall = false → p.isWindowCall = true → R p :=
    fun hp hc => absurd (hp.symm.trans hc) (by simp)
  have admits : Admits t scope e fun p => p.isWindowCall = true → R p :=
    { constant := fun h => other (by obtain rfl := Target.constant_eq_ok h; rfl)
      unary := other rfl
      binary := other rfl
      row := fun _ h hargs =>
        Target.forall_parts_call h (fun _ _ _ _ _ hp => other hp.brings.2.1) hargs
      inList := other rfl
      isNull := other rfl
      cast := fun _ => other rfl
      case := other rfl
      aggregate := fun hp =>
        absurd (ha _ (mem_parts_of_mem_kept hp)) (by simp [isAggregate])
      window := fun hp hl hcall h hx => Target.forall_parts_attach hcall h
        (fun _ _ _ _ _ hp => other hp.brings.2.1) (other rfl) (fun _ _ => hown _ hp rfl _ hl) hx }
  exact admits.lower (fun ref _ => hs ref) h

/-- The operands of a window call are free of windows if no column of theirs stands for one. -/
theorem windows_children_of_isWindow {e : Expr} {s : Sql.Expr} (hf : e.Formed)
    (hw : e.isWindow = true) (h : e.lower t scope = .ok s)
    (hs : ∀ ref ∈ e.keptRefs, ∀ d, scope.column ref = .ok d → d.windows = false) :
    ∀ c ∈ s.children, c.windows = false := by
  cases e with
  | window f args partitionBy orderBy =>
    obtain ⟨as, call, ps, ks, -, has, hcall, hps, hks, h⟩ := lower_eq_ok.mp h
    have row : ∀ a ∈ args ++ partitionBy ++ orderBy.map (·.expr), ∀ s, a.lower t scope = .ok s →
        s.windows = false := by
      intro a ha s hl
      refine Sql.Expr.windows_eq_false.mpr ((admits_windowless ?_).lower ?_ hl)
      · exact (isRowLevel_eq_true.mp (hf a ha)).2
      · intro ref hr d hd
        exact Sql.Expr.windows_eq_false.mp (hs ref (mem_keptRefs_of_child rfl ha hr) d hd)
    have hcallw : call.windows = false := by
      refine Sql.Expr.windows_eq_false.mpr (Target.forall_parts_call hcall
        (fun _ _ _ _ _ hp => hp.brings.2.1) fun a ha => ?_)
      rcases Target.mem_windowArgs ha with ha | rfl
      · obtain ⟨a', ha', hl⟩ := forall₂_mem_right has ha
        exact Sql.Expr.windows_eq_false.mp (row a' (by simp [ha']) a hl)
      · simp [Sql.Expr.parts, Sql.Expr.isWindowCall]
    obtain ⟨name, as', d, c, w, rfl, rfl⟩ := Target.attach_eq_ok h
    intro b hb
    simp only [Sql.Expr.children, List.mem_append, Option.toList_some, List.flatMap_cons,
      List.flatMap_nil, List.append_nil, Sql.Over.keys, List.mem_map] at hb
    rcases hb with hb | hb | ⟨k, hk, rfl⟩
    · refine Sql.Expr.windows_of_child ?_ hcallw
      simp only [Sql.Expr.children, List.mem_append]
      exact .inl (by simpa using hb)
    · obtain ⟨p, hp, hl⟩ := forall₂_mem_right hps hb
      exact row p (by simp [hp]) b hl
    · obtain ⟨k', hk', hl, -⟩ := forall₂_mem_right hks hk
      refine row k'.expr ?_ k.expr hl
      simp only [List.mem_append, List.mem_map]
      exact .inr ⟨k', hk', rfl⟩
  | _ => simp [isWindow] at hw

end Expr

namespace Relation

/-- The operator at the root, working on a fragment, makes a window call. -/
def Introduces (t : Target) (n : Relation) (f' : Fragment) (w : Sql.Expr) : Prop :=
  ∃ input ∈ n.inputs, ∃ e ∈ n.exprs, ∃ x ∈ e.kept, x.isWindow = true ∧
    x.lower t (f'.scope input.header) = .ok w

/-- All window calls in an expression are made by operators that are part of the SELECT. -/
def CallsIntroduced (t : Target) (r : Relation) (f : Fragment) (e : Sql.Expr) : Prop :=
  ∀ w ∈ e.parts, w.isWindowCall = true → ∃ n f', Within t r f n f' ∧ n.Introduces t f' w

variable {t : Target} {d : Dialect} {r input n : Relation} {f f' f₀ g : Fragment}

/-- An expression that an operator leaves as it was has the window calls that it had. -/
theorem CallsIntroduced.above {e : Sql.Expr} (h : CallsIntroduced t input f e)
    (hin : r.inputs = [input]) (hs : r.separates t f.flags = false)
    (hg : r.operate t f = .ok g) : CallsIntroduced t r g e := by
  intro w hw hc
  obtain ⟨n, f', hwithin, hi⟩ := h w hw hc
  exact ⟨n, f', hwithin.further hin hs hg, hi⟩

theorem CallsIntroduced.of_windows {e : Sql.Expr} (h : e.windows = false) :
    CallsIntroduced t r f e :=
  fun w hw hc => absurd ((Sql.Expr.windows_eq_false.mp h w hw).symm.trans hc) (by simp)

/-- A grouping has no window functions. -/
theorem Checked.windowless {id : NodeId} {keys metrics : List NamedExpr} {having : List Expr}
    (hc : (Relation.aggregate id input keys metrics having).Checked) :
    ∀ e ∈ (Relation.aggregate id input keys metrics having).exprs, e.containsWindow = false := by
  obtain ⟨hh, -, -, hk, -, hm, -⟩ := hc
  refine List.forall_mem_append.mpr
    ⟨List.forall_mem_append.mpr ⟨?_, ?_⟩, fun c h => (hh c h).2.2⟩
  · exact List.forall_mem_map.mpr fun n hn => (Expr.isRowLevel_eq_true.mp (hk n hn)).2
  · exact List.forall_mem_map.mpr fun n hn => (hm n hn).2.1

/-- Any other operator has no aggregates. -/
theorem Checked.plain (hc : r.Checked) :
    (∀ e ∈ r.exprs, e.Made ∧ ∀ q ∈ e.parts, q.isAggregate = false) ∨
      ∃ id input keys metrics having, r = .aggregate id input keys metrics having := by
  have made : ∀ {e : Expr}, e.Made → e.containsAggregate = false →
      e.Made ∧ ∀ q ∈ e.parts, q.isAggregate = false :=
    fun hm ha => ⟨hm, fun _ => hm.isAggregate_of_part ha⟩
  cases r with
  | table | limit | distinct => exact .inl (by simp [exprs])
  | project id input exprs =>
    obtain ⟨-, hm, ha, -⟩ := hc
    exact .inl (List.forall_mem_map.mpr fun n hn => made (hm n hn).1 (ha n hn))
  | filter id input cs => exact .inl fun c hm => made (hc c hm).1 (hc c hm).2.2
  | sort id input keys =>
    exact .inl (List.forall_mem_map.mpr fun k hk => made (hc k hk).1 (hc k hk).2.2)
  | window id input exprs =>
    obtain ⟨hm, ha, -⟩ := hc
    exact .inl (List.forall_mem_map.mpr fun n hn => made (hm n hn).1 (ha n hn).2)
  | join id left right kind cs =>
    obtain ⟨-, hm, -⟩ := hc
    exact .inl fun c h => made (hm c h).1 (Expr.isRowLevel_eq_true.mp (hm c h).2.2).1
  | aggregate => exact .inr ⟨_, _, _, _, _, rfl⟩

/-- The window calls of what an operator adds to a SELECT are its own, or those of the columns that
it works on. -/
theorem callsIntroduced_lower (hw : r.WellFormed) (hin : r.inputs = [input])
    (hf : Becomes t input f) (he : f.Enters (r.separates t f.flags) f')
    (hg : r.operate t f' = .ok g) (hs : ∀ c ∈ f'.columns, CallsIntroduced t r g c.expr) :
    ∀ c ∈ r.exprs, ∀ p ∈ c.kept, ∀ s, p.lower t (f'.scope input.header) = .ok s →
      CallsIntroduced t r g s := by
  intro c hc p hp s hl
  have hparts := Expr.mem_parts_of_mem_kept hp
  rcases hw.checked.plain with hplain | ⟨_, _, _, _, _, rfl⟩
  · refine Expr.windowCalls_lower ?_ hl ?_
      (Scope.forall_columns input.header (P := CallsIntroduced t r g) hs)
    · exact fun q hq => (hplain c hc).2 q (Expr.mem_parts_trans hparts hq)
    · intro x hx hxw w hlw
      exact ⟨r, f', .here hin hf he hg, input, by simp [hin], c, hc, x, Expr.mem_kept_trans hp hx,
        hxw, hlw⟩
  · -- what is grouped has no windows
    have hflags := separates_entered hin he
    have hu := (Bool.or_eq_false_iff.mp (Bool.or_eq_false_iff.mp hflags).1).2
    have hcols := (hf.flagged_entered (hw.input (by simp [hin])) he).unwindowed hu
    exact .of_windows (Expr.windows_lower_eq_false hl
      (Expr.containsWindow_of_part hparts (hw.checked.windowless c hc))
      (Scope.forall_columns input.header hcols))

/-- Every window call in a SELECT is made by an operator that is part of it. -/
theorem Becomes.callsIntroduced (h : Becomes t r f) (hw : r.WellFormed) :
    (∀ c ∈ f.columns, CallsIntroduced t r f c.expr) ∧
      ∀ e ∈ f.select.expressions, CallsIntroduced t r f e := by
  have reference : ∀ {r : Relation} {f : Fragment} {e : Sql.Expr}, (∃ q n, e = .column q n) →
      CallsIntroduced t r f e := by
    rintro r f e ⟨q, n, rfl⟩
    exact .of_windows (Fragment.windows_column q n)
  induction h with
  | table =>
    refine ⟨List.forall_mem_map.mpr fun field _ => reference ⟨none, field.name, rfl⟩, ?_⟩
    simp [Fragment.ofTable, Fragment.ofSource, Sql.SelectOver.ofSource,
      Sql.SelectOver.expressions]
  | join hop hl hr hab hg =>
    have hcols := Fragment.exists_column_of_join hg
    have hground := (Becomes.join hop hl hr hab hg).grounded hw
    obtain ⟨on, -, rfl⟩ := Fragment.join_eq_ok hg
    have hitems := hground.exprs_eq rfl
    refine ⟨fun c hc => reference (hcols c hc), Sql.SelectOver.forall_mem_expressions.mpr
      ⟨fun item hi => ?_, by simp [Sql.SelectOver.ofSource]⟩⟩
    exact (forall_mem_iff_of_map_eq hitems).mp (fun c hc => reference (hcols c hc)) item hi
  | @step r input f f' g hin hf he hg ih =>
    obtain ⟨hcols, hexprs⟩ := ih (hw.input (by simp [hin]))
    have hold : (∀ c ∈ f'.columns, CallsIntroduced t r g c.expr) ∧
        ∀ e ∈ f'.select.expressions, CallsIntroduced t r g e := by
      rcases he with ⟨hs, rfl⟩ | ⟨-, a, rfl⟩
      · exact ⟨fun c hc => (hcols c hc).above hin hs hg, fun e he => (hexprs e he).above hin hs hg⟩
      · refine ⟨List.forall_mem_map.mpr fun c _ => reference ⟨none, c.name, rfl⟩, ?_⟩
        simp [Fragment.wrapped, Fragment.ofSource, Sql.SelectOver.ofSource,
          Sql.SelectOver.expressions]
    exact forall_expressions_operate hin hg hold.1 hold.2
      (callsIntroduced_lower hw hin hf he hg hold.1)

end Relation

end PlanSql
