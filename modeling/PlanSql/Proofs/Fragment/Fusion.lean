import PlanSql.Proofs.Fragment.Clauses
import PlanSql.Proofs.Fragment.Induction

/-!
# Operators that follow one another

Every operator with one input works on the fragment of that input or on a new SELECT around it, and
which of the two it is depends on the flags of the input only. An operator that needs no new SELECT
around the output of another one therefore works on what the other one works on, and a statement of
two such operators is the statement of any single operator that does in one step what they do in
two. Filters that follow one another are one filter, with the conditions of both, and a condition
that joins two others by AND is the two of them. Sorts that follow one another are one sort, by the
keys of the later one first.
-/
namespace PlanSql

namespace Lowering

/-- A computation that meets a node for the first time makes the node's fragment. -/
theorem run_once_start (id : NodeId) (make : Lowering Fragment) :
    (once id make).run .start =
      make.run .start >>= fun x => .ok (x.1, { x.2 with made := (id, x.1) :: x.2.made }) := by
  unfold once
  simp only [StateT.run_bind, StateT.run_get, pure_bind]
  rfl

end Lowering

namespace Relation

open Lowering

variable {t : Target} {input r a b : Relation}

/-- What the operator of `r` works on: the fragment of its input, or a new SELECT around it. -/
def entered (t : Target) (r input : Relation) : Lowering Fragment := do
  let f ← input.fragment t
  wrapIf (r.separates t f.flags) f

/-- What an operator works on does not need a new SELECT any more. -/
theorem separates_of_entered (hin : r.inputs = [input]) {p : Progress} {x : Fragment × Progress}
    (h : (entered t r input).run p = .ok x) : r.separates t x.1.flags = false := by
  unfold entered at h
  rw [StateT.run_bind] at h
  obtain ⟨⟨f, q⟩, -, h⟩ := bind_eq_ok.mp h
  refine separates_entered (f := f) hin ?_
  unfold wrapIf at h
  split at h
  · next hs =>
    obtain rfl : _ = x := Except.ok.inj h
    exact .inr ⟨hs, _, rfl⟩
  · next hs =>
    obtain rfl : _ = x := Except.ok.inj h
    exact .inl ⟨by simpa using hs, rfl⟩

theorem fragment_eq_entered (hin : r.inputs = [input]) :
    r.fragment t = once r.id (entered t r input >>= fun f => r.operate t f) := by
  rw [fragment_of_input hin]
  simp [entered]

/-- The statement of an operator with one input. -/
theorem toSelect_of_input (hin : r.inputs = [input]) :
    r.toSelect t = (entered t r input).run .start >>= fun x =>
      Fragment.select <$> r.operate t x.1 := by
  unfold toSelect
  rw [fragment_eq_entered hin, run_once_start, StateT.run_bind]
  simp only [bind_assoc]
  refine congrArg _ (funext fun x => ?_)
  cases r.operate t x.1 <;> simp

/-- The statement of an operator on the output of another one, where it needs no new SELECT. -/
theorem toSelect_of_inputs (ha : a.inputs = [input]) (hb : b.inputs = [a])
    (hj : ∀ f g, a.separates t f.flags = false → a.operate t f = .ok g →
      b.separates t g.flags = false) :
    b.toSelect t = (entered t a input).run .start >>= fun x =>
      Fragment.select <$> (a.operate t x.1 >>= b.operate t) := by
  rw [toSelect_of_input hb, entered, fragment_eq_entered ha, StateT.run_bind, run_once_start,
    StateT.run_bind]
  simp only [bind_assoc]
  cases hx : (entered t a input).run .start with
  | error e => rfl
  | ok x =>
    simp only [ok_bind]
    cases hg : a.operate t x.1 with
    | error e => simp
    | ok g =>
      have hs := hj x.1 g (separates_of_entered ha hx) hg
      simp [hs, wrapIf]

theorem entered_congr {c : Relation} (hs : ∀ f, c.separates t f = a.separates t f) :
    entered t c input = entered t a input := by
  simp only [entered, hs]

/-- Two operators that do together what a single one does on the same input give a statement where
it does, and statements that are related as what the operators make is. -/
theorem agree_fused {c : Relation} {R : Sql.Select → Sql.Select → Prop} (ha : a.inputs = [input])
    (hb : b.inputs = [a]) (hc : c.inputs = [input])
    (hs : ∀ f, c.separates t f = a.separates t f)
    (hj : ∀ f g, a.separates t f.flags = false → a.operate t f = .ok g →
      b.separates t g.flags = false)
    (hop : ∀ f, a.separates t f.flags = false →
      Agree (fun g g' => R g.select g'.select) (a.operate t f >>= b.operate t) (c.operate t f)) :
    Agree R (b.toSelect t) (c.toSelect t) := by
  rw [toSelect_of_inputs ha hb hj, toSelect_of_input hc, entered_congr hs]
  refine agree_bind fun x hx => ?_
  exact (hop x.1 (separates_of_entered ha hx)).map fun g g' _ _ hg => hg

/-- Two operators that are together what a single one is on the same input have its statement, or
its error. -/
theorem toSelect_fused {c : Relation} (ha : a.inputs = [input])
    (hb : b.inputs = [a]) (hc : c.inputs = [input])
    (hs : ∀ f, c.separates t f = a.separates t f)
    (hj : ∀ f g, a.separates t f.flags = false → a.operate t f = .ok g →
      b.separates t g.flags = false)
    (hop : ∀ f, a.operate t f >>= b.operate t = c.operate t f) : b.toSelect t = c.toSelect t := by
  rw [toSelect_of_inputs ha hb hj, toSelect_of_input hc, entered_congr hs]
  simp only [hop]

end Relation

namespace Fragment

variable {t : Target} {scope : Scope} {header : Header}

/-- Further conjuncts in the last clause that sees all columns. -/
def narrowed (f : Fragment) (conjuncts : List Sql.Expr) : Fragment :=
  if f.aggregated then
    { f with select := { f.select with having := f.select.having ++ conjuncts } }
  else if f.windowed then
    { f with select := { f.select with qualify := f.select.qualify ++ conjuncts } }
  else { f with select := { f.select with selection := f.select.selection ++ conjuncts } }

/-- A filter narrows the fragment by its conjuncts; every dialect can filter groups. -/
theorem filter_eq_narrowed (f : Fragment) (cs : List Expr) :
    f.filter t header cs = f.narrowed <$> conditions t (f.scope header) cs := by
  have hhaving : t.descriptor.supportsHaving = true := rfl
  unfold filter narrowed
  cases conditions t (f.scope header) cs with
  | error e => rfl
  | ok ss => cases f.aggregated <;> cases f.windowed <;> simp [hhaving]

@[simp] theorem flags_narrowed (f : Fragment) (ss : List Sql.Expr) :
    (f.narrowed ss).flags = f.flags := by
  unfold narrowed
  split
  · rfl
  · split <;> rfl

@[simp] theorem scope_narrowed (f : Fragment) (ss : List Sql.Expr) :
    (f.narrowed ss).scope header = f.scope header := by
  unfold narrowed
  split
  · rfl
  · split <;> rfl

theorem narrowed_narrowed (f : Fragment) (ss ss' : List Sql.Expr) :
    (f.narrowed ss).narrowed ss' = f.narrowed (ss ++ ss') := by
  unfold narrowed
  cases f.aggregated <;> cases f.windowed <;> simp

theorem conditions_append (ps qs : List Expr) :
    conditions t scope (ps ++ qs) = do
      let ss ← conditions t scope ps
      let ss' ← conditions t scope qs
      return ss ++ ss' := by
  simp only [conditions, List.flatMap_append, List.mapM_append]

/-- The second filter goes to the clause that the first one went to. -/
theorem filter_filter (f : Fragment) (ps qs : List Expr) :
    (f.filter t header ps >>= fun g => g.filter t header qs) = f.filter t header (ps ++ qs) := by
  simp only [filter_eq_narrowed, conditions_append]
  cases conditions t (f.scope header) ps with
  | error e => rfl
  | ok ss =>
    simp only [Except.map_ok, ok_bind, scope_narrowed]
    cases conditions t (f.scope header) qs with
    | error e => rfl
    | ok ss' => simp [narrowed_narrowed]

theorem lowerKeys_append (ks ls : List (SortKey Expr)) :
    Expr.lowerKeys t scope (ks ++ ls) = do
      let ss ← Expr.lowerKeys t scope ks
      let ss' ← Expr.lowerKeys t scope ls
      return ss ++ ss' := by
  simp only [Expr.lowerKeys_eq, List.mapM_append]

theorem flags_of_filter {f g : Fragment} {cs : List Expr}
    (h : f.filter t header cs = .ok g) : g.flags = f.flags := by
  rw [filter_eq_narrowed] at h
  cases hc : conditions t (f.scope header) cs with
  | error e => simp [hc] at h
  | ok ss =>
    obtain rfl : f.narrowed ss = g := by simpa [hc] using h
    exact flags_narrowed f ss

theorem flags_of_sort {f g : Fragment} {keys : List (SortKey Expr)}
    (h : f.sort t header keys = .ok g) : g.flags = f.flags := by
  obtain ⟨ss, -, h⟩ := bind_eq_ok.mp h
  obtain rfl : _ = g := Except.ok.inj h
  rfl

/-- The keys of the second sort come first. Which of two keys that have no SQL is reported depends
on their order. -/
theorem agree_sort_sort (f : Fragment) (ks ls : List (SortKey Expr)) :
    Agree Eq (f.sort t header ks >>= fun g => g.sort t header ls)
      (f.sort t header (ls ++ ks)) := by
  simp only [sort, lowerKeys_append]
  cases hks : Expr.lowerKeys t (f.scope header) ks with
  | error e => cases Expr.lowerKeys t (f.scope header) ls <;> simp
  | ok ss =>
    cases hls : Expr.lowerKeys t (f.scope header) ls with
    | error e => simp [scope] at hls ⊢; simp [hls]
    | ok ss' => simp [scope] at hls ⊢; simp [hls]

end Fragment

namespace Relation

variable {t : Target}

theorem toSelect_filter_filter (i j k : NodeId) (r : Relation) (ps qs : List Expr) :
    toSelect t (.filter j (.filter i r ps) qs) = toSelect t (.filter k r (ps ++ qs)) := by
  refine toSelect_fused (a := .filter i r ps) rfl rfl rfl (fun _ => rfl) (fun f g hs hg => ?_)
    fun f => Fragment.filter_filter f ps qs
  rw [Fragment.flags_of_filter hg]
  exact hs

/-- A filter works on the conjuncts of its conditions. -/
theorem toSelect_filter_congr (i k : NodeId) (r : Relation) {ps qs : List Expr}
    (h : ps.flatMap Expr.conjuncts = qs.flatMap Expr.conjuncts) :
    toSelect t (.filter i r ps) = toSelect t (.filter k r qs) := by
  have hop : ∀ f : Fragment, operate t f (.filter i r ps) = operate t f (.filter k r qs) := by
    intro f
    simp only [operate, Fragment.filter_eq_narrowed, Fragment.conditions, h]
  rw [toSelect_of_input rfl, toSelect_of_input (r := .filter k r qs) rfl]
  simp only [hop]
  rfl

theorem agree_toSelect_sort_sort (i j k : NodeId) (r : Relation) (ks ls : List (SortKey Expr)) :
    Agree Eq (toSelect t (.sort j (.sort i r ks) ls)) (toSelect t (.sort k r (ls ++ ks))) := by
  refine agree_fused (a := .sort i r ks) rfl rfl rfl (fun _ => rfl) (fun f g hs hg => ?_)
    fun f _ => ?_
  · rw [Fragment.flags_of_sort hg]
    exact hs
  · exact (Fragment.agree_sort_sort f ks ls).mono fun g g' _ _ hg => by rw [hg]

/-- Two expressions can filter exactly where they have a conjunction and it can. -/
theorem restrictable_and {h : Header} {p q : Expr} :
    (∃ e, Expr.applyBinary .and p q = .ok e ∧ restrictable h e = .ok ()) ↔
      restrictable h p = .ok () ∧ restrictable h q = .ok () := by
  have hrefs : (Expr.binary .and p q).columnRefs = p.columnRefs ++ q.columnRefs := by
    rw [Expr.columnRefs_eq rfl]
    simp [Expr.children]
  have hb : h.Binds (.binary .and p q) ↔ h.Binds p ∧ h.Binds q := by
    simp only [Header.Binds, hrefs, List.forall_mem_append]
  have ha : (Expr.binary .and p q).containsAggregate =
      (p.containsAggregate || q.containsAggregate) := by
    rw [Expr.containsAggregate_eq rfl rfl]
    simp [Expr.children]
  simp only [restrictable_eq_ok]
  constructor
  · rintro ⟨e, he, hbe, -, hae⟩
    obtain ⟨t, ht, he⟩ := bind_eq_ok.mp he
    obtain rfl := Except.ok.inj he
    obtain ⟨hp, hq, -⟩ := BinaryOp.resultType_and.mp ht
    obtain ⟨hap, haq⟩ := Bool.or_eq_false_iff.mp (ha ▸ hae)
    exact ⟨⟨(hb.mp hbe).1, hp, hap⟩, (hb.mp hbe).2, hq, haq⟩
  · rintro ⟨⟨hbp, hp, hap⟩, hbq, hq, haq⟩
    have ht := BinaryOp.resultType_and.mpr ⟨hp, hq, rfl⟩
    refine ⟨.binary .and p q, by simp [Expr.applyBinary, ht], hb.mpr ⟨hbp, hbq⟩, ?_, ?_⟩
    · simp [Expr.dataType, ht, DataType.isCondition]
    · simp [ha, hap, haq]

/-- A filter after a filter is made, or refused with the same error, as the filter by the conditions
of both is. -/
theorem restrict_restrict (i j k : NodeId) (r : Relation) (ps qs : List Expr) :
    (restrict i r ps >>= fun a => restrict j a qs) =
      (fun _ => .filter j (.filter i r ps) qs) <$> restrict k r (ps ++ qs) := by
  simp only [restrict_eq, List.forM_eq_forM, List.forM_append]
  cases forM ps (restrictable r.header) with
  | error e => rfl
  | ok _ =>
    simp only [ok_bind, pure_eq_ok, map_bind]
    rfl

theorem agree_restrict_and (i k : NodeId) (r : Relation) (p q : Expr) :
    Agree (fun b c : Relation => ∀ t, b.toSelect t = c.toSelect t)
      (Expr.applyBinary .and p q >>= fun e => restrict i r [e]) (restrict k r [p, q]) := by
  refine agree_of_ok (fun b hb => ?_) fun c hc => ?_
  · obtain ⟨e, he, hb⟩ := bind_eq_ok.mp hb
    obtain ⟨hcheck, rfl⟩ := restrict_eq_ok_iff.mp hb
    obtain ⟨hp, hq⟩ := restrictable_and.mp ⟨e, he, hcheck e (by simp)⟩
    refine ⟨_, restrict_eq_ok_iff.mpr ⟨by simp [hp, hq], rfl⟩, fun t => ?_⟩
    obtain rfl := Expr.applyBinary_eq_ok he
    exact toSelect_filter_congr i k r (by simp [Expr.conjuncts])
  · obtain ⟨hcheck, -⟩ := restrict_eq_ok_iff.mp hc
    obtain ⟨e, he, hcheck⟩ := restrictable_and.mpr ⟨hcheck p (by simp), hcheck q (by simp)⟩
    exact ⟨_, bind_eq_ok.mpr ⟨e, he, restrict_eq_ok_iff.mpr ⟨by simpa using hcheck, rfl⟩⟩⟩

theorem agree_sortBy_sortBy (i j k : NodeId) (r : Relation) (ks ls : List (SortKey Expr)) :
    Agree (fun b c : Relation => ∀ t, Agree Eq (b.toSelect t) (c.toSelect t))
      (sortBy i r ks >>= fun a => sortBy j a ls) (sortBy k r (ls ++ ks)) := by
  refine agree_of_ok (fun b hb => ?_) fun c hc => ?_
  · obtain ⟨a, ha, hb⟩ := bind_eq_ok.mp hb
    obtain ⟨hks, rfl⟩ := sortBy_eq_ok_iff.mp ha
    obtain ⟨hls, rfl⟩ := sortBy_eq_ok_iff.mp hb
    refine ⟨_, sortBy_eq_ok_iff.mpr ⟨?_, rfl⟩, fun t => agree_toSelect_sort_sort i j k r ks ls⟩
    exact List.forall_mem_append.mpr ⟨hls, hks⟩
  · obtain ⟨hcheck, -⟩ := sortBy_eq_ok_iff.mp hc
    obtain ⟨hls, hks⟩ := List.forall_mem_append.mp hcheck
    exact ⟨_, bind_eq_ok.mpr ⟨_, sortBy_eq_ok_iff.mpr ⟨hks, rfl⟩,
      sortBy_eq_ok_iff.mpr ⟨hls, rfl⟩⟩⟩

/-- Filters and sorts that follow one another are one. A filter after a filter is refused, and has
the statement or the error, that the filter by the conditions of both has; a filter by the
conjunction of two conditions is as good as the filter by the two; and a sort after a sort is as
good as the sort by the keys of both, the later ones first. -/
theorem stacked_operators_fuse (i j k : NodeId) (r : Relation) :
    (∀ ps qs, Alike (fun b c : Relation => ∀ t, b.toSelect t = c.toSelect t)
      (restrict i r ps >>= fun a => restrict j a qs) (restrict k r (ps ++ qs))) ∧
    (∀ p q, Agree (fun b c : Relation => ∀ t, b.toSelect t = c.toSelect t)
      (Expr.applyBinary .and p q >>= fun e => restrict i r [e]) (restrict k r [p, q])) ∧
    ∀ ks ls, Agree (fun b c : Relation => ∀ t, Agree Eq (b.toSelect t) (c.toSelect t))
      (sortBy i r ks >>= fun a => sortBy j a ls) (sortBy k r (ls ++ ks)) := by
  refine ⟨fun ps qs => ?_, agree_restrict_and i k r, agree_sortBy_sortBy i j k r⟩
  rw [restrict_restrict i j k, restrict_eq]
  cases (ps ++ qs).forM (restrictable r.header) with
  | error e => rfl
  | ok _ => exact ⟨_, rfl, fun t => toSelect_filter_filter i j k r ps qs⟩

end Relation

end PlanSql
