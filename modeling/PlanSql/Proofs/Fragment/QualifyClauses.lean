import PlanSql.Proofs.Fragment.Tracing
import PlanSql.Proofs.Fragment.WindowPredicates

/-!
# QUALIFY without windows

A filter becomes QUALIFY if the SELECT is flagged as one that evaluates window functions. The flag
stays when a projection leaves the window functions out, so what makes the clause one about windows
has to be told from the columns that are left at the end and from the conditions themselves.
-/
namespace PlanSql

/-- The SQL of an expression has a window call in it: a window function that is kept, or a column
that stands for one. -/
def Expr.showsWindow : Expr.Test := fun header passes e =>
  e.keepsWindow || e.keptRefs.any (header.leadsTo passes)

namespace Relation

/-- The operator at the root is a filter that becomes QUALIFY. -/
def qualifies (t : Target) : Relation → Bool
  | r@(.filter _ _ conditions) =>
    !conditions.isEmpty && (r.flags t).windowed && !(r.flags t).aggregated
  | _ => false

/-- The operator at the root is a filter by what window functions give. -/
def filtersByWindow (t : Target) : Relation → Bool
  | r@(.filter _ input conditions) =>
    conditions.any (Expr.showsWindow input.header (r.passesBelow t Expr.showsWindow input))
  | _ => false

/-- The SELECT of a relation shows what a window function gives, or qualifies rows by it. -/
def usesWindow (t : Target) (r : Relation) : Bool :=
  (List.range r.schema.length).any (r.passesAt t Expr.showsWindow) ||
    (r.shared t).any fun m => m.qualifies t && m.filtersByWindow t

/-- Every SELECT with a filter that becomes QUALIFY uses a window function. -/
def QualifiesByWindows (t : Target) (root : Relation) : Prop :=
  ∀ n ∈ root.tops t, (n.shared t).any (qualifies t) = true → n.usesWindow t = true

end Relation

namespace Expr

variable {d : Dialect} {header : Header} {columns : List OutputColumn} {passes : Nat → Bool}

/-- The expressions whose SQL has a window call in it. -/
theorem windows_lower_eq {e : Expr} (hm : e.Made)
    (hr : (Scope.columns header columns).Resolves e)
    (ha : (∀ p ∈ e.parts, p.isAggregate = false) ∨
      e.containsWindow = false ∧ ∀ c ∈ columns, c.expr.windows = false)
    (hc : Fragment.PassesAt Sql.Expr.windows passes columns) {s : Sql.Expr}
    (h : e.lower (Target.builtin d) (.columns header columns) = .ok s) :
    s.windows = e.showsWindow header passes := by
  have hleads : ∀ ref ∈ e.keptRefs, ∃ c, (Scope.columns header columns).column ref = .ok c ∧
      c.windows = header.leadsTo passes ref := by
    intro ref href
    obtain ⟨c, hcol⟩ := hr ref (mem_columnRefs_of_mem_keptRefs href)
    exact ⟨c, hcol, hc.leadsTo hcol⟩
  rcases ha with ha | ⟨hw, hcols⟩
  · rw [Bool.eq_iff_iff, windows_lower_iff hm ha h, showsWindow, Bool.or_eq_true,
      List.any_eq_true]
    refine or_congr_right (exists_congr fun ref => and_congr_right fun href => ?_)
    obtain ⟨c, hcol, hwin⟩ := hleads ref href
    rw [← hwin, hcol]
    simp
  · have hscope := Scope.forall_columns header (P := fun c => c.windows = false) hcols
    rw [windows_lower_eq_false h hw hscope]
    symm
    refine Bool.or_eq_false_iff.mpr ⟨List.any_eq_false.mpr fun q hq => ?_,
      List.any_eq_false.mpr fun ref href => ?_⟩
    · simpa using containsWindow_eq_false.mp hw q (mem_parts_of_mem_kept hq)
    · obtain ⟨c, hcol, hwin⟩ := hleads ref href
      rw [← hwin, hscope ref c hcol]
      simp

/-- What a condition says of window functions, one of its conjuncts says. -/
theorem exists_conjunct_of_showsWindow {e : Expr} (h : e.showsWindow header passes = true) :
    ∃ p ∈ e.conjuncts, p.showsWindow header passes = true := by
  rcases Bool.or_eq_true_iff.mp h with h | h
  · obtain ⟨q, hq, hw⟩ := List.any_eq_true.mp h
    rcases mem_kept_conjunct hq with ⟨l, r, rfl⟩ | ⟨p, hp, hqp⟩
    · simp [isWindow] at hw
    · exact ⟨p, hp, Bool.or_eq_true_iff.mpr (.inl (List.any_eq_true.mpr ⟨q, hqp, hw⟩))⟩
  · obtain ⟨ref, href, hl⟩ := List.any_eq_true.mp h
    obtain ⟨q, hq, hqr⟩ := List.mem_filterMap.mp href
    rcases mem_kept_conjunct hq with ⟨l, r, rfl⟩ | ⟨p, hp, hqp⟩
    · simp [column?] at hqr
    · exact ⟨p, hp, Bool.or_eq_true_iff.mpr (.inr (List.any_eq_true.mpr
        ⟨ref, List.mem_filterMap.mpr ⟨q, hqp, hqr⟩, hl⟩))⟩

end Expr

namespace Relation

variable {t : Target} {d : Dialect} {root r input n : Relation} {f f' g : Fragment}

theorem traces_windows : Traces d Expr.showsWindow Sql.Expr.windows where
  column := Fragment.windows_column
  output {r input f passes} hc hin hflag hsep hlen hf n hn s hl := by
    have resolves : input.header.Binds n.expr → (f.scope input.header).Resolves n.expr :=
      Scope.resolves_columns (aligned_header input) hlen
    cases r with
    | table | join | filter | sort | limit | distinct => simp [outputs] at hn
    | project id i exprs =>
      obtain rfl := List.singleton_inj.mp hin
      obtain ⟨-, hmade, hagg, -⟩ := hc
      obtain ⟨hm, hb⟩ := hmade n hn
      exact Expr.windows_lower_eq hm (resolves hb)
        (.inl fun _ => hm.isAggregate_of_part (hagg n hn)) hf hl
    | window id i exprs =>
      obtain rfl := List.singleton_inj.mp hin
      obtain ⟨hmade, hwin, -⟩ := hc
      obtain ⟨hm, hb⟩ := hmade n hn
      exact Expr.windows_lower_eq hm (resolves hb)
        (.inl fun _ => hm.isAggregate_of_part (hwin n hn).2) hf hl
    | aggregate id i keys metrics having =>
      obtain rfl := List.singleton_inj.mp hin
      obtain ⟨-, -, hkey, hrow, hmetric, hm, -⟩ := hc
      -- what is grouped has no windows, and neither have the keys and the metrics
      have hcols := hflag.unwindowed (Bool.or_eq_false_iff.mp (Bool.or_eq_false_iff.mp hsep).1).2
      rcases List.mem_append.mp hn with hn | hn
      · have hw := (Expr.isRowLevel_eq_true.mp (hrow n hn)).2
        exact Expr.windows_lower_eq (hkey n hn).1 (resolves (hkey n hn).2) (.inr ⟨hw, hcols⟩) hf hl
      · exact Expr.windows_lower_eq (hmetric n hn).1 (resolves (hmetric n hn).2)
          (.inr ⟨(hm n hn).2.1, hcols⟩) hf hl

theorem qualify_subset_operate (hg : r.operate t f = .ok g) :
    f.select.qualify ⊆ g.select.qualify := by
  rcases qualify_operate hg with h | ⟨_, _, _, _, -, -, -, -, rfl⟩
  · exact h ▸ List.Subset.refl _
  · exact List.subset_append_left _ _

/-- A fragment with a QUALIFY clause has a filter in its SELECT that became it. -/
theorem Becomes.exists_qualifies (h : Becomes (Target.builtin d) r f) (hw : r.WellFormed)
    (hq : f.select.qualify ≠ []) :
    ∃ m ∈ r.shared (Target.builtin d), m.qualifies (Target.builtin d) = true := by
  induction h with
  | table => simp [Fragment.ofTable, Fragment.ofSource, Sql.SelectOver.ofSource] at hq
  | join _ _ _ _ hg =>
    obtain ⟨on, -, rfl⟩ := Fragment.join_eq_ok hg
    simp [Sql.SelectOver.ofSource] at hq
  | @step r i f f' g hin hf he hg ih =>
    have hg' : Becomes (Target.builtin d) r g := .step hin hf he hg
    have hwi := hw.input (i := i) (by simp [hin])
    have below : f'.select.qualify ≠ [] →
        ∃ m ∈ r.shared (Target.builtin d), m.qualifies (Target.builtin d) = true := by
      intro hq
      rcases hf.enters hwi hin he with ⟨hs, rfl⟩ | ⟨-, a, rfl⟩
      · obtain ⟨m, hm, hqual⟩ := ih hwi hq
        exact ⟨m, (mem_shared_of_input hin).mpr (.inr ⟨hs, hm⟩), hqual⟩
      · simp [Fragment.wrapped, Fragment.ofSource, Sql.SelectOver.ofSource] at hq
    rcases qualify_operate hg with h | ⟨id, input, cs, ss, rfl, ha, hwin, hss, rfl⟩
    · exact below (h ▸ hq)
    · cases cs with
      | nil =>
        obtain rfl : ss = [] := by simpa [Fragment.conditions] using hss.symm
        exact below (by simpa using hq)
      | cons c cs =>
        refine ⟨_, mem_shared_self _, ?_⟩
        rw [qualifies, ← hg'.flags_eq hw]
        simp [Fragment.flags, ha, hwin]

/-- Among the conjuncts of QUALIFY there is one with a window call if a filter that became it is one
by what window functions give. -/
theorem Becomes.exists_qualify_windows (h : Becomes (Target.builtin d) r f) (hw : r.WellFormed)
    (hn : n ∈ r.shared (Target.builtin d)) (hq : n.qualifies (Target.builtin d) = true)
    (hf : n.filtersByWindow (Target.builtin d) = true) :
    ∃ e ∈ f.select.qualify, e.windows = true := by
  induction h with
  | table | join =>
    obtain rfl := List.mem_singleton.mp hn
    simp [qualifies] at hq
  | @step r i f f' g hin hbec he hg ih =>
    have hg' : Becomes (Target.builtin d) r g := .step hin hbec he hg
    have hwi := hw.input (i := i) (by simp [hin])
    rcases (mem_shared_of_input hin).mp hn with rfl | ⟨hs, hn⟩
    · cases n with
      | filter id input cs =>
        obtain rfl := List.singleton_inj.mp hin
        rw [qualifies, ← hg'.flags_eq hw] at hq
        obtain ⟨⟨-, hwin⟩, hagg⟩ : (_ ∧ g.windowed = true) ∧ g.aggregated = false := by
          simpa [Fragment.flags] using hq
        obtain ⟨c, hc, hshows⟩ := List.any_eq_true.mp hf
        obtain ⟨p, hp, hshows⟩ := Expr.exists_conjunct_of_showsWindow hshows
        have hparts := Expr.mem_parts_of_mem_conjuncts hp
        obtain ⟨hmade, hbinds, hplain⟩ := hw.checked c hc
        obtain ⟨ss, hss, ⟨ha, rfl⟩ | ⟨-, -, rfl⟩ | ⟨-, hu, rfl⟩⟩ := Fragment.filter_eq_ok hg
        · simp [ha] at hagg
        · obtain ⟨s, hs, hl⟩ := forall₂_mem_left (Fragment.conditions_eq_ok.mp hss)
            (List.mem_flatMap.mpr ⟨c, hc, hp⟩)
          have hlen := (hbec.grounded_entered hwi he).length
          have hresolves := (Scope.resolves_columns (aligned_header input) hlen hbinds).part hparts
          have hwindows := Expr.windows_lower_eq (hmade.part hparts) hresolves
            (.inl fun q hq => hmade.isAggregate_of_part hplain (Expr.mem_parts_trans hparts hq))
            (hbec.passesBelow traces_windows hwi hin he) hl
          exact ⟨s, List.mem_append_right _ hs, hwindows.trans hshows⟩
        · simp [hu] at hwin
      | _ => simp [qualifies] at hq
    · obtain ⟨-, rfl⟩ | ⟨hb, -⟩ := hbec.enters hwi hin he
      · obtain ⟨e, hm, hwin⟩ := ih hwi hn
        exact ⟨e, qualify_subset_operate hg hm, hwin⟩
      · simp [hs] at hb

/-- A column with a window call is shown by an item of the projection. -/
theorem Becomes.exists_item_windows (h : Becomes (Target.builtin d) r f) (hw : r.WellFormed)
    {i : Nat} (hi : i < r.schema.length)
    (hp : r.passesAt (Target.builtin d) Expr.showsWindow i = true) :
    ∃ e ∈ (f.select.projection.getD []).map (·.expr), e.windows = true := by
  have hg := h.grounded hw
  have hlt : i < f.columns.length := by
    rw [hg.length]
    exact hi
  have hc := List.getElem?_eq_getElem hlt
  have hwin : f.columns[i].expr.windows = true := (h.passesAt traces_windows hw i _ hc).trans hp
  cases hproj : f.select.projection with
  | some items =>
    refine ⟨f.columns[i].expr, ?_, hwin⟩
    rw [Option.getD_some, ← hg.exprs_eq hproj]
    exact List.mem_map_of_mem (List.getElem_mem hlt)
  | none =>
    -- the columns of the source are references
    obtain ⟨visible, -, -, -, hcols⟩ := hg.sees
    rw [hproj] at hcols
    have hmem := List.mem_map_of_mem (f := fun c : OutputColumn => c.expr) (List.getElem_mem hlt)
    rw [hcols.2] at hmem
    obtain ⟨name, -, he⟩ := List.mem_map.mp hmem
    rw [← he, Fragment.windows_column] at hwin
    simp at hwin

theorem Becomes.qualify_windows (h : Becomes (Target.builtin d) r f) (hw : r.WellFormed)
    (hu : (r.shared (Target.builtin d)).any (qualifies (Target.builtin d)) = true →
      r.usesWindow (Target.builtin d) = true) (hq : f.select.qualify ≠ []) :
    ∃ e ∈ (f.select.projection.getD []).map (·.expr) ++ f.select.qualify, e.windows = true := by
  obtain ⟨m, hm, hqual⟩ := h.exists_qualifies hw hq
  rcases Bool.or_eq_true_iff.mp (hu (List.any_eq_true.mpr ⟨m, hm, hqual⟩)) with hu | hu
  · obtain ⟨i, hi, hp⟩ := List.any_eq_true.mp hu
    obtain ⟨e, he, hwin⟩ := h.exists_item_windows hw (List.mem_range.mp hi) hp
    exact ⟨e, List.mem_append_left _ he, hwin⟩
  · obtain ⟨m, hm, hboth⟩ := List.any_eq_true.mp hu
    obtain ⟨hqual, hf⟩ := Bool.and_eq_true_iff.mp hboth
    obtain ⟨e, he, hwin⟩ := h.exists_qualify_windows hw hm hqual hf
    exact ⟨e, List.mem_append_right _ he, hwin⟩

/-- In the statement of a relation, at every depth, a SELECT with a QUALIFY clause has a window call
in its projection or in that clause, provided that every SELECT with a filter that becomes QUALIFY
shows what a window function gives or qualifies rows by it. -/
theorem toSelect_qualify_windows {r : Relation} (h : r.Valid)
    (hu : r.QualifiesByWindows (Target.builtin d)) {s : Sql.Select}
    (hs : r.toSelect (Target.builtin d) = .ok s) :
    ∀ q ∈ s.statements, q.qualify ≠ [] →
      ∃ e ∈ (q.projection.getD []).map (·.expr) ++ q.qualify, e.windows = true := by
  refine forall_statements h hs fun n hn f hw hf => ?_
  have hown := hf.qualify_windows hw (hu n hn)
  refine ⟨hown, ?_⟩
  rw [Fragment.projection_named]
  exact hown

theorem qualifiesByWindows_first : QualifiesByWindows (Target.builtin .duckdb) first := by
  intro n hn _
  obtain rfl := List.mem_singleton.mp hn
  rfl

theorem toSelect_first_qualify_windows : ∃ s, first.toSelect (Target.builtin .duckdb) = .ok s ∧
    ∀ q ∈ s.statements, q.qualify ≠ [] →
      ∃ e ∈ (q.projection.getD []).map (·.expr) ++ q.qualify, e.windows = true := by
  have hs : first.toSelect (Target.builtin .duckdb) = .ok _ := rfl
  exact ⟨_, hs, toSelect_qualify_windows valid_first qualifiesByWindows_first hs⟩

/-- The rows of a table, numbered and then without their numbers. -/
def unnumbered : Relation := .project 2 numbered [⟨.column ⟨none, "a"⟩ .int64, none⟩]

/-- Those of them that are large. -/
def largeUnnumbered : Relation :=
  .filter 3 unnumbered [.binary .gt (.column ⟨none, "a"⟩ .int64) (.int 1)]

/-- A filter by a column of a table ends in QUALIFY, in a SELECT without window calls. -/
theorem qualify_without_windows : largeUnnumbered.Valid ∧
    ∀ d : Dialect, d.descriptor.supportsQualify = true → ∃ s,
      largeUnnumbered.toSelect (Target.builtin d) = .ok s ∧ s.qualify ≠ [] ∧
        ∀ e ∈ (s.projection.getD []).map (·.expr) ++ s.qualify, e.windows = false := by
  have hp : select 2 numbered [⟨.column ⟨none, "a"⟩ .int64, none⟩] = .ok unnumbered := rfl
  have he : Expr.applyBinary .gt (.column ⟨none, "a"⟩ .int64) (.int 1) = .ok _ := rfl
  have hf : restrict 3 unnumbered [.binary .gt (.column ⟨none, "a"⟩ .int64) (.int 1)] =
      .ok largeUnnumbered := rfl
  refine ⟨⟨_, .call (.call session_numbered (.select (by simp) (by simpa using .column _ _) hp)
    (by simp [id, unnumbered, numbered])) (.restrict (by simp) ?_ hf)
    (by simp [id, largeUnnumbered, unnumbered, numbered]), List.mem_cons_self⟩, fun d hd => ?_⟩
  · simpa using .binary (.column _ _) (.literal _) he
  · cases d with
    | duckdb =>
      refine ⟨_, rfl, by simp, ?_⟩
      decide
    | _ => exact absurd hd (by decide)

end Relation

end PlanSql
