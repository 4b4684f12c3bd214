import PlanSql.Proofs.Fragment.QualifyClauses
import PlanSql.Proofs.Fragment.WindowOrigins

/-!
# The rows that window functions range over

A window function belongs to the rows of its node's input. As SQL it ranges over the rows that the
WHERE of its SELECT leaves, before QUALIFY removes any: so the conditions of WHERE have to come from
filters below the node that introduced the function, those of QUALIFY from filters above it, and no
other window function may have become part of its arguments or keys. The window operator takes care
of this by itself. A projection or a sort with window functions does not, so these must not share a
SELECT with a filter that became QUALIFY below them, nor with the window functions they speak of, and
a sort must not share one with a filter above it that did not become QUALIFY.
-/
namespace PlanSql

namespace Relation

/-- The nodes whose SELECT the operator at the root becomes part of. -/
def sharedBelow (t : Target) (r : Relation) : List Relation :=
  if r.startsSelect t then [] else r.inputs.flatMap (shared t)

/-- The operator at the root makes window calls, as columns or as sort keys. -/
def introducesWindows : Relation → Bool
  | .filter _ _ _ => false
  | r => r.exprs.any Expr.keepsWindow

/-- A window function of the root has an operand that stands for a window call. -/
def nestsWindows (t : Target) (r : Relation) : Bool :=
  r.exprs.any fun e => e.kept.any fun x => x.isWindow && r.inputs.any fun input =>
    x.keptRefs.any (input.header.leadsTo (r.passesBelow t Expr.showsWindow input))

/-- The operator at the root is a filter that becomes WHERE or HAVING. -/
def restricts (t : Target) : Relation → Bool
  | r@(.filter _ _ conditions) =>
    !conditions.isEmpty && !((r.flags t).windowed && !(r.flags t).aggregated)
  | _ => false

/-- What keeps the window functions of different nodes, and the filters between them, apart. Below a
grouping there are other rows than above it, so these two need not be kept apart. -/
structure WindowsApart (t : Target) (root : Relation) : Prop where
  nested : ∀ n ∈ root.nodes, n.nestsWindows t = false
  qualify : ∀ n ∈ root.nodes, n.introducesWindows = true →
    ∀ m ∈ n.sharedBelow t, m.qualifies t = false
  restrict : ∀ m ∈ root.nodes, m.restricts t = true →
    ∀ n ∈ m.sharedBelow t, n.introducesWindows = true →
      (n.flags t).aggregated ≠ (m.flags t).aggregated

/-- The window functions of the SELECT of `f` are evaluated over the rows of `f'`: the clauses that
are evaluated before them are those that `f'` has, and `f'` has none that are evaluated after. Once a
grouping has come in between, they are no longer evaluated. -/
structure RangesOver (f f' : Fragment) : Prop where
  source : f.select.source = f'.select.source
  selection : f.select.selection = f'.select.selection
  groups : f.aggregated = f'.aggregated →
    f.select.groupBy = f'.select.groupBy ∧ f.select.having = f'.select.having
  qualify : f'.select.qualify = []
  limit : f'.select.isLimited = false

/-- Every window call in the SELECT of `f` is made by the operator of a node that is part of it. It
ranges over the rows of the fragment that this operator worked on, which is what the node's input has
become, unless it stands in a condition of a filter. Only a sort may have window calls over a SELECT
that is to make rows distinct after they are evaluated. -/
structure WindowsRange (t : Target) (r : Relation) (f : Fragment) : Prop where
  introduced : ∀ e ∈ f.select.expressions, CallsIntroduced t r f e
  rows : ∀ n f' w, Within t r f n f' → n.Introduces t f' w →
    (∀ id input cs, n ≠ .filter id input cs) → RangesOver f f'
  distinct : ∀ n f' w, Within t r f n f' → n.Introduces t f' w → f'.select.distinct = true →
    ∃ id input keys, n = .sort id input keys

variable {t : Target} {d : Dialect} {r root input n : Relation} {f f' f₀ g : Fragment}

theorem mem_sharedBelow (hin : r.inputs = [input]) :
    n ∈ r.sharedBelow t ↔ r.startsSelect t = false ∧ n ∈ input.shared t := by
  unfold sharedBelow
  cases r.startsSelect t <;> simp [hin]

theorem WindowsApart.node (h : root.WindowsApart t) (hr : r ∈ root.nodes) : r.WindowsApart t where
  nested n hn := h.nested n (mem_nodes_trans hr hn)
  qualify n hn := h.qualify n (mem_nodes_trans hr hn)
  restrict m hm := h.restrict m (mem_nodes_trans hr hm)

theorem introducesWindows_of_introduces {w : Sql.Expr} (h : n.Introduces t f' w)
    (hn : ∀ id input cs, n ≠ .filter id input cs) : n.introducesWindows = true := by
  obtain ⟨-, -, e, he, x, hx, hw, -⟩ := h
  have hany : n.exprs.any Expr.keepsWindow = true :=
    List.any_eq_true.mpr ⟨e, he, List.any_eq_true.mpr ⟨x, hx, hw⟩⟩
  cases n with
  | filter id input cs => exact absurd rfl (hn id input cs)
  | _ => exact hany

theorem not_introduces_aggregate {id : NodeId} {keys metrics : List NamedExpr}
    {having : List Expr} {w : Sql.Expr}
    (hc : (Relation.aggregate id input keys metrics having).Checked) :
    ¬ (Relation.aggregate id input keys metrics having).Introduces t f' w := by
  rintro ⟨-, -, e, he, x, hx, hw, -⟩
  have hrow := Expr.containsWindow_eq_false.mp (hc.windowless e he)
  exact absurd (hrow x (Expr.mem_parts_of_mem_kept hx)) (by simp [hw])

/-- No window call is part of another, where no window function speaks of a column that stands for
one. -/
theorem Within.windows_children (h : Within (Target.builtin d) r f n f') (hw : r.WellFormed)
    (hn : n.nestsWindows (Target.builtin d) = false) {w : Sql.Expr}
    (hi : n.Introduces (Target.builtin d) f' w) : ∀ c ∈ w.children, c.windows = false := by
  have hwn := hw.node h.mem_nodes
  rcases hwn.checked.plain with hplain | ⟨_, _, _, _, _, rfl⟩
  · obtain ⟨input, hm, e, he, x, hx, hxw, hl⟩ := hi
    obtain ⟨input', f₀, -, hin, hf, henters, -⟩ := h.entered
    obtain rfl : input = input' := by simpa [hin] using hm
    have hpass := hf.passesBelow traces_windows (hwn.input (by simp [hin])) hin henters
    have hmade := (hplain e he).1.part (Expr.mem_parts_of_mem_kept hx)
    refine Expr.windows_children_of_isWindow hmade.formed hxw hl fun ref hr c hc => ?_
    rw [hpass.leadsTo hc]
    simp only [nestsWindows, hin, List.any_eq_false, List.any_cons, List.any_nil, Bool.or_false,
      Bool.and_eq_true, List.any_eq_true, not_and, not_exists] at hn
    simpa using hn e he x hx hxw ref hr
  · exact absurd hi (not_introduces_aggregate hwn.checked)

/-- Above a node that makes window calls, in the same SELECT and on the same side of a grouping, no
filter becomes WHERE or HAVING. -/
theorem WindowsApart.not_restricts (ha : r.WindowsApart (Target.builtin d)) (hw : r.WellFormed)
    (hin : r.inputs = [input]) (h : Within (Target.builtin d) input f n f')
    (hs : r.separates (Target.builtin d) f.flags = false)
    (hg : r.operate (Target.builtin d) f = .ok g) {w : Sql.Expr}
    (hi : n.Introduces (Target.builtin d) f' w) (hn : ∀ id input cs, n ≠ .filter id input cs)
    (hag : g.aggregated = f'.aggregated) : r.restricts (Target.builtin d) = false := by
  have hwi := hw.input (i := input) (by simp [hin])
  have hstarts : r.startsSelect (Target.builtin d) = false := by
    rwa [startsSelect_of_input hin, ← h.becomes.flags_eq hwi]
  have hflags := (h.further hin hs hg).becomes.flags_eq hw
  by_contra hr
  refine ha.restrict r (mem_nodes_self r) (by simpa using hr) n
    ((mem_sharedBelow hin).mpr ⟨hstarts, h.mem_shared hwi⟩)
    (introducesWindows_of_introduces hi hn) ?_
  have hgroup : ∀ id i keys metrics having, n ≠ .aggregate id i keys metrics having := by
    rintro id i keys metrics having rfl
    exact not_introduces_aggregate (hwi.node h.mem_nodes).checked hi
  rw [h.aggregated_eq hwi hgroup, ← hag, ← hflags]
  rfl

/-- The operators that follow in a SELECT leave the rows as they are over which its window functions
range. -/
theorem Within.rangesOver (h : Within (Target.builtin d) r f n f') (hw : r.WellFormed)
    (ha : r.WindowsApart (Target.builtin d)) {w : Sql.Expr}
    (hi : n.Introduces (Target.builtin d) f' w) (hn : ∀ id input cs, n ≠ .filter id input cs)
    (hq : f'.select.qualify = []) (hl : f'.select.isLimited = false) :
    (f'.aggregated = true → f.aggregated = true) ∧ RangesOver f f' := by
  induction h with
  | @here r input f f' g hin _ _ hg =>
    refine ⟨fun haf => ?_, source_operate hg, ?_, fun _ => ?_, hq, hl⟩
    · rcases groups_operate hg with ⟨h, -⟩ | ⟨-, -, -, -, -, h, -⟩ | ⟨-, h⟩
      · exact h.trans haf
      · exact h
      · exact h
    · rcases selection_operate hg with h | ⟨_, _, _, rfl, -⟩
      · exact h
      · exact absurd rfl (hn _ _ _)
    · rcases groups_operate hg with ⟨-, h⟩ | ⟨_, _, _, rfl, -⟩ | ⟨⟨_, _, _, _, _, rfl⟩, -⟩
      · exact h
      · exact absurd rfl (hn _ _ _)
      · exact absurd hi (not_introduces_aggregate hw.checked)
  | @further r input n f f' g hin h hs hg ih =>
    have hi' : input ∈ r.inputs := by simp [hin]
    obtain ⟨hup, hr⟩ := ih (hw.input hi') (ha.node (input_mem_nodes (mem_nodes_self r) hi')) hi hn
      hq hl
    have hnot := ha.not_restricts hw hin h hs hg hi hn
    have hflags := (h.further hin hs hg).becomes.flags_eq hw
    have hgroups := groups_operate hg
    have hup' : f'.aggregated = true → g.aggregated = true := by
      intro haf
      rcases hgroups with ⟨h, -⟩ | ⟨-, -, -, -, -, h, -⟩ | ⟨-, h⟩
      · exact h.trans (hup haf)
      · exact h
      · exact h
    refine ⟨hup', (source_operate hg).trans hr.source, ?_, fun hag => ?_, hq, hl⟩
    · rcases selection_operate hg with h | ⟨_, _, cs, rfl, hcs, hga, hgw⟩
      · exact h.trans hr.selection
      · have haf : g.aggregated = f'.aggregated := by
          cases hf : f'.aggregated with
          | false => exact hga
          | true => exact hup' hf
        have := hnot haf
        simp [restricts, ← hflags, Fragment.flags, hga, hgw, hcs] at this
    · rcases hgroups with ⟨h, hgroup, hhaving⟩ | ⟨_, _, cs, rfl, hcs, hga, -⟩ |
        ⟨⟨_, _, _, _, _, rfl⟩, hga⟩
      · obtain ⟨hg', hh'⟩ := hr.groups (h.symm.trans hag)
        exact ⟨hgroup.trans hg', hhaving.trans hh'⟩
      · have := hnot hag
        simp [restricts, ← hflags, Fragment.flags, hga, hcs] at this
      · -- a grouping does not share the SELECT of another one
        have haf := hup (hag.symm.trans hga)
        simp [separates, Fragment.flags, haf] at hs

theorem limited_of_separates (hin : r.inputs = [input]) {fl : Flags}
    (hs : r.separates t fl = false) : fl.limited = false := by
  cases r with
  | table | join => simp [inputs] at hin
  | _ => simp_all [separates, Flags.settled]

/-- No filter below in the SELECT has become QUALIFY. -/
theorem Within.qualify_eq_nil (h : Within (Target.builtin d) r f n f') (hw : r.WellFormed)
    (ha : r.WindowsApart (Target.builtin d)) (hn : n.introducesWindows = true) :
    f'.select.qualify = [] := by
  obtain ⟨input, f₀, -, hin, hf, henters, -⟩ := h.entered
  have hwi := (hw.node h.mem_nodes).input (i := input) (by simp [hin])
  rcases hf.enters hwi hin henters with ⟨hs, rfl⟩ | ⟨-, a, rfl⟩
  · by_contra hq
    obtain ⟨m, hm, hqual⟩ := hf.exists_qualifies hwi hq
    have := ha.qualify n h.mem_nodes hn m ((mem_sharedBelow hin).mpr ⟨hs, hm⟩)
    exact absurd (hqual.symm.trans this) (by simp)
  · rfl

theorem Becomes.windowsRange (h : Becomes (Target.builtin d) r f) (hw : r.WellFormed)
    (ha : r.WindowsApart (Target.builtin d)) : WindowsRange (Target.builtin d) r f where
  introduced := (h.callsIntroduced hw).2
  rows n f' w hwithin hi hn := by
    obtain ⟨input, f₀, -, hin, -, henters, -⟩ := hwithin.entered
    have hq := hwithin.qualify_eq_nil hw ha (introducesWindows_of_introduces hi hn)
    have hl := limited_of_separates hin (separates_entered hin henters)
    exact (hwithin.rangesOver hw ha hi hn hq hl).2
  distinct n f' w hwithin hi hd := by
    obtain ⟨input, f₀, -, hin, -, henters, -⟩ := hwithin.entered
    have hs := separates_entered hin henters
    cases n with
    | sort => exact ⟨_, _, _, rfl⟩
    | table | join => simp [inputs] at hin
    | limit | distinct =>
      obtain ⟨-, -, e, he, -⟩ := hi
      simp [exprs] at he
    | _ => simp [separates, Flags.settled, Fragment.flags, hd] at hs

/-- The conditions of joins are free of windows. -/
theorem Becomes.windows_ons (h : Becomes t r f) (hw : r.WellFormed) :
    ∀ e ∈ f.select.source.ons, e.windows = false := by
  have joinSide : ∀ (f : Fragment) (a : String), (f.joinSide a).1.ons = [] := by
    intro f a
    unfold Fragment.joinSide
    cases f.select.bareTable? <;> rfl
  induction h with
  | table => simp [Fragment.ofTable, Fragment.ofSource, Sql.SelectOver.ofSource, Sql.FromItem.ons]
  | @join id left right kind cs op l r g a b hop hl hr hab hg ihl ihr =>
    obtain ⟨on, hon, rfl⟩ := Fragment.join_eq_ok hg
    obtain ⟨-, hc, -⟩ := hw.checked
    have hcols : ∀ c ∈ (l.joinSide a).2 ++ (r.joinSide b).2, c.expr.windows = false :=
      List.forall_mem_append.mpr
        ⟨Fragment.windows_under (some a), Fragment.windows_under (some b)⟩
    have hon := Fragment.windows_conditions hon
      (fun c hm => (Expr.isRowLevel_eq_true.mp (hc c hm).2.2).2)
      (Scope.forall_join left.header right.header hcols)
    simpa [Sql.SelectOver.ofSource, Sql.FromItem.ons, joinSide] using hon
  | @step r input f f' g hin hf he hg ih =>
    rw [source_operate hg]
    rcases he with ⟨-, rfl⟩ | ⟨-, a, rfl⟩
    · exact ih (hw.input (by simp [hin]))
    · simp [Fragment.wrapped, Fragment.ofSource, Sql.SelectOver.ofSource, Sql.FromItem.ons]

/-- Where window functions of different nodes, and the filters between them, are kept apart, no
window call in the statement or in its derived tables has a window call inside it. All of these are
SELECTs of what the root, or the input of a node that starts a SELECT, becomes; and in whatever these
become, window calls range over the input of the node that introduced them. -/
theorem toSelect_windows_range {r : Relation} (h : r.Valid)
    (ha : r.WindowsApart (Target.builtin d)) {s : Sql.Select}
    (hs : r.toSelect (Target.builtin d) = .ok s) :
    (∀ q ∈ s.statements, ∀ e ∈ q.source.ons ++ q.expressions, ∀ w ∈ e.parts,
      w.isWindowCall = true → ∀ c ∈ w.children, c.windows = false) ∧
    (∀ q ∈ s.statements, ∃ n ∈ r.tops (Target.builtin d), ∃ f,
      Becomes (Target.builtin d) n f ∧ (q = f.select ∨ q = f.named)) ∧
    ∀ n ∈ r.tops (Target.builtin d), ∀ f, Becomes (Target.builtin d) n f →
      WindowsRange (Target.builtin d) n f := by
  have hrange : ∀ n ∈ r.tops (Target.builtin d), ∀ f, Becomes (Target.builtin d) n f →
      WindowsRange (Target.builtin d) n f := fun n hn f hf =>
    hf.windowsRange (h.wellFormed.node (mem_nodes_of_mem_tops hn))
      (ha.node (mem_nodes_of_mem_tops hn))
  refine ⟨forall_statements h hs fun n hn f hw hf => ?_, ?_, hrange⟩
  · have hflat : ∀ e ∈ f.select.source.ons ++ f.select.expressions, ∀ w ∈ e.parts,
        w.isWindowCall = true → ∀ c ∈ w.children, c.windows = false := by
      intro e he w hp hc
      rcases List.mem_append.mp he with he | he
      · exact absurd (hc.symm.trans (Sql.Expr.windows_eq_false.mp (hf.windows_ons hw e he) w hp))
          (by simp)
      · obtain ⟨m, f', hwithin, hi⟩ := (hrange n hn f hf).introduced e he w hp hc
        have hm := mem_nodes_trans (mem_nodes_of_mem_tops hn) hwithin.mem_nodes
        exact hwithin.windows_children hw (ha.nested m hm) hi
    refine ⟨hflat, ?_⟩
    rw [Fragment.expressions_named]
    exact hflat
  · exact forall_statements h hs fun n hn f _ hf => ⟨⟨n, hn, f, hf, .inl rfl⟩, n, hn, f, hf, .inr rfl⟩

/-- The sum of the numbers of the first row. -/
def firstSummed : Relation :=
  .window 3 first [⟨.window (.aggregate .sum) [.column ⟨none, "n"⟩ .int64] [] [], some "s"⟩]

/-- The first row, if that sum is large. -/
def largeFirst : Relation :=
  .filter 4 firstSummed [.binary .gt (.column ⟨none, "s"⟩ .int64) (.int 1)]

theorem valid_largeFirst : largeFirst.Valid := by
  have ha : Expr.applyAggregate .sum (.column ⟨none, "n"⟩ .int64) false = .ok _ := rfl
  have ho : Expr.applyOver (.aggregate .sum (some (.column ⟨none, "n"⟩ .int64)) false none) [] [] =
      .ok _ := rfl
  have hx : extend 3 first
      [⟨.window (.aggregate .sum) [.column ⟨none, "n"⟩ .int64] [] [], some "s"⟩] =
      .ok firstSummed := rfl
  have he : Expr.applyBinary .gt (.column ⟨none, "s"⟩ .int64) (.int 1) = .ok _ := rfl
  have hf : restrict 4 firstSummed [.binary .gt (.column ⟨none, "s"⟩ .int64) (.int 1)] =
      .ok largeFirst := rfl
  refine ⟨_, .call (.call session_first (.extend (by simp) ?_ hx)
    (by simp [id, firstSummed, first, numbered])) (.restrict (by simp) ?_ hf)
    (by simp [id, largeFirst, firstSummed, first, numbered]), List.mem_cons_self⟩
  · simpa using .windowed (.aggregate (.column _ _) ha) (by simp) (by simp) ho
  · simpa using .binary (.column _ _) (.literal _) he

theorem windowsApart_largeFirst : largeFirst.WindowsApart (Target.builtin .duckdb) where
  nested := by decide
  qualify := by decide
  restrict := by decide

/-- Each of its two window functions has a SELECT with a QUALIFY clause of its own. -/
theorem toSelect_largeFirst_windows_range : ∃ s,
    largeFirst.toSelect (Target.builtin .duckdb) = .ok s ∧
    (∀ q ∈ s.statements, ∀ e ∈ q.source.ons ++ q.expressions, ∀ w ∈ e.parts,
      w.isWindowCall = true → ∀ c ∈ w.children, c.windows = false) ∧
    (∀ q ∈ s.statements, ∃ n ∈ largeFirst.tops (Target.builtin .duckdb), ∃ f,
      Becomes (Target.builtin .duckdb) n f ∧ (q = f.select ∨ q = f.named)) ∧
    ∀ n ∈ largeFirst.tops (Target.builtin .duckdb), ∀ f,
      Becomes (Target.builtin .duckdb) n f → WindowsRange (Target.builtin .duckdb) n f := by
  have hs : largeFirst.toSelect (Target.builtin .duckdb) = .ok _ := rfl
  exact ⟨_, hs, toSelect_windows_range valid_largeFirst windowsApart_largeFirst hs⟩

/-- The sum of the row numbers of a table, by a projection. -/
def numbersSummed : Relation :=
  .project 2 numbered [⟨.window (.aggregate .sum) [.column ⟨none, "n"⟩ .int64] [] [], some "s"⟩]

/-- A projection with a window function becomes part of the SELECT that evaluates its argument. -/
theorem window_in_window : numbersSummed.Valid ∧
    ∀ d : Dialect, d.descriptor.windowRequiresOrderBy = false → ∃ s,
      numbersSummed.toSelect (Target.builtin d) = .ok s ∧
        ∃ w ∈ s.expressions, w.isWindowCall = true ∧ ∃ c ∈ w.children, c.windows = true := by
  have ha : Expr.applyAggregate .sum (.column ⟨none, "n"⟩ .int64) false = .ok _ := rfl
  have ho : Expr.applyOver (.aggregate .sum (some (.column ⟨none, "n"⟩ .int64)) false none) [] [] =
      .ok _ := rfl
  have hp : select 2 numbered
      [⟨.window (.aggregate .sum) [.column ⟨none, "n"⟩ .int64] [] [], some "s"⟩] =
      .ok numbersSummed := rfl
  refine ⟨⟨_, .call session_numbered (.select (by simp) ?_ hp)
    (by simp [id, numbersSummed, numbered]), List.mem_cons_self⟩, fun d hd => ?_⟩
  · simpa using .windowed (.aggregate (.column _ _) ha) (by simp) (by simp) ho
  · cases d with
    | flink => exact absurd hd (by decide)
    | _ => refine ⟨_, rfl, _, List.mem_cons_self, rfl, _, List.mem_cons_self, ?_⟩; decide

end Relation

end PlanSql
