import PlanSql.Proofs.Fragment.GroupClauses
import PlanSql.Proofs.Fragment.RepeatedOutputs

/-!
# The order of distinct rows

A SELECT DISTINCT can be ordered by what it selects and by nothing else. When rows become distinct the
keys that are not selected are dropped; what is sorted afterwards, and what is sorted where all
columns are selected, stays in order by its own keys. So these have to be columns or, where columns
are made of expressions, expressions that one of them is made of.
-/
namespace PlanSql

/-- Every sort key of a statement is an expression of its projection or, if that is the star, one of
the columns that it sees. -/
def Sql.SelectOver.OrdersByOutputs {F : Type} (s : Sql.SelectOver F)
    (visible : List Sql.Expr.Reference) : Prop :=
  ∀ key ∈ s.orderBy,
    match s.projection with
    | some items => ∃ e ∈ items.map (·.expr), e = key.expr ∨ e.same key.expr = true
    | none => ∃ ref ∈ visible, key.expr = .column ref.1 ref.2

namespace Relation

/-- The columns of the SELECT of a relation are those of its source. -/
def showsAll (t : Target) (r : Relation) : Bool :=
  (r.shared t).all fun n => !n.makesColumns

/-- A sort goes by columns, or by expressions that repeat an output, if distinct rows are sorted by
it; it goes by columns if it sorts what becomes distinct with all columns of the source. -/
structure SortsDistinctByOutputs (t : Target) (root : Relation) : Prop where
  above : ∀ id input keys, .sort id input keys ∈ root.nodes →
    ((Relation.sort id input keys).flags t).distinct = true →
    ∀ k ∈ keys, (k.expr.column?).isSome ∨ (Relation.sort id input keys).Repeats t k.expr
  below : ∀ r ∈ root.nodes, r.showsAll t = true → (r.flags t).distinct = true →
    ∀ id input keys, .sort id input keys ∈ r.shared t → ∀ k ∈ keys, (k.expr.column?).isSome

variable {t : Target} {d : Dialect} {root r input : Relation} {f f' g : Fragment}

/-- An expression that is a column becomes one of those of the fragment. -/
theorem mem_columns_of_column? {header : Header} {e : Expr} {s : Sql.Expr}
    (hl : e.lower t (f.scope header) = .ok s) (hc : (e.column?).isSome) :
    s ∈ f.columns.map (·.expr) := by
  obtain ⟨ref, hr⟩ := Option.isSome_iff_exists.mp hc
  obtain ⟨type, rfl⟩ := Expr.column?_eq_some.mp hr
  obtain ⟨i, c, -, hi, hce⟩ := Scope.columns_eq_ok (Expr.lower_eq_ok.mp hl)
  exact List.mem_map.mpr ⟨c, List.mem_of_getElem? hi, hce⟩

theorem showsAll_of_input (hin : r.inputs = [input]) (hm : r.makesColumns = false)
    (hs : r.startsSelect t = false → input.showsAll t = true) : r.showsAll t = true := by
  refine List.all_eq_true.mpr fun n hn => ?_
  rcases (mem_shared_of_input hin).mp hn with rfl | ⟨hstart, hn⟩
  · rw [hm]
    rfl
  · exact List.all_eq_true.mp (hs hstart) n hn

/-- A sort key of a fragment comes from a sort in its SELECT, and is one of the columns if that sort
goes by a column. -/
def SortedBy (t : Target) (r : Relation) (f : Fragment) (key : SortKey Sql.Expr) : Prop :=
  ∃ id input keys, .sort id input keys ∈ r.shared t ∧
    ∃ k ∈ keys, (k.expr.column?).isSome → key.expr ∈ f.columns.map (·.expr)

/-- A SELECT of all columns has no operator that makes columns, and its sort keys come from the sorts
in it. -/
theorem Becomes.star (h : Becomes (Target.builtin d) r f) (hw : r.WellFormed)
    (hp : f.select.projection = none) :
    r.showsAll (Target.builtin d) = true ∧
      ∀ key ∈ f.select.orderBy, SortedBy (Target.builtin d) r f key := by
  induction h with
  | table => exact ⟨rfl, by simp [Fragment.ofTable, Fragment.ofSource, Sql.SelectOver.ofSource]⟩
  | join _ _ _ _ hg =>
    obtain ⟨on, -, rfl⟩ := Fragment.join_eq_ok hg
    simp at hp
  | @step r i f f' g hin hf he hg ih =>
    have hwi := hw.input (i := i) (by simp [hin])
    have below : f'.select.projection = none →
        (r.startsSelect (Target.builtin d) = false → i.showsAll (Target.builtin d) = true) ∧
          ∀ key ∈ f'.select.orderBy, SortedBy (Target.builtin d) r f' key := by
      intro hp
      rcases hf.enters hwi hin he with ⟨hs, rfl⟩ | ⟨hs, a, rfl⟩
      · obtain ⟨hall, hkeys⟩ := ih hwi hp
        refine ⟨fun _ => hall, fun key hkey => ?_⟩
        obtain ⟨id, input, keys, hn, rest⟩ := hkeys key hkey
        exact ⟨id, input, keys, (mem_shared_of_input hin).mpr (.inr ⟨hs, hn⟩), rest⟩
      · simp [hs, Fragment.wrapped, Fragment.ofSource, Sql.SelectOver.ofSource]
    have hm : r.makesColumns = false :=
      Bool.eq_false_iff.mpr fun hm => projection_operate hin hm hg hp
    obtain ⟨hcols, hproj⟩ := columns_operate hm hg
    obtain ⟨hall, hkeys⟩ := below (hproj ▸ hp)
    refine ⟨showsAll_of_input hin hm hall, fun key hkey => ?_⟩
    unfold SortedBy
    rw [hcols]
    rcases orderBy_operate hg hkey with hkey | ⟨id, input, keys, rfl, k, hk, hl⟩
    · exact hkeys key hkey
    · exact ⟨id, input, keys, mem_shared_self _, k, hk, mem_columns_of_column? hl⟩

/-- An operator that makes columns has no place in a SELECT of distinct rows. -/
theorem distinct_of_separates {flags : Flags} (hin : r.inputs = [input])
    (hm : r.makesColumns = true) (hs : r.separates t flags = false) : flags.distinct = false := by
  cases r <;> simp_all [inputs, makesColumns, separates, Flags.settled]

/-- Distinct rows are in the order of what is selected. -/
def OrdersSelected (f : Fragment) : Prop :=
  ∀ items, f.select.projection = some items → f.select.distinct = true →
    ∀ key ∈ f.select.orderBy, ∃ e ∈ items.map (·.expr), e = key.expr ∨ e.same key.expr = true

/-- What sorts distinct rows by columns or repeated outputs sorts them by what is selected. -/
theorem Becomes.ordersSelected (h : Becomes (Target.builtin d) r f) (hw : r.WellFormed)
    (hkeys : ∀ id input keys, .sort id input keys ∈ r.nodes →
      ((Relation.sort id input keys).flags (Target.builtin d)).distinct = true →
      ∀ k ∈ keys, (k.expr.column?).isSome ∨
        (Relation.sort id input keys).Repeats (Target.builtin d) k.expr) : OrdersSelected f := by
  induction h with
  | table => simp [OrdersSelected, Fragment.ofTable, Fragment.ofSource, Sql.SelectOver.ofSource]
  | join _ _ _ _ hg =>
    obtain ⟨on, -, rfl⟩ := Fragment.join_eq_ok hg
    simp [OrdersSelected, Sql.SelectOver.ofSource]
  | @step r i f f' g hin hf he hg ih =>
    have hi : i ∈ r.inputs := by simp [hin]
    have hg' : Becomes (Target.builtin d) r g := .step hin hf he hg
    have hsep := separates_entered hin he
    have below : OrdersSelected f' := by
      rcases he with ⟨-, rfl⟩ | ⟨-, a, rfl⟩
      · exact ih (hw.input hi) fun id input keys hn => hkeys id input keys (mem_nodes_of_input hi hn)
      · simp [OrdersSelected, Fragment.wrapped, Fragment.ofSource, Sql.SelectOver.ofSource]
    intro items hp hd key hkey
    rcases distinct_operate hg hd with hd' | ⟨id, input, rfl, rfl⟩
    · have hm : r.makesColumns = false := Bool.eq_false_iff.mpr fun hm =>
        absurd (hd'.symm.trans (distinct_of_separates hin hm hsep)) (by simp)
      obtain ⟨hshown, hproj⟩ := columns_operate hm hg
      rcases orderBy_operate hg hkey with hkey | ⟨id, input, keys, rfl, k, hk, hl⟩
      · exact below items (hproj ▸ hp) hd' key hkey
      · have hdis : ((Relation.sort id input keys).flags (Target.builtin d)).distinct = true :=
          hg'.flags_eq hw ▸ hd
        have hkc : key.expr ∈ g.columns.map (·.expr) := by
          rcases hkeys id input keys (mem_nodes_self _) hdis k hk with hcol | hrepeats
          · rw [hshown]
            exact mem_columns_of_column? hl hcol
          · refine hg'.mem_columns_of_repeats hw (hw.checked k hk).2.1 hrepeats ?_
            rw [Fragment.scope, hshown]
            exact hl
        rw [(hg'.grounded hw).exprs_eq hp] at hkc
        exact ⟨key.expr, hkc, .inl rfl⟩
    · replace hp : f'.select.projection = some items := hp
      obtain ⟨-, hsame⟩ : key ∈ f'.select.orderBy ∧
          (items.any fun item => item.expr.same key.expr) = true := by
        simpa only [Fragment.distinct, Fragment.selectedKeys, hp, List.mem_filter] using hkey
      obtain ⟨item, hi, hs⟩ := List.any_eq_true.mp hsame
      exact ⟨item.expr, List.mem_map.mpr ⟨item, hi, rfl⟩, .inr hs⟩

/-- Everywhere in a plan that sorts distinct rows by outputs, the SELECT of a fragment is ordered by
what it selects. -/
theorem Becomes.ordersByOutputs {n : Relation} (h : Becomes (Target.builtin d) n f)
    (hw : n.WellFormed) (hn : ∀ m ∈ n.nodes, m ∈ root.nodes)
    (hs : SortsDistinctByOutputs (Target.builtin d) root) (hd : f.select.distinct = true) :
    ∃ visible, Sees root f.select.source visible ∧ f.select.OrdersByOutputs visible := by
  obtain ⟨visible, hsees, -, -, hp⟩ := (h.grounded hw).sees
  refine ⟨visible, hsees.mono hn, fun key hkey => ?_⟩
  cases hproj : f.select.projection with
  | some items =>
    exact h.ordersSelected hw (fun id input keys hm => hs.above id input keys (hn _ hm))
      items hproj hd key hkey
  | none =>
    rw [hproj] at hp
    obtain ⟨rfl, hcols⟩ := hp
    obtain ⟨hall, hkeys⟩ := h.star hw hproj
    obtain ⟨id, input, keys, hm, k, hk, hcol⟩ := hkeys key hkey
    have hdis : (n.flags (Target.builtin d)).distinct = true := h.flags_eq hw ▸ hd
    have hcol := hcol (hs.below n (hn n (mem_nodes_self n)) hall hdis id input keys hm k hk)
    rw [hcols] at hcol
    obtain ⟨name, hname, he⟩ := List.mem_map.mp hcol
    exact ⟨(none, name), List.mem_map.mpr ⟨name, hname, rfl⟩, he.symm⟩

theorem ordersByOutputs_named {visible : List Sql.Expr.Reference}
    (h : f.select.OrdersByOutputs visible) : f.named.OrdersByOutputs visible := by
  intro key hkey
  have hkey := h key hkey
  cases hp : f.select.projection with
  | none => simpa [Fragment.named, hp] using hkey
  | some items =>
    simpa only [Fragment.named, hp, Option.map_some, Fragment.namedItems_exprs] using hkey

/-- Every SELECT DISTINCT in the statement of a relation, at every depth, is ordered by expressions
that it selects or, if it selects all columns, by some of these, provided that distinct rows are
sorted by columns or repeated outputs, and those that become distinct with all columns of a source by
columns. -/
theorem toSelect_ordersByOutputs {r : Relation} (h : r.Valid)
    (hc : SortsDistinctByOutputs (Target.builtin d) r) {s : Sql.Select}
    (hs : r.toSelect (Target.builtin d) = .ok s) :
    ∀ q ∈ s.statements, q.distinct = true →
      ∃ visible, Sees r q.source visible ∧ q.OrdersByOutputs visible := by
  refine forall_statements h hs fun n hn f hw hf => ?_
  have hsub : ∀ m ∈ n.nodes, m ∈ r.nodes :=
    fun m hm => mem_nodes_trans (mem_nodes_of_mem_tops hn) hm
  refine ⟨hf.ordersByOutputs hw hsub hc, fun hd => ?_⟩
  obtain ⟨visible, hsees, ho⟩ := hf.ordersByOutputs hw hsub hc hd
  exact ⟨visible, hsees, ordersByOutputs_named ho⟩

/-- The amounts that were sold, each of them once. -/
def amounts : Relation :=
  .distinct 2 (.project 1 sales [⟨.column ⟨none, "amount"⟩ .int64, none⟩])

theorem session_amounts : Session
    [amounts, .project 1 sales [⟨.column ⟨none, "amount"⟩ .int64, none⟩], sales] := by
  have ht : scan 0 "sales" none [⟨"region", .string, true⟩, ⟨"amount", .int64, true⟩] =
      .ok sales := rfl
  have hp : select 1 sales [⟨.column ⟨none, "amount"⟩ .int64, none⟩] = .ok _ := rfl
  exact .call (.call (.call .start (.scan ht) (by simp))
      (.select (by simp) (by simpa using .column _ _) hp) (by simp [id, sales]))
    (.deduplicate (by simp)) (by simp [id, sales, amounts])

/-- The amounts in order. -/
def sortedAmounts : Relation := .sort 3 amounts [⟨.column ⟨none, "amount"⟩ .int64, false⟩]

theorem valid_sortedAmounts : sortedAmounts.Valid := by
  have hs : sortBy 3 amounts [⟨.column ⟨none, "amount"⟩ .int64, false⟩] =
      .ok sortedAmounts := rfl
  exact ⟨_, .call session_amounts (.sortBy (by simp) (by simpa using .column _ _) hs)
    (by simp [id, sortedAmounts, amounts, sales]), List.mem_cons_self⟩

theorem sortsDistinctByOutputs_sortedAmounts (t : Target) :
    SortsDistinctByOutputs t sortedAmounts := by
  have hkeys : ∀ id input keys, .sort id input keys ∈ sortedAmounts.nodes →
      ∀ k ∈ keys, (k.expr.column?).isSome := by
    intro id input keys hm k hk
    obtain ⟨-, -, rfl⟩ : id = 3 ∧ input = amounts ∧
        keys = [⟨.column ⟨none, "amount"⟩ .int64, false⟩] := by
      simpa [sortedAmounts, amounts, sales, nodes] using hm
    obtain rfl := List.mem_singleton.mp hk
    rfl
  exact ⟨fun id input keys hm _ k hk => .inl (hkeys id input keys hm k hk),
    fun r hr _ _ id input keys hm =>
    hkeys id input keys (mem_nodes_trans hr (mem_nodes_of_mem_shared hm))⟩

/-- The amounts with what they are as refunds. -/
def amountsAndRefunds : Relation :=
  .project 1 sales [⟨.column ⟨none, "amount"⟩ .int64, none⟩,
    ⟨.unary .neg (.column ⟨none, "amount"⟩ .int64), some "refund"⟩]

/-- Each amount once, in the order of what the refunds are computed as. -/
def sortedRefunds : Relation :=
  .sort 3 (.distinct 2 amountsAndRefunds)
    [⟨.unary .neg (.column ⟨none, "amount"⟩ .int64), false⟩]

theorem valid_sortedRefunds : sortedRefunds.Valid := by
  have ht : scan 0 "sales" none [⟨"region", .string, true⟩, ⟨"amount", .int64, true⟩] =
      .ok sales := rfl
  have hneg : (Expr.unary .neg (.column ⟨none, "amount"⟩ .int64)).Made :=
    .unary (.column _ _) (rfl : Expr.applyUnary .neg (.column ⟨none, "amount"⟩ .int64) = .ok _)
  have hp : select 1 sales [⟨.column ⟨none, "amount"⟩ .int64, none⟩,
      ⟨.unary .neg (.column ⟨none, "amount"⟩ .int64), some "refund"⟩] =
        .ok amountsAndRefunds := rfl
  have hs : sortBy 3 (.distinct 2 amountsAndRefunds)
      [⟨.unary .neg (.column ⟨none, "amount"⟩ .int64), false⟩] = .ok sortedRefunds := rfl
  have hdistinct : Session [.distinct 2 amountsAndRefunds, amountsAndRefunds, sales] :=
    .call (.call (.call .start (.scan ht) (by simp))
        (.select (by simp) (by simpa using ⟨.column _ _, hneg⟩) hp)
        (by simp [id, sales, amountsAndRefunds]))
      (.deduplicate (by simp)) (by simp [id, sales, amountsAndRefunds])
  exact ⟨_, .call hdistinct (.sortBy (by simp) (by simpa using hneg) hs)
    (by simp [id, sortedRefunds, amountsAndRefunds, sales]), List.mem_cons_self⟩

theorem sortsDistinctByOutputs_sortedRefunds :
    SortsDistinctByOutputs (Target.builtin .sqlite) sortedRefunds := by
  refine ⟨fun id input keys hm _ k hk => .inr ?_, fun r hr hall hdis => ?_⟩
  · obtain ⟨rfl, rfl, rfl⟩ : id = 3 ∧ input = .distinct 2 amountsAndRefunds ∧
        keys = [⟨.unary .neg (.column ⟨none, "amount"⟩ .int64), false⟩] := by
      simpa [sortedRefunds, amountsAndRefunds, sales, nodes] using hm
    obtain rfl := List.mem_singleton.mp hk
    refine ⟨_, rfl, fun ref u hu => ?_, List.mem_cons_of_mem _ List.mem_cons_self⟩
    obtain ⟨rfl, rfl⟩ : ref = ⟨none, "amount"⟩ ∧ u = .int64 := by
      simpa [Expr.parts, Expr.walk, Expr.visit, Expr.inside] using hu
    rfl
  · have hmakes : ∀ r ∈ sortedRefunds.nodes,
        (r.flags (Target.builtin .sqlite)).distinct = true →
          r.showsAll (Target.builtin .sqlite) = false := by
      simp only [sortedRefunds, amountsAndRefunds, sales, nodes, List.forall_mem_cons]
      decide
    simp [hmakes r hr hdis] at hall

theorem toSelect_sortedAmounts_ordersByOutputs :
    (∃ s, sortedAmounts.toSelect (Target.builtin .sqlite) = .ok s ∧
      ∀ q ∈ s.statements, q.distinct = true →
        ∃ visible, Sees sortedAmounts q.source visible ∧ q.OrdersByOutputs visible) ∧
    ∃ s, sortedRefunds.toSelect (Target.builtin .sqlite) = .ok s ∧
      ∀ q ∈ s.statements, q.distinct = true →
        ∃ visible, Sees sortedRefunds q.source visible ∧ q.OrdersByOutputs visible := by
  have hs : sortedAmounts.toSelect (Target.builtin .sqlite) = .ok _ := rfl
  have hr : sortedRefunds.toSelect (Target.builtin .sqlite) = .ok _ := rfl
  exact ⟨⟨_, hs, toSelect_ordersByOutputs valid_sortedAmounts
      (sortsDistinctByOutputs_sortedAmounts _) hs⟩,
    ⟨_, hr, toSelect_ordersByOutputs valid_sortedRefunds sortsDistinctByOutputs_sortedRefunds hr⟩⟩

/-- The amounts in reverse, as an order of their negatives. -/
def reversedAmounts : Relation :=
  .sort 3 amounts [⟨.unary .neg (.column ⟨none, "amount"⟩ .int64), false⟩]

/-- Distinct amounts are put in the order of expressions that are not selected. -/
theorem distinct_rows_misordered : reversedAmounts.Valid ∧ ∀ d, ∃ s,
    reversedAmounts.toSelect (Target.builtin d) = .ok s ∧ s.distinct = true ∧
      ∀ visible, ¬ s.OrdersByOutputs visible := by
  have hn : Expr.applyUnary .neg (.column ⟨none, "amount"⟩ .int64) = .ok _ := rfl
  have hs : sortBy 3 amounts [⟨.unary .neg (.column ⟨none, "amount"⟩ .int64), false⟩] =
      .ok reversedAmounts := rfl
  refine ⟨⟨_, .call session_amounts (.sortBy (by simp) (by simpa using .unary (.column _ _) hn) hs)
    (by simp [id, reversedAmounts, amounts, sales]), List.mem_cons_self⟩, fun d => ?_⟩
  have hnot : ∀ s : Sql.Select, s.projection = some [⟨.column none "amount", none⟩] →
      s.orderBy = [⟨.unary .minus (.column none "amount"), false⟩] →
      ∀ visible, ¬ s.OrdersByOutputs visible := by
    intro s hp ho visible h
    have hkey := h ⟨.unary .minus (.column none "amount"), false⟩ (by simp [ho])
    rw [hp] at hkey
    obtain ⟨e, he, hsame⟩ := hkey
    obtain rfl := List.mem_singleton.mp he
    rcases hsame with he | hsame
    · exact absurd he (by simp)
    · simp [Sql.Expr.same] at hsame
  cases d <;> exact ⟨_, rfl, rfl, hnot _ rfl rfl⟩

end Relation

end PlanSql
