import PlanSql.Proofs.Fragment.GroupClauses
import PlanSql.Proofs.Fragment.Sharing

/-!
# Aggregations stay aggregations

SQL evaluates a SELECT for groups if it has grouping keys or calls an aggregate, not if somebody meant
it to. The SELECT of an aggregation does so if the aggregation has keys, or if one of its metrics or
conditions keeps an aggregate in SQL; the operators that become part of that SELECT leave both alone.
-/
namespace PlanSql

/-- A statement is evaluated for groups: it has grouping keys, or an aggregate is called in its
projection or in HAVING, in an expression without any OVER. -/
def Sql.SelectOver.IsAggregation {F : Type} (s : Sql.SelectOver F) : Prop :=
  s.groupBy ≠ [] ∨ ∃ e ∈ (s.projection.getD []).map (·.expr) ++ s.having,
    e.aggregates = true ∧ e.windows = false

namespace Relation

/-- A statement is that of a node of the plan which has the operator of another node in its
SELECT. -/
def Produces (t : Target) (root n : Relation) (q : Sql.Select) : Prop :=
  ∃ m ∈ root.nodes, n ∈ m.shared t ∧ ∃ f, Becomes t m f ∧ (q = f.select ∨ q = f.named)

/-- A statement groups by the keys of an aggregation, shows keys and metrics and has its conditions,
all of them over columns of the input. -/
def Evaluates (t : Target) (input : Relation) (keys metrics : List NamedExpr)
    (having : List Expr) (q : Sql.Select) : Prop :=
  ∃ columns conjuncts,
    let scope : Scope := .columns input.header columns
    List.Forall₂ (fun n e => n.expr.lower t scope = .ok e) keys q.groupBy ∧
    List.Forall₂ (fun n e => n.expr.lower t scope = .ok e) (keys ++ metrics)
      ((q.projection.getD []).map (·.expr)) ∧
    Fragment.conditions t scope having = .ok conjuncts ∧ conjuncts ⊆ q.having

/-- An aggregation has grouping keys, or a metric or a condition in whose SQL an aggregate is. -/
def KeepsAggregation (keys metrics : List NamedExpr) (having : List Expr) : Prop :=
  keys ≠ [] ∨ ∃ e ∈ metrics.map (·.expr) ++ having, e.keepsAggregate = true

variable {t : Target} {d : Dialect} {root r input : Relation} {f g : Fragment}
  {keys metrics : List NamedExpr} {having : List Expr}

/-- An aggregation over columns without windows. -/
theorem isAggregation_aggregate
    (hc : (Relation.aggregate 0 input keys metrics having).Checked)
    (hk : KeepsAggregation keys metrics having) (hf : ∀ c ∈ f.columns, c.expr.windows = false)
    (hg : f.aggregate (Target.builtin d) input.header keys metrics having = .ok g) :
    g.select.IsAggregation := by
  obtain ⟨keyItems, keyColumns, metricItems, metricColumns, ss, hko, hmo, hss, rfl⟩ :=
    Fragment.aggregate_eq_ok hg
  obtain ⟨hh, -, -, -, hmade, hm, -⟩ := hc
  have hscope := Scope.forall_columns input.header (P := fun c => c.windows = false) hf
  -- what keeps an aggregate calls one, and nowhere under an OVER
  have hcall : ∀ e : Expr, e.Made → e.containsWindow = false → e.keepsAggregate = true →
      ∀ s, e.lower (Target.builtin d) (f.scope input.header) = .ok s →
        s.aggregates = true ∧ s.windows = false :=
    fun e hm hw ha s hl =>
      ⟨Expr.aggregates_lower hm hw ha hl, Expr.windows_lower_eq_false hl hw hscope⟩
  rcases hk with hk | ⟨e, he, ha⟩
  · left
    intro hnil
    have hlen := (Fragment.outputs_items hko).length_eq
    rw [List.map_eq_nil_iff.mp hnil] at hlen
    exact hk (List.length_eq_zero_iff.mp hlen)
  · right
    rcases List.mem_append.mp he with he | he
    · obtain ⟨n, hn, rfl⟩ := List.mem_map.mp he
      obtain ⟨item, hi, hl⟩ := forall₂_mem_left (Fragment.outputs_items hmo) hn
      refine ⟨item.expr, ?_, hcall n.expr (hmade n hn).1 (hm n hn).2.1 ha _ hl⟩
      exact List.mem_append_left _ (List.mem_map.mpr ⟨item, List.mem_append_right _ hi, rfl⟩)
    · obtain ⟨p, hp, hpa⟩ := Expr.exists_conjunct_of_keepsAggregate ha
      obtain ⟨s, hs, hl⟩ := forall₂_mem_left (Fragment.conditions_eq_ok.mp hss)
        (List.mem_flatMap.mpr ⟨e, he, hp⟩)
      have hparts := Expr.mem_parts_of_mem_conjuncts hp
      refine ⟨s, ?_, hcall p ((hh e he).1.part hparts)
        (Expr.containsWindow_of_part hparts (hh e he).2.2) hpa s hl⟩
      exact List.mem_append_right _ (List.mem_append_right _ hs)

theorem evaluates_aggregate
    (hg : f.aggregate t input.header keys metrics having = .ok g) :
    Evaluates t input keys metrics having g.select := by
  obtain ⟨keyItems, keyColumns, metricItems, metricColumns, ss, hko, hmo, hss, rfl⟩ :=
    Fragment.aggregate_eq_ok hg
  have hk := Fragment.outputs_items hko
  refine ⟨f.columns, ss, ?_, ?_, hss, List.subset_append_right _ _⟩
  · rw [List.forall₂_map_right_iff]
    exact hk
  · rw [List.forall₂_map_right_iff]
    exact List.rel_append hk (Fragment.outputs_items hmo)

/-- The SELECT of an aggregation stays what it is when further operators become part of it. -/
theorem Becomes.aggregation (h : Becomes (Target.builtin d) r f) (hw : r.WellFormed)
    {id : NodeId} (hn : .aggregate id input keys metrics having ∈ r.shared (Target.builtin d))
    (hk : KeepsAggregation keys metrics having) :
    f.aggregated = true ∧ Evaluates (Target.builtin d) input keys metrics having f.select ∧
      f.select.IsAggregation := by
  induction h with
  | table | join => simp [shared] at hn
  | @step r i f f' g hin hf he hg ih =>
    have hi : i ∈ r.inputs := by simp [hin]
    have hwi := hw.input hi
    have hsep := separates_entered hin he
    rcases (mem_shared_of_input hin).mp hn with rfl | ⟨hs, hn⟩
    · obtain rfl := List.singleton_inj.mp hin
      have hu : f'.windowed = false :=
        (Bool.or_eq_false_iff.mp (Bool.or_eq_false_iff.mp hsep).1).2
      have hagg : g.aggregated = true := by
        obtain ⟨_, _, _, _, _, -, -, -, rfl⟩ := Fragment.aggregate_eq_ok hg
        rfl
      exact ⟨hagg, evaluates_aggregate hg,
        isAggregation_aggregate hw.checked hk ((hf.flagged_entered hwi he).unwindowed hu) hg⟩
    · obtain ⟨-, rfl⟩ | ⟨hb, -⟩ := hf.enters hwi hin he
      · obtain ⟨hagg, ⟨columns, ss, hkeys, hshown, hss, hsub⟩, hgroups⟩ := ih hwi hn
        -- an operator that shares the SELECT of groups is a filter, a sort, a limit or a distinct
        cases r with
        | table | join => simp [inputs] at hin
        | project | aggregate | window => simp [separates, Fragment.flags, hagg] at hsep
        | filter id' i' cs =>
          obtain ⟨cs', -, ⟨-, rfl⟩ | ⟨ha, -⟩ | ⟨ha, -⟩⟩ := Fragment.filter_eq_ok hg
          · have hsub' := List.Subset.trans hsub (List.subset_append_left f'.select.having cs')
            refine ⟨hagg, ⟨columns, ss, hkeys, hshown, hss, hsub'⟩, hgroups.imp_right ?_⟩
            rintro ⟨e, he, hcall⟩
            refine ⟨e, ?_, hcall⟩
            rw [← List.append_assoc]
            exact List.mem_append_left _ he
          · simp [hagg] at ha
          · simp [hagg] at ha
        | sort id' i' ks =>
          obtain ⟨_, -, rfl⟩ := Fragment.sort_eq_ok hg
          exact ⟨hagg, ⟨columns, ss, hkeys, hshown, hss, hsub⟩, hgroups⟩
        | limit id' i' count offset | distinct id' i' =>
          obtain rfl := Except.ok.inj hg
          exact ⟨hagg, ⟨columns, ss, hkeys, hshown, hss, hsub⟩, hgroups⟩
      · simp [hs] at hb

theorem Produces.mono {n : Relation} {q : Sql.Select} (h : Produces t input n q)
    (hi : input ∈ r.inputs) : Produces t r n q := by
  obtain ⟨m, hm, rest⟩ := h
  exact ⟨m, mem_nodes_of_input hi hm, rest⟩

theorem projection_of_evaluates {q : Sql.Select} (h : Evaluates t input keys metrics having q)
    (hne : ¬ (keys = [] ∧ metrics = [])) : q.projection ≠ none := by
  obtain ⟨columns, ss, -, hshown, -⟩ := h
  intro hp
  rw [hp] at hshown
  exact hne (List.append_eq_nil_iff.mp (List.forall₂_nil_right_iff.mp hshown))

section Within

variable {id : NodeId} (hk : KeepsAggregation keys metrics having)

/-- An aggregation is in the SELECT of a fragment or in one within. -/
def AggregatedWithin (t : Target) (r : Relation) (f : Fragment) (n : Relation) : Prop :=
  n ∈ r.shared t ∨ ∃ q ∈ f.select.source.selects, Produces t r n q

/-- The SELECT of an input becomes a statement within. -/
theorem AggregatedWithin.named {n : Relation} (h : AggregatedWithin t input f n)
    (hf : Becomes t input f) (hi : input ∈ r.inputs) :
    ∃ q ∈ f.named.statements, Produces t r n q := by
  rcases h with hn | ⟨q, hq, hp⟩
  · exact ⟨f.named, f.named.mem_statements_self, input,
      mem_nodes_of_input hi (mem_nodes_self input), hn, f, hf, .inr rfl⟩
  · exact ⟨q, List.mem_cons_of_mem _ hq, hp.mono hi⟩

include hk

/-- A side of a join with an aggregation in its SELECT is no bare table. -/
theorem AggregatedWithin.joinSide {i : Relation}
    (h : AggregatedWithin (Target.builtin d) i f (.aggregate id input keys metrics having))
    (hf : Becomes (Target.builtin d) i f) (hw : i.WellFormed) (hi : i ∈ r.inputs)
    (hne : ¬ (keys = [] ∧ metrics = [])) (aliasName : String) :
    ∃ q ∈ (f.joinSide aliasName).1.selects,
      Produces (Target.builtin d) r (.aggregate id input keys metrics having) q := by
  unfold Fragment.joinSide
  cases hb : f.select.bareTable? with
  | none => exact h.named hf hi
  | some name =>
    obtain ⟨⟨tableAlias, hs⟩, hp, -⟩ := Sql.Select.bareTable?_eq_some hb
    rcases h with hn | ⟨q, hq, -⟩
    · exact absurd hp (projection_of_evaluates (hf.aggregation hw hn hk).2.1 hne)
    · simp [hs, Sql.FromItem.selects] at hq

theorem Becomes.aggregatedWithin (h : Becomes (Target.builtin d) r f) (hw : r.WellFormed)
    (hn : .aggregate id input keys metrics having ∈ r.nodes) :
    AggregatedWithin (Target.builtin d) r f (.aggregate id input keys metrics having) := by
  have hne : ¬ (keys = [] ∧ metrics = []) := (hw _ hn).2.1
  induction h with
  | table => simp [nodes] at hn
  | @join id' left right kind cs op l r' g a b _ hl hr _ hg ihl ihr =>
    obtain ⟨on, -, rfl⟩ := Fragment.join_eq_ok hg
    have hil : left ∈ (Relation.join id' left right kind cs).inputs := List.mem_cons_self
    have hir : right ∈ (Relation.join id' left right kind cs).inputs := by simp [inputs]
    have hn : .aggregate id input keys metrics having ∈ left.nodes ∨
        .aggregate id input keys metrics having ∈ right.nodes := by simpa [nodes] using hn
    right
    rcases hn with hn | hn
    · obtain ⟨q, hq, hp⟩ :=
        (ihl (hw.input hil) hn).joinSide hk hl (hw.input hil) hil hne a
      exact ⟨q, List.mem_append_left _ hq, hp⟩
    · obtain ⟨q, hq, hp⟩ :=
        (ihr (hw.input hir) hn).joinSide hk hr (hw.input hir) hir hne b
      exact ⟨q, List.mem_append_right _ hq, hp⟩
  | @step r i f f' g hin hf he hg ih =>
    rcases mem_nodes.mp hn with rfl | ⟨i', hi, hn⟩
    · exact .inl (mem_shared_self _)
    · obtain rfl : i' = i := by simpa [hin] using hi
      have hwithin := ih (hw.input hi) hn
      rcases hf.enters (hw.input hi) hin he with ⟨hs, rfl⟩ | ⟨-, a, rfl⟩
      · refine hwithin.imp (fun hn => (mem_shared_of_input hin).mpr (.inr ⟨hs, hn⟩)) ?_
        rintro ⟨q, hq, hp⟩
        exact ⟨q, by rwa [source_operate hg], hp.mono hi⟩
      · right
        rw [source_operate hg]
        exact hwithin.named hf hi

end Within

/-- In the statement of a relation, at some depth, is the SELECT of every aggregation that has
grouping keys or keeps an aggregate; and every SELECT made of such an aggregation, whatever operators
above it share the SELECT, has its keys, metrics and conditions and is evaluated for groups. -/
theorem toSelect_aggregations {r : Relation} (h : r.Valid) {s : Sql.Select}
    (hs : r.toSelect (Target.builtin d) = .ok s) {id : NodeId} {input : Relation}
    {keys metrics : List NamedExpr} {having : List Expr}
    (hn : .aggregate id input keys metrics having ∈ r.nodes)
    (hk : KeepsAggregation keys metrics having) :
    (∃ q ∈ s.statements,
      Produces (Target.builtin d) r (.aggregate id input keys metrics having) q) ∧
    ∀ q, Produces (Target.builtin d) r (.aggregate id input keys metrics having) q →
      Evaluates (Target.builtin d) input keys metrics having q ∧ q.IsAggregation := by
  obtain ⟨f, hf, rfl⟩ := toSelect_becomes h.coherent hs
  constructor
  · rcases hf.aggregatedWithin hk h.wellFormed hn with hshared | ⟨q, hq, hp⟩
    · exact ⟨f.select, f.select.mem_statements_self, r, mem_nodes_self r, hshared, f, hf, .inl rfl⟩
    · exact ⟨q, List.mem_cons_of_mem _ hq, hp⟩
  · rintro q ⟨m, hm, hshared, g, hg, hq⟩
    obtain ⟨-, heval, hgroups⟩ := hg.aggregation (h.wellFormed.node hm) hshared hk
    rcases hq with rfl | rfl
    · exact ⟨heval, hgroups⟩
    · unfold Evaluates Sql.SelectOver.IsAggregation
      rw [Fragment.projection_named]
      exact ⟨heval, hgroups⟩

/-- The amount sold in all. -/
def grandTotal : Relation :=
  .aggregate 1 sales []
    [⟨.aggregate .sum (some (.column ⟨none, "amount"⟩ .int64)) false none, some "total"⟩] []

theorem valid_grandTotal : grandTotal.Valid := by
  have ht : scan 0 "sales" none [⟨"region", .string, true⟩, ⟨"amount", .int64, true⟩] =
      .ok sales := rfl
  have hs : Expr.applyAggregate .sum (.column ⟨none, "amount"⟩ .int64) false = .ok _ := rfl
  have hg : group 1 sales [] []
      [⟨.aggregate .sum (some (.column ⟨none, "amount"⟩ .int64)) false none, some "total"⟩] =
      .ok grandTotal := rfl
  refine ⟨_, .call (.call .start (.scan ht) (by simp)) (.group (by simp) (by simp) (by simp) ?_ hg)
    (by simp [id, grandTotal, sales]), List.mem_cons_self⟩
  simpa using .aggregate (.column _ _) hs

theorem toSelect_grandTotal_aggregations : ∃ s,
    grandTotal.toSelect (Target.builtin .mysql) = .ok s ∧
    (∃ q ∈ s.statements, Produces (Target.builtin .mysql) grandTotal grandTotal q) ∧
    ∀ q, Produces (Target.builtin .mysql) grandTotal grandTotal q →
      Evaluates (Target.builtin .mysql) sales []
        [⟨.aggregate .sum (some (.column ⟨none, "amount"⟩ .int64)) false none, some "total"⟩] [] q ∧
      q.IsAggregation := by
  have hs : grandTotal.toSelect (Target.builtin .mysql) = .ok _ := rfl
  have hk : KeepsAggregation []
      [⟨.aggregate .sum (some (.column ⟨none, "amount"⟩ .int64)) false none, some "total"⟩] [] :=
    .inr ⟨_, List.mem_cons_self, by decide⟩
  exact ⟨_, hs, toSelect_aggregations valid_grandTotal hs (mem_nodes_self grandTotal) hk⟩

/-- Whether the amount sold in all is one of no values. -/
def noTotal : Relation :=
  .aggregate 1 sales []
    [⟨.inList (.aggregate .sum (some (.column ⟨none, "amount"⟩ .int64)) false none) [] false,
      some "none"⟩] []

/-- A metric whose only aggregate is in a membership in no values is accepted, and the statement has
one row for each row of the table. -/
theorem aggregation_lost : noTotal.Valid ∧ ∀ d, ∃ s,
    noTotal.toSelect (Target.builtin d) = .ok s ∧ ∀ q ∈ s.statements, ¬ q.IsAggregation := by
  have ht : scan 0 "sales" none [⟨"region", .string, true⟩, ⟨"amount", .int64, true⟩] =
      .ok sales := rfl
  have hs : Expr.applyAggregate .sum (.column ⟨none, "amount"⟩ .int64) false = .ok _ := rfl
  have hi : Expr.applyInList
      (.aggregate .sum (some (.column ⟨none, "amount"⟩ .int64)) false none) [] false = .ok _ := rfl
  have hg : group 1 sales [] []
      [⟨.inList (.aggregate .sum (some (.column ⟨none, "amount"⟩ .int64)) false none) [] false,
        some "none"⟩] = .ok noTotal := rfl
  refine ⟨⟨_, .call (.call .start (.scan ht) (by simp))
    (.group (by simp) (by simp) (by simp) ?_ hg) (by simp [id, noTotal, sales]),
    List.mem_cons_self⟩, fun d => ?_⟩
  · simpa using .inList (.aggregate (.column _ _) hs) hi
  · have hplain : ∀ s : Sql.Select, s.source = .table "sales" none → s.groupBy = [] →
        s.having = [] → s.projection = some [⟨.binary .eq (.int 1) (.int 0), some "none"⟩] →
        ∀ q ∈ s.statements, ¬ q.IsAggregation := by
      intro s hsource hgroup hhaving hproj q hq
      obtain rfl : q = s := by
        simpa [Sql.Select.statements, hsource, Sql.FromItem.selects] using hq
      rintro (hne | ⟨e, he, ha, -⟩)
      · exact hne hgroup
      · obtain rfl : e = .binary .eq (.int 1) (.int 0) := by simpa [hproj, hhaving] using he
        exact absurd ha (by decide)
    cases d <;> exact ⟨_, rfl, hplain _ rfl rfl rfl rfl⟩

end Relation

end PlanSql
