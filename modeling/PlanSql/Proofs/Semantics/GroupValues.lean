import PlanSql.Proofs.Plan.Validity
import PlanSql.Proofs.Semantics.Lowering
import PlanSql.Proofs.Semantics.Rows

/-!
# Values of groups

What is evaluated once for each group has to be worth the same at every row of the group. Aggregates
are, and so are the columns that are grouping keys; an expression made of these has one value for
each group. For metrics the builder sees to it that there is nothing else in them. A condition on
groups may speak of any column, so that this holds of the conditions that do not.
-/
namespace PlanSql

namespace Expr

theorem mem_bareColumns_of_child {e c : Expr} {ref : ColumnRef} (ha : e.isAggregate = false)
    (hc : c ∈ e.children) (hr : ref ∈ c.bareColumns) : ref ∈ e.bareColumns := by
  obtain ⟨q, hq, hqr⟩ := List.mem_filterMap.mp hr
  exact List.mem_filterMap.mpr ⟨q, mem_walk_of_child ha hc hq, hqr⟩

theorem mem_columnRefs_of_mem_bareColumns {e : Expr} {ref : ColumnRef} (hr : ref ∈ e.bareColumns) :
    ref ∈ e.columnRefs := by
  obtain ⟨q, hq, hqr⟩ := List.mem_filterMap.mp hr
  exact List.mem_filterMap.mpr ⟨q, mem_parts_of_mem_walk hq, hqr⟩

section

variable {V ρ : Type} [DecidableEq V] {M : Meaning V} {look : ColumnRef → ρ → V}
  {frame : Multiset (Focus ρ)}

theorem evalCase_congr {branches : List (Expr × Expr)} {x y : Focus ρ} {v w : V}
    (h : ∀ b ∈ branches, b.1.eval M look frame x = b.1.eval M look frame y ∧
      b.2.eval M look frame x = b.2.eval M look frame y) (hvw : v = w) :
    evalCase M look frame branches x v = evalCase M look frame branches y w := by
  induction branches with
  | nil => exact hvw
  | cons b rest ih =>
    obtain ⟨hb, hrest⟩ := List.forall_mem_cons.mp h
    obtain ⟨c, r⟩ := b
    simp only [evalCase, hb.1, hb.2, ih hrest]

/-- On behalf of one group, an expression without windows is worth the same at two rows that agree on
the columns it uses outside of aggregates. -/
theorem eval_group_congr {e : Expr} (hw : e.containsWindow = false) {group : Multiset ρ} {x y : ρ}
    (h : ∀ ref ∈ e.bareColumns, look ref x = look ref y) :
    e.eval M look frame ⟨x, group⟩ = e.eval M look frame ⟨y, group⟩ := by
  induction e using induct with
  | step e ih =>
    cases ha : e.isAggregate with
    | true =>
      -- an aggregate looks at the group and at no row of its own
      cases e with
      | aggregate f arg distinct filter => rfl
      | _ => simp [isAggregate] at ha
    | false =>
      have below : ∀ c ∈ e.children, c.eval M look frame ⟨x, group⟩ =
          c.eval M look frame ⟨y, group⟩ := fun c hc =>
        ih c hc (containsWindow_of_child hc hw)
          fun ref hr => h ref (mem_bareColumns_of_child ha hc hr)
      cases e with
      | literal v => rfl
      | column ref type => exact h ref (by simp [bareColumns, walk_eq, isAggregate, column?])
      | unary op operand =>
        have hv := below operand (by simp [children])
        cases op <;> simp only [eval, hv]
      | extract op operand | toTimestamp operand op | isNull operand op | cast operand op
      | inList operand op negated =>
        simp only [eval, below operand (by simp [children])]
      | binary op left right =>
        simp only [eval, below left (by simp [children]), below right (by simp [children])]
      | function f args =>
        simp only [eval, evalAll_eq]
        exact congrArg _ (List.map_congr_left below)
      | case branches otherwise =>
        rw [eval, eval]
        refine evalCase_congr (fun b hb => ?_) ?_
        · have hmem : ∀ c ∈ [b.1, b.2], c ∈ (Expr.case branches otherwise).children := fun c hc =>
            List.mem_append_left _ (List.mem_flatMap.mpr ⟨b, hb, hc⟩)
          exact ⟨below b.1 (hmem b.1 (by simp)), below b.2 (hmem b.2 (by simp))⟩
        · cases otherwise with
          | none => rfl
          | some o => exact below o (List.mem_append_right _ (by simp))
      | aggregate f arg distinct filter => simp [isAggregate] at ha
      | window f args partitionBy orderBy =>
        simpa [isWindow] using containsWindow_eq_false.mp hw _ (mem_parts_self _)

end

end Expr

namespace Header

/-- A reference denotes a column that is itself one of the grouping keys. -/
def DenotesKey (h : Header) (keys : List NamedExpr) (ref : ColumnRef) : Prop :=
  ∃ i, h.lookup ref = .found i ∧
    ∃ k ∈ keys, ∃ ref' type, k.expr = .column ref' type ∧ h.lookup ref' = .found i

theorem denotesKey_iff {h : Header} {keys : List NamedExpr} {ref : ColumnRef} :
    h.DenotesKey keys ref ↔ h.isAmong (h.keyPositions keys) ref = true := by
  simp only [DenotesKey, isAmong_iff, mem_keyPositions, and_comm]

variable {V : Type} [DecidableEq V] {M : Meaning V} {h : Header} {keys : List NamedExpr}
  {x y : List V}

/-- Rows with the same keys have the same value in a column that is a key. -/
theorem DenotesKey.look_eq {ref : ColumnRef} (hr : h.DenotesKey keys ref)
    (hxy : ∀ k ∈ keys, k.expr.eval M (M.look h) 0 (.single x) =
      k.expr.eval M (M.look h) 0 (.single y)) : M.look h ref x = M.look h ref y := by
  obtain ⟨i, hi, k, hk, ref', type, he, hi'⟩ := hr
  have hkey := hxy k hk
  rw [he] at hkey
  simpa [Expr.eval, Focus.single, Meaning.look, hi, hi'] using hkey

end Header

namespace Relation

/-- In an aggregation, whether builder calls or a plan made it, a metric uses no column outside of
aggregates that is not a grouping key, and so has one value for rows with the same keys, on behalf of
any group. The columns of a condition on groups are columns of the input; a condition that, outside
of aggregates, uses grouping keys only has one value as well. -/
theorem grouped_values {r : Relation} (h : r.Valid ∨ ∃ catalog p, Plan.relation catalog p = .ok r)
    {id : NodeId} {input : Relation} {keys metrics : List NamedExpr} {having : List Expr}
    (hn : .aggregate id input keys metrics having ∈ r.nodes) :
    (∀ n ∈ metrics, ∀ ref ∈ n.expr.bareColumns, input.header.DenotesKey keys ref) ∧
    (∀ c ∈ having, ∀ ref ∈ c.bareColumns, ∃ i, input.header.lookup ref = .found i) ∧
    ∀ {V : Type} [DecidableEq V] (M : Meaning V) (group : Multiset (List V)) (x y : List V),
      (∀ k ∈ keys, k.expr.eval M (M.look input.header) 0 (.single x) =
        k.expr.eval M (M.look input.header) 0 (.single y)) →
      (∀ n ∈ metrics, n.expr.eval M (M.look input.header) 0 ⟨x, group⟩ =
        n.expr.eval M (M.look input.header) 0 ⟨y, group⟩) ∧
      ∀ c ∈ having, (∀ ref ∈ c.bareColumns, input.header.DenotesKey keys ref) →
        c.eval M (M.look input.header) 0 ⟨x, group⟩ =
          c.eval M (M.look input.header) 0 ⟨y, group⟩ := by
  have hv : r.Valid := by
    rcases h with hv | ⟨catalog, p, hp⟩
    · exact hv
    · exact Plan.valid_relation hp
  obtain ⟨hh, -, -, -, -, hm, -⟩ := hv.wellFormed _ hn
  have hbare : ∀ n ∈ metrics, ∀ ref ∈ n.expr.bareColumns, input.header.DenotesKey keys ref :=
    fun n hnm ref hr => Header.denotesKey_iff.mpr ((hm n hnm).2.2 ref hr)
  refine ⟨hbare, fun c hc ref hr => ?_, fun M group x y hxy => ⟨fun n hnm => ?_, fun c hc hk => ?_⟩⟩
  · exact (hh c hc).2.1 ref (Expr.mem_columnRefs_of_mem_bareColumns hr)
  · exact Expr.eval_group_congr (hm n hnm).2.1 fun ref hr => (hbare n hnm ref hr).look_eq hxy
  · exact Expr.eval_group_congr (hh c hc).2.2 fun ref hr => (hk ref hr).look_eq hxy

/-- Amounts with the targets that they count towards. -/
def quotas : Relation :=
  .table 0 "quotas" none [⟨"target", .int64, true⟩, ⟨"amount", .int64, true⟩]

/-- The targets that are exceeded, and by how much. -/
def exceeded : Relation :=
  let target : Expr := .column ⟨some "quotas", "target"⟩ .int64
  let total : Expr := .aggregate .sum (some (.column ⟨some "quotas", "amount"⟩ .int64)) false none
  .aggregate 1 quotas [⟨target, none⟩] [⟨.binary .sub total target, some "excess"⟩]
    [.binary .gt total target]

/-- The targets that are exceeded, as a document describes them. -/
def exceededPlan : Plan :=
  let total : Term := .aggregate "sum" (some (.column "amount" none)) false none
  .aggregate (.table "quotas" none) [⟨.column "target" none, none⟩]
    [⟨.binary .sub total (.column "target" none), some "excess"⟩]
    [.binary .gt total (.column "target" none)]

theorem relation_exceededPlan :
    exceededPlan.relation [("quotas", [⟨"target", .int64, true⟩, ⟨"amount", .int64, true⟩])] =
      .ok exceeded := rfl

theorem exceeded_grouped_values : ∃ input keys metrics having,
    exceeded = .aggregate 1 input keys metrics having ∧
    (∀ n ∈ metrics, ∀ ref ∈ n.expr.bareColumns, input.header.DenotesKey keys ref) ∧
    (∀ c ∈ having, ∀ ref ∈ c.bareColumns, ∃ i, input.header.lookup ref = .found i) ∧
    ∀ {V : Type} [DecidableEq V] (M : Meaning V) (group : Multiset (List V)) (x y : List V),
      (∀ k ∈ keys, k.expr.eval M (M.look input.header) 0 (.single x) =
        k.expr.eval M (M.look input.header) 0 (.single y)) →
      (∀ n ∈ metrics, n.expr.eval M (M.look input.header) 0 ⟨x, group⟩ =
        n.expr.eval M (M.look input.header) 0 ⟨y, group⟩) ∧
      ∀ c ∈ having, (∀ ref ∈ c.bareColumns, input.header.DenotesKey keys ref) →
        c.eval M (M.look input.header) 0 ⟨x, group⟩ =
          c.eval M (M.look input.header) 0 ⟨y, group⟩ :=
  ⟨_, _, _, _, rfl,
    grouped_values (.inr ⟨_, _, relation_exceededPlan⟩) (mem_nodes_self exceeded)⟩

/-- Orders, which have been paid for or not. -/
def orders : Relation :=
  .table 0 "orders" none [⟨"region", .string, true⟩, ⟨"paid", .bool, true⟩]

/-- The number of orders of each region, of regions that have paid. -/
def paidRegions : Relation :=
  .aggregate 1 orders [⟨.column ⟨some "orders", "region"⟩ .string, none⟩]
    [⟨.countStar, some "n"⟩] [.column ⟨some "orders", "paid"⟩ .bool]

def paidRegionsPlan : Plan :=
  .aggregate (.table "orders" none) [⟨.column "region" none, none⟩]
    [⟨.aggregate "count" none false none, some "n"⟩] [.column "paid" none]

/-- A condition on groups is accepted that speaks of a column which is neither grouped nor
aggregated. At two rows of one group it has two values. -/
theorem having_ungrouped_column :
    paidRegionsPlan.relation [("orders", [⟨"region", .string, true⟩, ⟨"paid", .bool, true⟩])] =
      .ok paidRegions ∧
    ∃ input keys metrics having c ref, paidRegions = .aggregate 1 input keys metrics having ∧
      c ∈ having ∧ ref ∈ c.bareColumns ∧ ¬ input.header.DenotesKey keys ref ∧
      ∀ {V : Type} [DecidableEq V] (M : Meaning V) (group : Multiset (List V)) (region : V),
        (∀ k ∈ keys, k.expr.eval M (M.look input.header) 0 (.single [region, M.bool true]) =
          k.expr.eval M (M.look input.header) 0 (.single [region, M.bool false])) ∧
        c.eval M (M.look input.header) 0 ⟨[region, M.bool true], group⟩ ≠
          c.eval M (M.look input.header) 0 ⟨[region, M.bool false], group⟩ := by
  refine ⟨rfl, _, _, _, _, _, ⟨some "orders", "paid"⟩, rfl, List.mem_cons_self, by decide, ?_, ?_⟩
  · rw [Header.denotesKey_iff]
    decide
  · intro V _ M group region
    refine ⟨?_, fun he => ?_⟩
    · simp only [List.mem_singleton, forall_eq]
      rfl
    · have he : M.bool true = M.bool false := he
      have ht := congrArg M.truth he
      simp [M.truth_bool] at ht

end Relation

end PlanSql
