import PlanSql.Proofs.Fragment.Induction
import PlanSql.Proofs.Semantics.BagGroups
import PlanSql.Proofs.Semantics.BagSources
import PlanSql.Proofs.Semantics.Induced

/-!
# Compilation keeps bags of rows

The operators that become part of a SELECT and those that start a new one keep the rows of the node
they are made for. So the statement of a relation has the rows of the relation, whatever the tables
hold and whatever functions of values the operators stand for.
-/
namespace PlanSql

variable {V : Type} [DecidableEq V]

namespace Relation

/-- A relation whose rows do not depend on their order: it counts no rows out, window functions are
in the nodes made for them only, no membership is tested in an empty list, and outside of aggregates
the conditions on groups are about their keys. -/
structure Unordered (r : Relation) : Prop where
  unlimited (id : NodeId) (input : Relation) (count : Option Nat) (offset : Nat) :
    .limit id input count offset ∉ r.nodes
  windows {n : Relation} (hn : n ∈ r.nodes) {e : Expr} (he : e ∈ n.exprs) :
    (∃ id input exprs, n = .window id input exprs) ∨ e.containsWindow = false
  members {n : Relation} (hn : n ∈ r.nodes) {e : Expr} (he : e ∈ n.exprs) :
    ∀ p ∈ e.parts, p.isVoidMembership = false
  having {id : NodeId} {input : Relation} {keys metrics : List NamedExpr} {having : List Expr}
    (hn : .aggregate id input keys metrics having ∈ r.nodes) :
    ∀ c ∈ having, ∀ ref ∈ c.bareColumns,
      input.header.isAmong (input.header.keyPositions keys) ref = true

variable {M : Meaning V} {d : Dialect} {db : Database V} {root : Relation}

/-- Every operator keeps the rows of its node. -/
theorem keeps_means (hM : M.Keeps d) (hw : root.WellFormed) (hu : root.Unordered)
    (hdb : root.Declares db) :
    Keeps (Target.builtin d) root (Means M db) fun _ => True where
  wrapped aliasName hr h := h.wrapped (hw.node hr).nodup_names aliasName
  table {id name aliasName fields} hr :=
    Means.table (hw _ hr) (hdb _ hr id name aliasName fields rfl)
  project {id input exprs f} hr h ha hs := settles_of_ok fun g hg => by
    have hwin : ∀ n ∈ exprs, n.expr.containsWindow = false := by
      intro n hn
      have he : n.expr ∈ (Relation.project id input exprs).exprs := List.mem_map_of_mem hn
      simpa using hu.windows hr he
    exact h.project hM (hw _ hr) hwin ha (Fragment.isSettled_eq_false.mp hs).2 hg
  filter {id input cs f} hr h hs _ := settles_of_ok fun g hg => by
    have hwin : ∀ c ∈ cs, c.containsWindow = false := by
      intro c hc
      simpa using hu.windows hr (show c ∈ (Relation.filter id input cs).exprs from hc)
    exact h.filter hM (hw _ hr) hwin (Fragment.isSettled_eq_false.mp hs).2 hg
  aggregate {id input keys metrics having f} hr h ha hwin hs := settles_of_ok fun g hg => by
    have hv : ∀ n ∈ metrics, ∀ p ∈ n.expr.parts, p.isVoidMembership = false := by
      intro n hn
      refine hu.members hr ?_
      simp only [exprs, List.mem_append, List.mem_map]
      exact .inl (.inr ⟨n, hn, rfl⟩)
    obtain ⟨-, hd⟩ := Fragment.isSettled_eq_false.mp hs
    exact h.aggregate hM (hw _ hr) (hu.having hr) hv ha hwin hd hg
  sort hr h _ := settles_of_ok fun g hg => h.sort (hw _ hr) hg
  limit {id input count offset f} hr _ _ := absurd hr (hu.unlimited id input count offset)
  joinOp _ := settles_of_ok fun _ _ => trivial
  join {id left right kind cs op l r a b} hr hop hl hrr hab := settles_of_ok fun g hg => by
    have hdl := hw.nodup_input hr (i := left) (by simp [inputs])
    have hdr := hw.nodup_input hr (i := right) (by simp [inputs])
    exact hl.join hrr hab hM hdl hdr (hw _ hr) hop hg
  window hr h ha hwin hs := settles_of_ok fun g hg =>
    h.window hM (hw _ hr) ha hwin (Fragment.isSettled_eq_false.mp hs).2 hg
  distinct _ h _ := h.distinct

/-- The statement of a relation that exists has the rows of the relation, each as often. -/
theorem toSelect_bag (hM : M.Keeps d) {r : Relation} (h : r.Valid) (hu : r.Unordered)
    (hdb : r.Declares db) {s : Sql.Select} (hs : r.toSelect (Target.builtin d) = .ok s) :
    s.bag M db = r.bag M db := by
  obtain ⟨f, hf, rfl⟩ :=
    ((keeps_means hM h.wellFormed hu hdb).toSelect h.coherent).of_ok hs
  exact hf.bag_eq

theorem unordered_pairing (kind : JoinKind) : (pairing kind).Unordered where
  unlimited := by simp [pairing, nodes]
  windows {n} hn {e} he := .inr <| by
    simp only [pairing, nodes, List.mem_cons, List.mem_append, List.not_mem_nil, or_false] at hn
    rcases hn with rfl | rfl | rfl <;> simp only [exprs, List.mem_singleton, List.not_mem_nil] at he
    subst he
    rfl
  members {n} hn {e} he := by
    simp only [pairing, nodes, List.mem_cons, List.mem_append, List.not_mem_nil, or_false] at hn
    rcases hn with rfl | rfl | rfl <;> simp only [exprs, List.mem_singleton, List.not_mem_nil] at he
    subst he
    decide
  having := by simp [pairing, nodes]

/-- Two rows in one table, of which one has a partner in the other. -/
def pairingTables : Database Value := fun name =>
  if name = "a" then ⟨["x"], [[.int 1], [.int 2]], by decide⟩ else ⟨["y"], [[.int 2]], by decide⟩

theorem declares_pairingTables (kind : JoinKind) : (pairing kind).Declares pairingTables := by
  intro n hn id name aliasName fields he
  simp only [pairing, nodes, List.mem_cons, List.mem_append, List.not_mem_nil, or_false] at hn
  rcases hn with rfl | rfl | rfl
  · cases he
  · cases he
    rfl
  · cases he
    rfl

theorem toSelect_pairing_bag : ∃ s, (pairing .left).toSelect (Target.builtin .mysql) = .ok s ∧
    s.bag (.ofSql .constants .comparing .mysql) pairingTables =
      (pairing .left).bag (.ofSql .constants .comparing .mysql) pairingTables := by
  have hs : (pairing .left).toSelect (Target.builtin .mysql) = .ok _ := rfl
  exact ⟨_, hs, toSelect_bag (Meaning.keeps_comparing .mysql) (valid_pairing (by decide))
    (unordered_pairing .left) (declares_pairingTables .left) hs⟩

end Relation

end PlanSql
