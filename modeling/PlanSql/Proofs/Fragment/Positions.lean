import PlanSql.Proofs.Fragment.GroupClauses
import PlanSql.Proofs.Fragment.Tracing

/-!
# Keys that are positions

An integer as a key of GROUP BY or ORDER BY is the position of an output. No expression becomes one
but an integer constant and a column that an operator in the same SELECT defines as one, so the keys
that become positions can be told from the plan.
-/
namespace PlanSql

/-- The literal of a number. Where it is a key, it is the position of an output. -/
def Sql.Expr.isPosition : Sql.Expr → Bool
  | .literal (.value (.int _)) | .literal (.number _) => true
  | _ => false

/-- The rule of a function makes an expression of its own. -/
def Template.isComposed : Template → Bool
  | .call _ _ | .extract _ _ | .cast _ _ | .binary _ _ _ => true
  | .arg _ | .args | .int _ | .number _ | .string _ => false

def RuleTable.isComposed (table : RuleTable) (function : String) (d : Dialect) : Bool :=
  match table.resolve function d with
  | .ok (.template T) => T.isComposed
  | _ => true

theorem RuleTable.isComposed_builtin :
    ∀ d ∈ Dialect.all, ∀ c ∈ rowFunctions, builtin.isComposed c.1 d = true := by
  decide +kernel

theorem Template.isPosition_expand {T : Template} (hT : T.isComposed = true) {args : List Sql.Expr}
    {s : Sql.Expr} (h : T.expand args = .ok s) : s.isPosition = false := by
  cases T with
  | arg | args | int | number | string => simp [isComposed] at hT
  | call | extract | cast =>
    obtain ⟨x, -, hs⟩ := bind_eq_ok.mp h
    rw [← Except.ok.inj hs]
    rfl
  | binary op left right =>
    obtain ⟨l, -, hs⟩ := bind_eq_ok.mp h
    obtain ⟨r, -, hs⟩ := bind_eq_ok.mp hs
    rw [← Except.ok.inj hs]
    rfl

/-- A call of a function of one row becomes no number. -/
theorem Target.isPosition_call {d : Dialect} {e : Expr} {function : String} {n : Nat}
    (hf : (function, n) ∈ RuleTable.rowFunctions) {args : List Sql.Expr} {s : Sql.Expr}
    (h : (Target.builtin d).call e function args = .ok s) : s.isPosition = false := by
  obtain ⟨T, hT, hs⟩ := call_eq_ok.mp h
  have hc := RuleTable.isComposed_builtin d d.mem_all _ hf
  simp only [RuleTable.isComposed, builtin] at hc hT
  rw [hT] at hc
  exact T.isPosition_expand hc hs

namespace Expr

/-- An integer constant, or a column that is defined as one. -/
def isPosition : Test := fun header passes e =>
  match e with
  | .literal (.int _) => true
  | .column ref _ => header.leadsTo passes ref
  | _ => false

variable {d : Dialect} {header : Header} {columns : List OutputColumn} {passes : Nat → Bool}

/-- The expressions that become numbers. -/
theorem isPosition_lower (hc : Fragment.PassesAt Sql.Expr.isPosition passes columns) {e : Expr}
    {s : Sql.Expr} (h : e.lower (Target.builtin d) (.columns header columns) = .ok s) :
    s.isPosition = e.isPosition header passes := by
  have h := lower_eq_ok.mp h
  cases e with
  | literal v =>
    obtain rfl := Target.constant_eq_ok h
    cases v <;> rfl
  | column ref type =>
    exact hc.leadsTo h
  | unary | isNull =>
    obtain ⟨_, -, rfl⟩ := h
    rfl
  | binary op left right =>
    obtain ⟨l, r, -, -, h⟩ := h
    unfold Target.binary at h
    split at h
    · obtain ⟨_, -, h⟩ := bind_eq_ok.mp h
      rw [← Except.ok.inj h]
      rfl
    · rw [← Except.ok.inj h]
      rfl
  | function f args =>
    obtain ⟨as, -, h⟩ := h
    obtain ⟨n, -, hn⟩ := scalar_mem_rowFunctions f args.length
    exact Target.isPosition_call hn h
  | extract part operand =>
    obtain ⟨_, -, h⟩ := h
    exact Target.isPosition_call (datePart_mem_rowFunctions part) h
  | toTimestamp operand unit =>
    obtain ⟨_, -, h⟩ := h
    exact Target.isPosition_call (timeUnit_mem_rowFunctions unit) h
  | inList operand values negated =>
    cases values with
    | nil =>
      obtain rfl := h
      rfl
    | cons v vs =>
      obtain ⟨_, _, -, -, rfl⟩ := h
      rfl
  | cast | case =>
    obtain ⟨_, _, -, -, rfl⟩ := h
    rfl
  | aggregate f arg distinct filter =>
    obtain ⟨a, c, -, -, h⟩ := h
    rw [Target.aggregate_builtin rfl h]
    rfl
  | window f args partitionBy orderBy =>
    obtain ⟨as, call, ps, ks, -, -, -, -, -, h⟩ := h
    obtain ⟨_, _, _, _, _, -, rfl⟩ := Target.attach_eq_ok h
    rfl

end Expr

namespace Relation

/-- No grouping key and no sort key is an integer constant or a column that the same SELECT defines
as one. -/
structure NamesNoPosition (t : Target) (root : Relation) : Prop where
  group : ∀ id input keys metrics having, .aggregate id input keys metrics having ∈ root.nodes →
    ∀ n ∈ keys, n.expr.isPosition input.header
      (passesBelow t Expr.isPosition (.aggregate id input keys metrics having) input) = false
  sort : ∀ id input keys, .sort id input keys ∈ root.nodes →
    ∀ k ∈ keys, k.expr.isPosition input.header
      (passesBelow t Expr.isPosition (.sort id input keys) input) = false

variable {t : Target} {d : Dialect} {root r input : Relation} {f f' g : Fragment}

theorem traces_isPosition : Traces d Expr.isPosition Sql.Expr.isPosition where
  column _ _ := rfl
  output _ _ _ _ _ hf _ _ _ := Expr.isPosition_lower hf

/-- No key of a SELECT is a position if no key in the plan is one or becomes one. -/
theorem Becomes.keys_no_positions (h : Becomes (Target.builtin d) r f) (hw : r.WellFormed)
    (hn : NamesNoPosition (Target.builtin d) root) (hsub : ∀ m ∈ r.nodes, m ∈ root.nodes) :
    (∀ e ∈ f.select.groupBy, e.isPosition = false) ∧
      ∀ key ∈ f.select.orderBy, key.expr.isPosition = false := by
  induction h with
  | table => simp [Fragment.ofTable, Fragment.ofSource, Sql.SelectOver.ofSource]
  | join _ _ _ _ hg =>
    obtain ⟨on, -, rfl⟩ := Fragment.join_eq_ok hg
    simp [Sql.SelectOver.ofSource]
  | @step r i f f' g hin hf he hg ih =>
    have hi : i ∈ r.inputs := by simp [hin]
    have hwi := hw.input hi
    have hcols := hf.passesBelow traces_isPosition hwi hin he
    have below : (∀ e ∈ f'.select.groupBy, e.isPosition = false) ∧
        ∀ key ∈ f'.select.orderBy, key.expr.isPosition = false := by
      rcases he with ⟨-, rfl⟩ | ⟨-, a, rfl⟩
      · exact ih hwi fun m hm => hsub m (mem_nodes_of_input hi hm)
      · simp [Fragment.wrapped, Fragment.ofSource, Sql.SelectOver.ofSource]
    obtain ⟨hgroup, horder⟩ := below
    refine ⟨fun e he => ?_, fun key hkey => ?_⟩
    · rcases groupBy_operate hg he with he | ⟨id, input, keys, metrics, having, rfl, n, hmem, hl⟩
      · exact hgroup e he
      · obtain rfl := List.singleton_inj.mp hin
        exact (Expr.isPosition_lower hcols hl).trans
          (hn.group id input keys metrics having (hsub _ (mem_nodes_self _)) n hmem)
    · rcases orderBy_operate hg hkey with hkey | ⟨id, input, keys, rfl, k, hmem, hl⟩
      · exact horder key hkey
      · obtain rfl := List.singleton_inj.mp hin
        exact (Expr.isPosition_lower hcols hl).trans
          (hn.sort id input keys (hsub _ (mem_nodes_self _)) k hmem)

/-- In the statement of a relation, at every depth, no key of GROUP BY or ORDER BY is a number,
provided that no key of the plan is an integer constant or a column that the same SELECT defines as
one. -/
theorem toSelect_keys_no_positions {r : Relation} (h : r.Valid)
    (hn : NamesNoPosition (Target.builtin d) r) {s : Sql.Select}
    (hs : r.toSelect (Target.builtin d) = .ok s) :
    ∀ q ∈ s.statements,
      ∀ e ∈ q.groupBy ++ q.orderBy.map (·.expr), e.isPosition = false := by
  refine forall_statements h hs fun n hm f hw hf => ?_
  obtain ⟨hgroup, horder⟩ := hf.keys_no_positions hw hn fun m hm' =>
    mem_nodes_trans (mem_nodes_of_mem_tops hm) hm'
  have hall : ∀ e ∈ f.select.groupBy ++ f.select.orderBy.map (·.expr), e.isPosition = false :=
    List.forall_mem_append.mpr ⟨hgroup, List.forall_mem_map.mpr horder⟩
  exact ⟨hall, hall⟩

theorem namesNoPosition_rankedTotals :
    NamesNoPosition (Target.builtin .postgres) rankedTotals where
  group id input keys metrics having hm n hn := by
    obtain ⟨rfl, rfl, rfl, rfl, rfl⟩ : id = 1 ∧ input = sales ∧
        keys = [⟨.column ⟨none, "region"⟩ .string, none⟩] ∧
        metrics = [⟨.aggregate .sum (some (.column ⟨none, "amount"⟩ .int64)) false none,
          some "total"⟩] ∧ having = [] := by
      simpa [rankedTotals, largeTotals, totals, sales, nodes] using hm
    obtain rfl := List.mem_singleton.mp hn
    rfl
  sort id input keys hm k hk := by
    obtain ⟨rfl, rfl, rfl⟩ : id = 3 ∧ input = largeTotals ∧
        keys = [⟨.column ⟨none, "total"⟩ .int64, true⟩] := by
      simpa [rankedTotals, largeTotals, totals, sales, nodes] using hm
    obtain rfl := List.mem_singleton.mp hk
    rfl

theorem toSelect_rankedTotals_keys_no_positions : ∃ s,
    rankedTotals.toSelect (Target.builtin .postgres) = .ok s ∧ ∀ q ∈ s.statements,
      ∀ e ∈ q.groupBy ++ q.orderBy.map (·.expr), e.isPosition = false := by
  have hs : rankedTotals.toSelect (Target.builtin .postgres) = .ok _ := rfl
  exact ⟨_, hs, toSelect_keys_no_positions valid_rankedTotals namesNoPosition_rankedTotals hs⟩

/-- The same tag on all sales. -/
def tagged : Relation := .project 1 sales [⟨.literal (.int 2), some "tag"⟩]

/-- The number of sales under each tag. -/
def tagSizes : Relation :=
  .aggregate 2 tagged [⟨.column ⟨none, "tag"⟩ .int64, none⟩] [groupSize] []

/-- The tags in order, with the number of their sales. -/
def sortedTags : Relation := .sort 3 tagSizes [⟨.column ⟨none, "tag"⟩ .int64, false⟩]

/-- Both the groups and their order go by the second output, which is the size of the group. -/
theorem key_as_position : sortedTags.Valid ∧ ∀ d, ∃ s,
    sortedTags.toSelect (Target.builtin d) = .ok s ∧
      s.groupBy = [.int 2] ∧ s.orderBy = [⟨.int 2, false⟩] ∧
      (s.projection.getD []).map (·.expr) = [.int 2, .apply "COUNT" [.star]] := by
  have ht : scan 0 "sales" none [⟨"region", .string, true⟩, ⟨"amount", .int64, true⟩] =
      .ok sales := rfl
  have hp : select 1 sales [⟨.literal (.int 2), some "tag"⟩] = .ok tagged := rfl
  have hg : group 2 tagged [⟨.column ⟨none, "tag"⟩ .int64, none⟩] [] [groupSize] =
      .ok tagSizes := rfl
  have ho : sortBy 3 tagSizes [⟨.column ⟨none, "tag"⟩ .int64, false⟩] = .ok sortedTags := rfl
  refine ⟨⟨_, .call (.call (.call (.call .start (.scan ht) (by simp))
    (.select (by simp) (by simpa using .literal _) hp) (by simp [id, tagged, sales]))
    (.group (by simp) (by simpa using .column _ _) (by simp) (by simpa using .countStar) hg)
    (by simp [id, tagged, tagSizes, sales]))
    (.sortBy (by simp) (by simpa using .column _ _) ho)
    (by simp [id, tagged, tagSizes, sortedTags, sales]), List.mem_cons_self⟩, fun d => ?_⟩
  cases d <;> exact ⟨_, rfl, rfl, rfl, rfl⟩

end Relation

end PlanSql
