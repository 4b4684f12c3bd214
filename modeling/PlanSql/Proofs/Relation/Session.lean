import PlanSql.Proofs.Expr.Typing
import PlanSql.Proofs.Relation.Headers

/-!
# Relations made by builder calls

The relations that exist: those that some sequence of builder calls makes, each call working on
relations made before and giving its node an identity of its own. Whatever the calls are, every node
below such a relation has passed the checks of its operator, and an identity belongs to one node
only.
-/
namespace PlanSql

namespace Relation

/-- A call of one builder, on relations and expressions that exist, has made a relation. -/
inductive Builds (existing : List Relation) : Relation → Prop
  | scan {id : NodeId} {name : String} {aliasName : Option String} {fields : Schema}
      {r : Relation} (h : scan id name aliasName fields = .ok r) : Builds existing r
  | select {id : NodeId} {input r : Relation} {exprs : List NamedExpr} (hi : input ∈ existing)
      (he : ∀ n ∈ exprs, n.expr.Made) (h : select id input exprs = .ok r) : Builds existing r
  | restrict {id : NodeId} {input r : Relation} {conditions : List Expr} (hi : input ∈ existing)
      (hc : ∀ c ∈ conditions, c.Made) (h : restrict id input conditions = .ok r) :
      Builds existing r
  | group {id : NodeId} {input r : Relation} {keys metrics : List NamedExpr} {having : List Expr}
      (hi : input ∈ existing) (hk : ∀ n ∈ keys, n.expr.Made) (hh : ∀ c ∈ having, c.Made)
      (hm : ∀ n ∈ metrics, n.expr.Made) (h : group id input keys having metrics = .ok r) :
      Builds existing r
  | sortBy {id : NodeId} {input r : Relation} {keys : List (SortKey Expr)} (hi : input ∈ existing)
      (hk : ∀ k ∈ keys, k.expr.Made) (h : sortBy id input keys = .ok r) : Builds existing r
  | slice {id : NodeId} {input r : Relation} {count : Option Nat} {offset : Nat}
      (hi : input ∈ existing) (h : slice id input count offset = .ok r) : Builds existing r
  | joinWith {id : NodeId} {left right r : Relation} {kind : JoinKind} {conditions : List Expr}
      (hl : left ∈ existing) (hr : right ∈ existing) (hc : ∀ c ∈ conditions, c.Made)
      (h : joinWith id left right kind conditions = .ok r) : Builds existing r
  | extend {id : NodeId} {input r : Relation} {exprs : List NamedExpr} (hi : input ∈ existing)
      (he : ∀ n ∈ exprs, n.expr.Made) (h : extend id input exprs = .ok r) : Builds existing r
  | deduplicate {id : NodeId} {input : Relation} (hi : input ∈ existing) :
      Builds existing (deduplicate id input)

/-- The relations that a sequence of builder calls has made, the latest first. -/
inductive Session : List Relation → Prop
  | start : Session []
  | call {existing : List Relation} {r : Relation} (hs : Session existing)
      (hb : Builds existing r) (hid : ∀ s ∈ existing, s.id ≠ r.id) : Session (r :: existing)

/-- A relation that a sequence of builder calls has made. -/
def Valid (r : Relation) : Prop := ∃ existing, Session existing ∧ r ∈ existing

/-- The relations that the root works on. -/
def inputs : Relation → List Relation
  | .table _ _ _ _ => []
  | .join _ left right _ _ => [left, right]
  | .project _ input _ | .filter _ input _ | .aggregate _ input _ _ _ | .sort _ input _
  | .limit _ input _ _ | .window _ input _ | .distinct _ input => [input]

/-- A relation and all relations below it. -/
def nodes : Relation → List Relation
  | r@(.table _ _ _ _) => [r]
  | r@(.join _ left right _ _) => r :: (left.nodes ++ right.nodes)
  | r@(.project _ input _) | r@(.filter _ input _) | r@(.aggregate _ input _ _ _)
  | r@(.sort _ input _) | r@(.limit _ input _ _) | r@(.window _ input _)
  | r@(.distinct _ input) => r :: input.nodes

/-- The expressions of the operator at the root. -/
def exprs : Relation → List Expr
  | .table _ _ _ _ | .limit _ _ _ _ | .distinct _ _ => []
  | .project _ _ outputs | .window _ _ outputs => outputs.map (·.expr)
  | .filter _ _ conditions | .join _ _ _ _ conditions => conditions
  | .aggregate _ _ keys metrics having =>
    keys.map (·.expr) ++ metrics.map (·.expr) ++ having
  | .sort _ _ keys => keys.map (·.expr)

theorem nodes_eq (r : Relation) : r.nodes = r :: r.inputs.flatMap nodes := by
  cases r <;> simp [nodes, inputs]

theorem mem_nodes {r n : Relation} : n ∈ r.nodes ↔ n = r ∨ ∃ i ∈ r.inputs, n ∈ i.nodes := by
  rw [nodes_eq]
  simp

@[simp] theorem mem_nodes_self (r : Relation) : r ∈ r.nodes := mem_nodes.mpr (.inl rfl)

theorem mem_nodes_of_input {r i n : Relation} (hi : i ∈ r.inputs) (hn : n ∈ i.nodes) :
    n ∈ r.nodes :=
  mem_nodes.mpr (.inr ⟨i, hi, hn⟩)

/-- What holds of a relation whenever it holds of its inputs holds of all relations. -/
@[elab_as_elim]
theorem induct {P : Relation → Prop} (step : ∀ r, (∀ i ∈ r.inputs, P i) → P r) (r : Relation) :
    P r := by
  induction r with
  | table => exact step _ (by simp [inputs])
  | join id left right kind cs ihl ihr => exact step _ (by simpa [inputs] using ⟨ihl, ihr⟩)
  | project id input _ ih | filter id input _ ih | aggregate id input _ _ _ ih | sort id input _ ih
  | limit id input _ _ ih | window id input _ ih | distinct id input ih =>
    exact step _ (by simpa [inputs] using ih)

theorem mem_nodes_trans {r m n : Relation} (hm : m ∈ r.nodes) (hn : n ∈ m.nodes) :
    n ∈ r.nodes := by
  induction r using induct with
  | step r ih =>
    rcases mem_nodes.mp hm with rfl | ⟨i, hi, hmi⟩
    · exact hn
    · exact mem_nodes_of_input hi (ih i hi hmi)

theorem input_mem_nodes {r n i : Relation} (hn : n ∈ r.nodes) (hi : i ∈ n.inputs) :
    i ∈ r.nodes :=
  mem_nodes_trans hn (mem_nodes_of_input hi (mem_nodes_self i))

/-- Two nodes of the same identity are one node. -/
def Coherent (r : Relation) : Prop := ∀ m ∈ r.nodes, ∀ n ∈ r.nodes, m.id = n.id → m = n

/-- What an operator asks of the expressions that it shows as columns. -/
def ChecksOutputs (h : Header) (exprs : List NamedExpr) : Prop :=
  ∀ n ∈ exprs, n.expr.Made ∧ h.Binds n.expr

/-- What the builder of the root has seen to. -/
def Checked : Relation → Prop
  | .table _ _ _ fields => fields.names.Nodup
  | .project _ input exprs =>
    exprs ≠ [] ∧ ChecksOutputs input.header exprs ∧
      (∀ n ∈ exprs, n.expr.containsAggregate = false) ∧
      (Schema.names (exprs.map NamedExpr.field)).Nodup
  | .filter _ input conditions =>
    ∀ c ∈ conditions, c.Made ∧ input.header.Binds c ∧ c.containsAggregate = false
  | .aggregate _ input keys metrics having =>
    (∀ c ∈ having, c.Made ∧ input.header.Binds c ∧ c.containsWindow = false) ∧
      ¬ (keys = [] ∧ metrics = []) ∧
      ChecksOutputs input.header keys ∧ (∀ n ∈ keys, n.expr.isRowLevel = true) ∧
      ChecksOutputs input.header metrics ∧
      (∀ n ∈ metrics, n.expr.containsAggregate = true ∧ n.expr.containsWindow = false ∧
        ∀ ref ∈ n.expr.bareColumns,
          input.header.isAmong (input.header.keyPositions keys) ref = true) ∧
      (Schema.names ((keys ++ metrics).map NamedExpr.field)).Nodup
  | .sort _ input keys =>
    ∀ k ∈ keys, k.expr.Made ∧ input.header.Binds k.expr ∧ k.expr.containsAggregate = false
  | .limit _ _ count offset => count ≠ none ∨ offset ≠ 0
  | .join _ left right kind conditions =>
    (kind = .cross ↔ conditions = []) ∧
      (∀ c ∈ conditions,
        c.Made ∧ BindsSide left.header right.header c ∧ c.isRowLevel = true) ∧
      (joinFields left.schema right.schema).names.Nodup
  | .window _ input exprs =>
    ChecksOutputs input.header exprs ∧
      (∀ n ∈ exprs, n.expr.containsWindow = true ∧ n.expr.containsAggregate = false) ∧
      (Schema.names (input.schema ++ exprs.map NamedExpr.field)).Nodup
  | .distinct _ _ => True

theorem scan_eq_ok {id : NodeId} {name : String} {aliasName : Option String} {fields : Schema}
    {r : Relation} (h : scan id name aliasName fields = .ok r) :
    r = .table id name aliasName fields ∧ r.Checked := by
  obtain ⟨⟨⟩, hd, h⟩ := bind_eq_ok.mp h
  obtain rfl : _ = r := by simpa using h
  exact ⟨rfl, Schema.distinctNames_eq_ok.mp hd⟩

theorem select_eq_ok {id : NodeId} {input r : Relation} {exprs : List NamedExpr}
    (he : ∀ n ∈ exprs, n.expr.Made) (h : select id input exprs = .ok r) :
    r = .project id input exprs ∧ r.Checked := by
  unfold select at h
  obtain ⟨hne, h⟩ := guard_eq_ok.mp h
  obtain ⟨⟨⟩, hf, h⟩ := bind_eq_ok.mp h
  obtain ⟨⟨⟩, hd, h⟩ := bind_eq_ok.mp h
  obtain rfl : _ = r := by simpa using h
  have hc : ∀ n ∈ exprs, input.header.Binds n.expr ∧ n.expr.containsAggregate = false := by
    intro n hn
    obtain ⟨⟨⟩, hb, ha⟩ := bind_eq_ok.mp (forM_eq_ok.mp hf n hn)
    refine ⟨Header.bind_eq_ok.mp hb, ?_⟩
    split at ha
    · simp at ha
    · next hn => simpa using hn
  exact ⟨rfl, by simpa using hne, fun n hn => ⟨he n hn, (hc n hn).1⟩, fun n hn => (hc n hn).2,
    Schema.distinctNames_eq_ok.mp hd⟩

/-- What a filter asks of a condition. -/
def restrictable (h : Header) (c : Expr) : Except PlanError Unit := do
  h.checkCondition "Filter" c
  if c.containsAggregate then throw (.invalidAggregation .aggregateInFilter)

theorem restrictable_eq_ok {h : Header} {c : Expr} :
    restrictable h c = .ok () ↔
      h.Binds c ∧ c.dataType.isCondition = true ∧ c.containsAggregate = false := by
  unfold restrictable Header.checkCondition
  constructor
  · intro hc
    obtain ⟨⟨⟩, hc, ha⟩ := bind_eq_ok.mp hc
    obtain ⟨⟨⟩, hb, ht⟩ := bind_eq_ok.mp hc
    refine ⟨Header.bind_eq_ok.mp hb, expect_eq_ok.mp ht, ?_⟩
    cases hca : c.containsAggregate <;> simp [hca] at ha ⊢
  · rintro ⟨hb, ht, ha⟩
    simp [Header.bind_eq_ok.mpr hb, expect_eq_ok.mpr ht, ha]

theorem restrict_eq (id : NodeId) (input : Relation) (conditions : List Expr) :
    restrict id input conditions = (do
      conditions.forM (restrictable input.header)
      return .filter id input conditions) := rfl

theorem restrict_eq_ok_iff {id : NodeId} {input r : Relation} {conditions : List Expr} :
    restrict id input conditions = .ok r ↔
      (∀ c ∈ conditions, restrictable input.header c = .ok ()) ∧
        r = .filter id input conditions := by
  rw [restrict_eq, ← forM_eq_ok]
  cases conditions.forM (restrictable input.header) <;> simp [eq_comm]

theorem restrict_eq_ok {id : NodeId} {input r : Relation} {conditions : List Expr}
    (hm : ∀ c ∈ conditions, c.Made) (h : restrict id input conditions = .ok r) :
    r = .filter id input conditions ∧ r.Checked := by
  obtain ⟨hchecks, rfl⟩ := restrict_eq_ok_iff.mp h
  refine ⟨rfl, fun c hc => ?_⟩
  obtain ⟨hb, -, ha⟩ := restrictable_eq_ok.mp (hchecks c hc)
  exact ⟨hm c hc, hb, ha⟩

/-- What a grouping has been checked for, whatever its expressions are. -/
theorem group_accepted {id : NodeId} {input r : Relation} {keys metrics : List NamedExpr}
    {having : List Expr} (h : group id input keys having metrics = .ok r) :
    r = .aggregate id input keys metrics having ∧
      (∀ c ∈ having, input.header.checkGroupCondition c = .ok ()) ∧
      ¬ (keys = [] ∧ metrics = []) ∧
      (∀ n ∈ keys, input.header.Binds n.expr ∧ n.expr.isRowLevel = true) ∧
      (∀ n ∈ metrics, input.header.Binds n.expr ∧ n.expr.containsAggregate = true ∧
        n.expr.containsWindow = false ∧ ∀ ref ∈ n.expr.bareColumns,
          input.header.isAmong (input.header.keyPositions keys) ref = true) ∧
      (Schema.names ((keys ++ metrics).map NamedExpr.field)).Nodup := by
  unfold group at h
  obtain ⟨⟨⟩, hhf, h⟩ := bind_eq_ok.mp h
  obtain ⟨hne, h⟩ := guard_eq_ok.mp h
  obtain ⟨⟨⟩, hkf, h⟩ := bind_eq_ok.mp h
  obtain ⟨⟨⟩, hmf, h⟩ := bind_eq_ok.mp h
  obtain ⟨⟨⟩, hd, h⟩ := bind_eq_ok.mp h
  obtain rfl : _ = r := by simpa using h
  refine ⟨rfl, forM_eq_ok.mp hhf, by simpa using hne, fun n hn => ?_, fun n hn => ?_,
    Schema.distinctNames_eq_ok.mp hd⟩
  · obtain ⟨⟨⟩, hb, ha⟩ := bind_eq_ok.mp (forM_eq_ok.mp hkf n hn)
    refine ⟨Header.bind_eq_ok.mp hb, ?_⟩
    split at ha
    · simp at ha
    · next hn => simpa using hn
  · obtain ⟨⟨⟩, hb, ha⟩ := bind_eq_ok.mp (forM_eq_ok.mp hmf n hn)
    obtain ⟨hw, ha⟩ := guard_eq_ok.mp ha
    refine ⟨Header.bind_eq_ok.mp hb, ?_⟩
    simp only [Bool.or_eq_true, Bool.not_eq_true', not_or, Bool.not_eq_false, Bool.not_eq_true]
      at hw
    refine ⟨hw.1, hw.2, ?_⟩
    split at ha
    · simp at ha
    · next hn => simpa using hn

theorem group_eq_ok {id : NodeId} {input r : Relation} {keys metrics : List NamedExpr}
    {having : List Expr} (hk : ∀ n ∈ keys, n.expr.Made) (hh : ∀ c ∈ having, c.Made)
    (hm : ∀ n ∈ metrics, n.expr.Made) (h : group id input keys having metrics = .ok r) :
    r = .aggregate id input keys metrics having ∧ r.Checked := by
  obtain ⟨rfl, hhc, hne, hkc, hmc, hd⟩ := group_accepted h
  refine ⟨rfl, fun c hc => ?_, hne, fun n hn => ⟨hk n hn, (hkc n hn).1⟩,
    fun n hn => (hkc n hn).2, fun n hn => ⟨hm n hn, (hmc n hn).1⟩, fun n hn => (hmc n hn).2, hd⟩
  obtain ⟨hb, hw⟩ := Header.checkGroupCondition_eq_ok (hhc c hc)
  exact ⟨hh c hc, hb, hw⟩

/-- What a sort asks of a key. -/
def sortable (h : Header) (k : SortKey Expr) : Except PlanError Unit := do
  h.bind k.expr.columnRefs
  if k.expr.containsAggregate then throw (.invalidAggregation .aggregateInSortKey)

theorem sortBy_eq_ok_iff {id : NodeId} {input r : Relation} {keys : List (SortKey Expr)} :
    sortBy id input keys = .ok r ↔
      (∀ k ∈ keys, sortable input.header k = .ok ()) ∧ r = .sort id input keys := by
  have hsort : sortBy id input keys = (do
      keys.forM (sortable input.header)
      return .sort id input keys) := rfl
  rw [hsort, ← forM_eq_ok]
  cases keys.forM (sortable input.header) <;> simp [eq_comm]

theorem sortBy_eq_ok {id : NodeId} {input r : Relation} {keys : List (SortKey Expr)}
    (hk : ∀ k ∈ keys, k.expr.Made) (h : sortBy id input keys = .ok r) :
    r = .sort id input keys ∧ r.Checked := by
  obtain ⟨hchecks, rfl⟩ := sortBy_eq_ok_iff.mp h
  refine ⟨rfl, fun k hm => ?_⟩
  obtain ⟨⟨⟩, hb, ha⟩ := bind_eq_ok.mp (hchecks k hm)
  refine ⟨hk k hm, Header.bind_eq_ok.mp hb, ?_⟩
  split at ha
  · simp at ha
  · next hn => simpa using hn

theorem slice_eq_ok {id : NodeId} {input r : Relation} {count : Option Nat} {offset : Nat}
    (h : slice id input count offset = .ok r) : r = .limit id input count offset ∧ r.Checked := by
  unfold slice at h
  split at h
  · simp at h
  · next hn =>
    obtain rfl : _ = r := by simpa using h
    refine ⟨rfl, ?_⟩
    by_cases hc : count = none
    · subst hc
      exact .inr (by simpa using hn)
    · exact .inl hc

theorem joinWith_eq_ok {id : NodeId} {left right r : Relation} {kind : JoinKind}
    {conditions : List Expr} (hm : ∀ c ∈ conditions, c.Made)
    (h : joinWith id left right kind conditions = .ok r) :
    r = .join id left right kind conditions ∧ r.Checked := by
  unfold joinWith at h
  obtain ⟨hx, h⟩ := guard_eq_ok.mp h
  obtain ⟨hn, h⟩ := guard_eq_ok.mp h
  obtain ⟨⟨⟩, hf, h⟩ := bind_eq_ok.mp h
  obtain ⟨⟨⟩, hd, h⟩ := bind_eq_ok.mp h
  obtain rfl : _ = r := by simpa using h
  refine ⟨rfl, ?_, fun c hc => ?_, Schema.distinctNames_eq_ok.mp hd⟩
  · cases kind <;> simp_all
  · obtain ⟨⟨⟩, -, hg⟩ := bind_eq_ok.mp (forM_eq_ok.mp hf c hc)
    obtain ⟨hr, hg⟩ := guard_eq_ok.mp hg
    refine ⟨hm c hc, fun ref href => ?_, by simpa using hr⟩
    obtain ⟨side, hs, -⟩ := bind_eq_ok.mp (forM_eq_ok.mp hg ref href)
    exact ⟨side, hs⟩

theorem extend_eq_ok {id : NodeId} {input r : Relation} {exprs : List NamedExpr}
    (he : ∀ n ∈ exprs, n.expr.Made) (h : extend id input exprs = .ok r) :
    r = .window id input exprs ∧ r.Checked := by
  unfold extend at h
  obtain ⟨⟨⟩, hf, h⟩ := bind_eq_ok.mp h
  obtain ⟨⟨⟩, hd, h⟩ := bind_eq_ok.mp h
  obtain rfl : _ = r := by simpa using h
  have hc : ∀ n ∈ exprs, input.header.Binds n.expr ∧ n.expr.containsWindow = true ∧
      n.expr.containsAggregate = false := by
    intro n hn
    obtain ⟨⟨⟩, hb, hg⟩ := bind_eq_ok.mp (forM_eq_ok.mp hf n hn)
    obtain ⟨hw, ha⟩ := guard_eq_ok.mp hg
    refine ⟨Header.bind_eq_ok.mp hb, by simpa using hw, ?_⟩
    split at ha
    · simp at ha
    · next hn => simpa using hn
  exact ⟨rfl, fun n hn => ⟨he n hn, (hc n hn).1⟩, fun n hn => (hc n hn).2,
    Schema.distinctNames_eq_ok.mp hd⟩

/-- What a builder call makes has passed its checks and works on relations that exist. -/
theorem Builds.checked {existing : List Relation} {r : Relation} (h : Builds existing r) :
    r.Checked ∧ ∀ i ∈ r.inputs, i ∈ existing := by
  cases h with
  | scan h =>
    obtain ⟨rfl, hc⟩ := scan_eq_ok h
    exact ⟨hc, by simp [inputs]⟩
  | select hi he h =>
    obtain ⟨rfl, hc⟩ := select_eq_ok he h
    exact ⟨hc, by simpa [inputs] using hi⟩
  | restrict hi hm h =>
    obtain ⟨rfl, hc⟩ := restrict_eq_ok hm h
    exact ⟨hc, by simpa [inputs] using hi⟩
  | group hi hk hh hm h =>
    obtain ⟨rfl, hc⟩ := group_eq_ok hk hh hm h
    exact ⟨hc, by simpa [inputs] using hi⟩
  | sortBy hi hk h =>
    obtain ⟨rfl, hc⟩ := sortBy_eq_ok hk h
    exact ⟨hc, by simpa [inputs] using hi⟩
  | slice hi h =>
    obtain ⟨rfl, hc⟩ := slice_eq_ok h
    exact ⟨hc, by simpa [inputs] using hi⟩
  | joinWith hl hr hm h =>
    obtain ⟨rfl, hc⟩ := joinWith_eq_ok hm h
    exact ⟨hc, by simpa [inputs] using ⟨hl, hr⟩⟩
  | extend hi he h =>
    obtain ⟨rfl, hc⟩ := extend_eq_ok he h
    exact ⟨hc, by simpa [inputs] using hi⟩
  | @deduplicate id input hi =>
    refine ⟨trivial, fun i him => ?_⟩
    obtain rfl : i = input := List.mem_singleton.mp him
    exact hi

/-- What a session knows of the relations it has made: below them there is nothing that it has not
made, all of it is checked, and identities are not shared. -/
theorem Session.closed {existing : List Relation} (h : Session existing) :
    (∀ r ∈ existing, ∀ n ∈ r.nodes, n ∈ existing) ∧ (∀ r ∈ existing, r.Checked) ∧
      ∀ r ∈ existing, ∀ s ∈ existing, r.id = s.id → r = s := by
  induction h with
  | start => simp
  | @call existing r hs hb hid ih =>
    obtain ⟨hn, hc, hi⟩ := ih
    obtain ⟨hrc, hri⟩ := hb.checked
    refine ⟨?_, by simpa using ⟨hrc, hc⟩, ?_⟩
    · rintro q hq n hmem
      rcases List.mem_cons.mp hq with rfl | hq
      · rcases mem_nodes.mp hmem with rfl | ⟨i, him, hni⟩
        · exact List.mem_cons_self
        · exact List.mem_cons_of_mem _ (hn i (hri i him) n hni)
      · exact List.mem_cons_of_mem _ (hn q hq n hmem)
    · intro p hp q hq hpq
      rcases List.mem_cons.mp hp with rfl | hpe <;> rcases List.mem_cons.mp hq with rfl | hqe
      · rfl
      · exact absurd hpq.symm (hid q hqe)
      · exact absurd hpq (hid p hpe)
      · exact hi p hpe q hqe hpq

/-- Every node has passed the checks of its operator. -/
def WellFormed (r : Relation) : Prop := ∀ n ∈ r.nodes, n.Checked

theorem Valid.wellFormed {r : Relation} (h : r.Valid) : r.WellFormed := by
  obtain ⟨existing, hs, hr⟩ := h
  obtain ⟨hn, hc, -⟩ := hs.closed
  exact fun n hm => hc n (hn r hr n hm)

theorem Valid.node {r n : Relation} (h : r.Valid) (hn : n ∈ r.nodes) : n.Valid := by
  obtain ⟨existing, hs, hr⟩ := h
  exact ⟨existing, hs, hs.closed.1 r hr n hn⟩

theorem Valid.coherent {r : Relation} (h : r.Valid) : r.Coherent := by
  obtain ⟨existing, hs, hr⟩ := h
  obtain ⟨hn, -, hi⟩ := hs.closed
  exact fun m hm n hn' => hi m (hn r hr m hm) n (hn r hr n hn')

theorem WellFormed.checked {r : Relation} (h : r.WellFormed) : r.Checked := h r (mem_nodes_self r)

theorem WellFormed.node {r n : Relation} (h : r.WellFormed) (hn : n ∈ r.nodes) : n.WellFormed :=
  fun m hm => h m (mem_nodes_trans hn hm)

theorem WellFormed.input {r i : Relation} (h : r.WellFormed) (hi : i ∈ r.inputs) :
    i.WellFormed :=
  h.node (mem_nodes_of_input hi (mem_nodes_self i))

@[simp] theorem length_joinFields (l r : Schema) :
    (joinFields l r).length = l.length + r.length := by
  simp [joinFields]

theorem aligned_header (r : Relation) : r.header.Aligned := by
  induction r with
  | table => simp [Header.Aligned, header, Header.make]
  | project id input exprs ih => exact Header.aligned_make _ (by simp)
  | aggregate id input keys metrics having ih => exact Header.aligned_make _ (by simp)
  | window id input exprs ih =>
    exact Header.aligned_make _ (by simpa [Header.Aligned] using ih)
  | join id left right kind cs ihl ihr =>
    simp only [Header.Aligned] at ihl ihr
    simp [Header.Aligned, header, ihl, ihr]
  | filter id input _ ih | sort id input _ ih | limit id input _ _ ih | distinct id input ih =>
    exact ih

/-- The columns of a relation have different names. -/
theorem WellFormed.nodup_names {r : Relation} (h : r.WellFormed) : r.schema.names.Nodup := by
  induction r with
  | table => exact h.checked
  | project id input exprs ih => exact h.checked.2.2.2
  | aggregate id input keys metrics having ih => exact h.checked.2.2.2.2.2.2
  | window id input exprs ih => exact h.checked.2.2
  | join id left right kind cs ihl ihr => exact h.checked.2.2
  | filter id input _ ih | sort id input _ ih | limit id input _ _ ih | distinct id input ih =>
    exact ih (h.input (by simp [inputs]))

theorem WellFormed.nodup_input {root r i : Relation} (h : root.WellFormed) (hr : r ∈ root.nodes)
    (hi : i ∈ r.inputs) : i.schema.names.Nodup :=
  (h.node (input_mem_nodes hr hi)).nodup_names

/-- Two tables of one column each, joined where the columns are equal. -/
def pairing (kind : JoinKind) : Relation :=
  .join 2 (.table 0 "a" none [⟨"x", .int64, false⟩]) (.table 1 "b" none [⟨"y", .int64, true⟩]) kind
    [.binary .eq (.column ⟨none, "x"⟩ .int64) (.column ⟨some "b", "y"⟩ .int64)]

theorem valid_pairing {kind : JoinKind} (hk : kind ≠ .cross) : (pairing kind).Valid := by
  have ha : scan 0 "a" none [⟨"x", .int64, false⟩] = .ok _ := rfl
  have hb : scan 1 "b" none [⟨"y", .int64, true⟩] = .ok _ := rfl
  have he : Expr.applyBinary .eq (.column ⟨none, "x"⟩ .int64)
      (.column ⟨some "b", "y"⟩ .int64) = .ok _ := rfl
  have hj : joinWith 2 (.table 0 "a" none [⟨"x", .int64, false⟩])
      (.table 1 "b" none [⟨"y", .int64, true⟩]) kind
      [.binary .eq (.column ⟨none, "x"⟩ .int64) (.column ⟨some "b", "y"⟩ .int64)] =
      .ok (pairing kind) := by
    cases kind with
    | cross => exact absurd rfl hk
    | _ => rfl
  refine ⟨_, .call (.call (.call .start (.scan ha) (by simp)) (.scan hb) (by simp [id]))
    (.joinWith ?_ ?_ ?_ hj) (by simp [id, pairing]), List.mem_cons_self⟩
  · simp
  · simp
  · simp only [List.mem_singleton, forall_eq]
    exact .binary (.column _ _) (.column _ _) he

end Relation

end PlanSql
