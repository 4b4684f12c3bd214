import PlanSql.Proofs.Relation.Typing

/-!
# Columns that are carried on

A reference keeps the type that its column had where it was taken, and is used on other relations,
made later. Filters, sorts, windows and joins carry the columns of their inputs on, and projections
and groupings carry on those that they show by reference, under the same name or another. A column
that is carried on keeps its type, so that a reference is used with the right type wherever it
denotes the column that it was taken from. What it must not denote is another column that has
taken the name since: the type of that one is no concern of the check.
-/
namespace PlanSql

namespace Relation

/-- Column `i` of a relation is carried on, by all operators in between, as column `j` of another. -/
inductive Carries (s : Relation) (i : Nat) : Relation → Nat → Prop
  | own : Carries s i s i
  | project {id : NodeId} {input : Relation} {exprs : List NamedExpr} {n : NamedExpr}
      {ref : ColumnRef} {j k : Nat} (h : Carries s i input k) (hn : exprs[j]? = some n)
      (hr : n.expr.column? = some ref) (hk : input.header.lookup ref = .found k) :
      Carries s i (.project id input exprs) j
  | key {id : NodeId} {input : Relation} {keys metrics : List NamedExpr} {having : List Expr}
      {n : NamedExpr} {ref : ColumnRef} {j k : Nat} (h : Carries s i input k)
      (hn : keys[j]? = some n) (hr : n.expr.column? = some ref)
      (hk : input.header.lookup ref = .found k) :
      Carries s i (.aggregate id input keys metrics having) j
  | filter {id : NodeId} {input : Relation} {conditions : List Expr} {j : Nat}
      (h : Carries s i input j) : Carries s i (.filter id input conditions) j
  | sort {id : NodeId} {input : Relation} {keys : List (SortKey Expr)} {j : Nat}
      (h : Carries s i input j) : Carries s i (.sort id input keys) j
  | limit {id : NodeId} {input : Relation} {count : Option Nat} {offset j : Nat}
      (h : Carries s i input j) : Carries s i (.limit id input count offset) j
  | window {id : NodeId} {input : Relation} {exprs : List NamedExpr} {j : Nat}
      (h : Carries s i input j) : Carries s i (.window id input exprs) j
  | distinct {id : NodeId} {input : Relation} {j : Nat} (h : Carries s i input j) :
      Carries s i (.distinct id input) j
  | left {id : NodeId} {left right : Relation} {kind : JoinKind} {conditions : List Expr} {j : Nat}
      (h : Carries s i left j) : Carries s i (.join id left right kind conditions) j
  | right {id : NodeId} {left right : Relation} {kind : JoinKind} {conditions : List Expr}
      {j : Nat} (h : Carries s i right j) :
      Carries s i (.join id left right kind conditions) (left.schema.length + j)

/-- The column of an input that a reference in an expression of the root denotes: for a join, that of
the one side which has it. -/
inductive Denotes : Relation → ColumnRef → Relation → Nat → Prop
  | input {n input : Relation} {ref : ColumnRef} {j : Nat} (hn : n.inputs = [input])
      (h : input.header.lookup ref = .found j) : Denotes n ref input j
  | left {id : NodeId} {left right : Relation} {kind : JoinKind} {conditions : List Expr}
      {ref : ColumnRef} {j : Nat} (h : resolveSide left.header right.header ref = .ok (.left, j)) :
      Denotes (.join id left right kind conditions) ref left j
  | right {id : NodeId} {left right : Relation} {kind : JoinKind} {conditions : List Expr}
      {ref : ColumnRef} {j : Nat} (h : resolveSide left.header right.header ref = .ok (.right, j)) :
      Denotes (.join id left right kind conditions) ref right j

/-- In the expressions of `n` the reference denotes no other column than in `s`: that column has been
carried on to an input of `n`. -/
def KeepsReference (s : Relation) (ref : ColumnRef) (n : Relation) : Prop :=
  ∀ i input j, s.header.lookup ref = .found i → n.Denotes ref input j → s.Carries i input j

/-- Every column reference that was used in making a relation had been given by a relation made
before, and denotes there the column that it was taken from. -/
def ReferencesKept : List Relation → Prop
  | [] => True
  | r :: earlier =>
    (∀ e ∈ r.exprs, ∀ ref t, .column ref t ∈ e.parts →
      ∃ s ∈ earlier, s.header.Gives ref t ∧ s.KeepsReference ref r) ∧ ReferencesKept earlier

variable {s k n input : Relation} {ref : ColumnRef} {i j : Nat} {t : DataType}

theorem Denotes.mem_inputs (h : n.Denotes ref input j) : input ∈ n.inputs := by
  cases h with
  | input hn _ => simp [hn]
  | left _ | right _ => simp [inputs]

theorem Denotes.lookup_eq (h : n.Denotes ref input j) : input.header.lookup ref = .found j := by
  cases h with
  | input _ h => exact h
  | left h => exact (resolveSide_eq_left.mp h).1
  | right h => exact (resolveSide_eq_right.mp h).2

/-- The type that a reference has in an operator's expressions is that of the column it denotes. -/
theorem denotes_of_inputType? (h : n.inputType? ref = some t) :
    ∃ input j, n.Denotes ref input j ∧ (input.schema[j]?).map (·.dataType) = some t := by
  have unary : ∀ input, n.inputs = [input] →
      ∃ input j, n.Denotes ref input j ∧ (input.schema[j]?).map (·.dataType) = some t := by
    intro input hn
    rw [inputType?_of_inputs hn] at h
    obtain ⟨j, f, hj, hf, rfl⟩ := Header.typeOf?_eq_some.mp h
    exact ⟨input, j, .input hn hj, by simp [schema, hf]⟩
  cases n with
  | table => simp [inputType?] at h
  | join id left right kind cs =>
    simp only [inputType?] at h
    split at h
    · next j hj => exact ⟨left, j, .left hj, h⟩
    · next j hj => exact ⟨right, j, .right hj, h⟩
    · simp at h
  | project | filter | aggregate | sort | limit | window | distinct => exact unary _ rfl

/-- An input keeps its references in the operator that works on it. -/
theorem keepsReference_of_mem_inputs (hs : s ∈ n.inputs) : s.KeepsReference ref n := by
  intro i input j hi hd
  have own : s = input → s.Carries i input j := by
    rintro rfl
    obtain rfl : i = j := by simpa [hi] using hd.lookup_eq
    exact .own
  cases hd with
  | input hn _ => exact own (by simpa [hn] using hs)
  | left h =>
    rcases List.mem_pair.mp hs with rfl | rfl
    · exact own rfl
    · simp [(resolveSide_eq_left.mp h).2] at hi
  | right h =>
    rcases List.mem_pair.mp hs with rfl | rfl
    · simp [(resolveSide_eq_right.mp h).1] at hi
    · exact own rfl

/-- A relation carries on what its continuation does. -/
theorem Continues.carries (h : s.Continues k) (i : Nat) : s.Carries i k i := by
  induction h with
  | refl => exact .own
  | restrict _ hc h ih =>
    obtain ⟨rfl, -⟩ := restrict_eq_ok hc h
    exact .filter ih
  | sortBy _ hm h ih =>
    obtain ⟨rfl, -⟩ := sortBy_eq_ok hm h
    exact .sort ih
  | slice _ h ih =>
    obtain ⟨rfl, -⟩ := slice_eq_ok h
    exact .limit ih
  | extend _ he h ih =>
    obtain ⟨rfl, -⟩ := extend_eq_ok he h
    exact .window ih
  | deduplicate _ ih => exact .distinct ih

/-- A relation keeps its references in what works on its continuation. -/
theorem Continues.keepsReference (h : s.Continues input) (hn : n.inputs = [input]) :
    s.KeepsReference ref n := by
  intro i k j hi hd
  obtain rfl : k = input := by simpa [hn] using hd.mem_inputs
  have hmem : i ∈ k.header.hits ref := h.heads.mem_hits (by simp [Header.lookup_eq_found.mp hi])
  obtain rfl : i = j := by simpa [Header.lookup_eq_found.mp hd.lookup_eq] using hmem
  exact h.carries i

/-- A reference is kept that denotes, in the one input, the column carried on there. -/
theorem keepsReference_of_carries (hn : n.inputs = [input]) (hi : s.header.lookup ref = .found i)
    (hj : input.header.lookup ref = .found j) (h : s.Carries i input j) :
    s.KeepsReference ref n := by
  intro i' input' j' hi' hd
  obtain rfl : input' = input := by simpa [hn] using hd.mem_inputs
  obtain rfl : i = i' := by simpa [hi] using hi'
  obtain rfl : j = j' := by simpa [hj] using hd.lookup_eq
  exact h

theorem dataType_joinedRight (left : Schema) (f : Field) :
    (joinedRight left f).dataType = f.dataType := by
  unfold joinedRight
  split <;> rfl

/-- An output that is a column by reference has the type that the reference has. -/
theorem getElem?_output {exprs : List NamedExpr} {n : NamedExpr} (hn : exprs[j]? = some n)
    (hr : n.expr.column? = some ref) {type? : ColumnRef → Option DataType}
    (ht : n.expr.WellTyped type?) :
    ∃ f, (exprs.map NamedExpr.field)[j]? = some f ∧ type? ref = some f.dataType := by
  obtain ⟨t, he⟩ := Expr.column?_eq_some.mp hr
  refine ⟨n.field, by simp [hn], ?_⟩
  rw [ht.columns ref t (he ▸ Expr.mem_parts_self _), NamedExpr.field, he]
  rfl

/-- A column that is carried on keeps its type. -/
theorem Carries.dataType_eq (h : s.Carries i k j) (hk : ∀ m ∈ k.nodes, m.WellTyped) {f : Field}
    (hf : s.schema[i]? = some f) : ∃ g, k.schema[j]? = some g ∧ g.dataType = f.dataType := by
  have below : ∀ {r m : Relation}, m ∈ r.inputs → (∀ m ∈ r.nodes, m.WellTyped) →
      ∀ n ∈ m.nodes, n.WellTyped := fun hm hr n hn => hr n (mem_nodes_of_input hm hn)
  -- an output is typed by what its reference denotes in the input
  have output : ∀ {input : Relation} {exprs : List NamedExpr} {n : NamedExpr} {ref : ColumnRef}
      {j k : Nat}, exprs[j]? = some n → n.expr.column? = some ref →
      n.expr.WellTyped input.header.typeOf? → input.header.lookup ref = .found k →
      (∃ g, input.schema[k]? = some g ∧ g.dataType = f.dataType) →
      ∃ g, (exprs.map NamedExpr.field)[j]? = some g ∧ g.dataType = f.dataType := by
    rintro input exprs n ref j k hn hr ht hl ⟨g, hg, hgf⟩
    obtain ⟨o, ho, hto⟩ := getElem?_output hn hr ht
    obtain ⟨k', g', hl', hg', hgo⟩ := Header.typeOf?_eq_some.mp hto
    obtain rfl : k = k' := by simpa [hl] using hl'
    obtain rfl := Option.some.inj (hg.symm.trans hg')
    exact ⟨o, ho, hgo.symm.trans hgf⟩
  induction h with
  | own => exact ⟨f, hf, rfl⟩
  | project h hn hr hl ih =>
    have ht := (hk _ (mem_nodes_self _)).exprs _ (List.mem_map_of_mem (List.mem_of_getElem? hn))
    exact output hn hr ht hl (ih (below (by simp [inputs]) hk))
  | @key id input keys metrics having n ref j k h hn hr hl ih =>
    have ht := (hk _ (mem_nodes_self _)).exprs n.expr (by
      simp only [exprs, List.mem_append]
      exact .inl (.inl (List.mem_map_of_mem (List.mem_of_getElem? hn))))
    have hlt := (List.getElem?_eq_some_iff.mp hn).1
    have hn' : (keys ++ metrics)[j]? = some n := by rwa [List.getElem?_append_left hlt]
    exact output hn' hr ht hl (ih (below (by simp [inputs]) hk))
  | filter h ih | sort h ih | limit h ih | distinct h ih =>
    exact ih (below (by simp [inputs]) hk)
  | @window id input exprs j h ih =>
    obtain ⟨g, hg, hgf⟩ := ih (below (by simp [inputs]) hk)
    exact ⟨g, List.getElem?_append_left (List.getElem?_eq_some_iff.mp hg).1 ▸ hg, hgf⟩
  | @left id left right kind cs j h ih =>
    obtain ⟨g, hg, hgf⟩ := ih (below (by simp [inputs]) hk)
    exact ⟨g, joinFields_left _ hg, hgf⟩
  | @right id left right kind cs j h ih =>
    obtain ⟨g, hg, hgf⟩ := ih (below (by simp [inputs]) hk)
    exact ⟨_, joinFields_right _ hg, (dataType_joinedRight _ g).trans hgf⟩

/-- Where it keeps a reference, a relation agrees on the type of it. -/
theorem KeepsReference.agrees (h : s.KeepsReference ref n)
    (hn : ∀ i ∈ n.inputs, ∀ m ∈ i.nodes, m.WellTyped) : s.Agrees ref n := by
  intro t t' ht ht'
  obtain ⟨i, f, hi, hf, rfl⟩ := Header.typeOf?_eq_some.mp ht
  obtain ⟨input, j, hd, hj⟩ := denotes_of_inputType? ht'
  obtain ⟨g, hg, hgf⟩ := (h i input j hi hd).dataType_eq (hn input hd.mem_inputs) hf
  simpa [hg, hgf] using hj

/-- In a session every expression is well typed over the inputs of its operator, provided that its
references denote the columns that they were taken from. -/
theorem session_wellTyped {existing : List Relation} (hs : Session existing)
    (hg : ReferencesKept existing) : ∀ r ∈ existing, r.WellTyped := by
  have hcond := hs.isCondition
  induction hs with
  | start => simp
  | @call earlier r hs hb hid ih =>
    have hbelow := ih hg.2 hs.isCondition
    have hinputs : ∀ i ∈ r.inputs, ∀ m ∈ i.nodes, m.WellTyped :=
      fun i hi m hm => hbelow m (hs.closed.1 i (hb.checked.2 i hi) m hm)
    refine List.forall_mem_cons.mpr ⟨?_, hbelow⟩
    refine hb.checked.1.wellTyped (hcond r List.mem_cons_self) fun e he ref t hr => ?_
    obtain ⟨s, hmem, hgives, hkeeps⟩ := hg.1 e he ref t hr
    exact ⟨s, Valid.wellFormed ⟨earlier, hs, hmem⟩, hgives, hkeeps.agrees hinputs⟩

/-- The orders by their numbers, with the customers who placed them. -/
def numberedOrders : Relation :=
  .project 3 placements [⟨.column ⟨some "orders", "id"⟩ .int64, some "number"⟩,
    ⟨.column ⟨some "customers", "id"⟩ .int64, some "placer"⟩]

/-- The orders after the first, by the column of the table that the orders are from. -/
def laterOrders : Relation :=
  .filter 4 numberedOrders
    [.binary .gt (.column ⟨some "orders", "id"⟩ .int64) (.literal (.int 1))]

/-- The calls that lead to the later orders. -/
def laterOrdersHistory : List Relation := [
  laterOrders, numberedOrders, placements,
  .table 1 "orders" none [⟨"id", .int64, false⟩, ⟨"customer", .int64, true⟩],
  .table 0 "customers" none [⟨"id", .int64, false⟩]]

theorem session_laterOrders : Session laterOrdersHistory := by
  have hc : scan 0 "customers" none [⟨"id", .int64, false⟩] = .ok _ := rfl
  have ho : scan 1 "orders" none [⟨"id", .int64, false⟩, ⟨"customer", .int64, true⟩] = .ok _ := rfl
  have hj : joinWith 2 (.table 0 "customers" none [⟨"id", .int64, false⟩])
      (.table 1 "orders" none [⟨"id", .int64, false⟩, ⟨"customer", .int64, true⟩]) .inner
      [.binary .eq (.column ⟨some "customers", "id"⟩ .int64)
        (.column ⟨some "orders", "customer"⟩ .int64)] = .ok placements := rfl
  have hp : select 3 placements [⟨.column ⟨some "orders", "id"⟩ .int64, some "number"⟩,
      ⟨.column ⟨some "customers", "id"⟩ .int64, some "placer"⟩] = .ok numberedOrders := rfl
  have hf : restrict 4 numberedOrders
      [.binary .gt (.column ⟨some "orders", "id"⟩ .int64) (.literal (.int 1))] =
      .ok laterOrders := rfl
  have he : Expr.applyBinary .eq (.column ⟨some "customers", "id"⟩ .int64)
      (.column ⟨some "orders", "customer"⟩ .int64) = .ok _ := rfl
  have hg : Expr.applyBinary .gt (.column ⟨some "orders", "id"⟩ .int64) (.literal (.int 1)) =
      .ok _ := rfl
  refine .call (.call (.call (.call (.call .start (.scan hc) (by simp)) (.scan ho) (by simp [id]))
    (.joinWith (by simp) (by simp) ?_ hj) (by simp [id, placements]))
    (.select (by simp) ?_ hp) (by simp [id, placements, numberedOrders]))
    (.restrict (by simp) ?_ hf) (by simp [id, placements, numberedOrders, laterOrders])
  · simpa using .binary (.column _ _) (.column _ _) he
  · simpa using ⟨.column _ _, .column _ _⟩
  · simpa using .binary (.column _ _) (.literal _) hg

/-- The condition speaks of a table three relations below, through a projection that renames its
column and a join. -/
theorem laterOrders_wellTyped : ReferencesKept laterOrdersHistory ∧ laterOrders.WellTyped := by
  have customer : (header (.table 0 "customers" none [⟨"id", .int64, false⟩])).column "id" =
      .ok (.column ⟨some "customers", "id"⟩ .int64) := rfl
  have order : (header (.table 1 "orders" none
      [⟨"id", .int64, false⟩, ⟨"customer", .int64, true⟩])).column "id" =
      .ok (.column ⟨some "orders", "id"⟩ .int64) := rfl
  have placer : (header (.table 1 "orders" none
      [⟨"id", .int64, false⟩, ⟨"customer", .int64, true⟩])).column "customer" =
      .ok (.column ⟨some "orders", "customer"⟩ .int64) := rfl
  have hkept : ReferencesKept laterOrdersHistory := by
    refine ⟨?_, ?_, ?_, by simp [exprs], by simp [exprs], trivial⟩
    · intro e he ref t hr
      obtain rfl := List.mem_singleton.mp he
      obtain ⟨rfl, rfl⟩ : ref = ⟨some "orders", "id"⟩ ∧ t = .int64 := by
        simpa [Expr.parts, Expr.walk, Expr.visit, Expr.inside] using hr
      -- column 0 of the table is column 1 of the join, which the projection shows first
      exact ⟨_, by simp, .column order, keepsReference_of_carries (i := 0) rfl rfl rfl
        (.project (.right .own) rfl rfl rfl)⟩
    · intro e he ref t hr
      obtain rfl | rfl := List.mem_pair.mp he
      · obtain ⟨rfl, rfl⟩ : ref = ⟨some "orders", "id"⟩ ∧ t = .int64 := by
          simpa [Expr.parts, Expr.walk, Expr.visit, Expr.inside] using hr
        exact ⟨_, by simp, .column order,
          keepsReference_of_carries (i := 0) rfl rfl rfl (.right .own)⟩
      · obtain ⟨rfl, rfl⟩ : ref = ⟨some "customers", "id"⟩ ∧ t = .int64 := by
          simpa [Expr.parts, Expr.walk, Expr.visit, Expr.inside] using hr
        exact ⟨_, by simp, .column customer,
          keepsReference_of_carries (i := 0) rfl rfl rfl (.left .own)⟩
    · intro e he ref t hr
      obtain rfl := List.mem_singleton.mp he
      have hr : (ref = ⟨some "customers", "id"⟩ ∧ t = .int64) ∨
          ref = ⟨some "orders", "customer"⟩ ∧ t = .int64 := by
        simpa [Expr.parts, Expr.walk, Expr.visit, Expr.inside] using hr
      rcases hr with ⟨rfl, rfl⟩ | ⟨rfl, rfl⟩
      · exact ⟨_, by simp, .column customer,
          keepsReference_of_mem_inputs (by simp [inputs, placements])⟩
      · exact ⟨_, by simp, .column placer,
          keepsReference_of_mem_inputs (by simp [inputs, placements])⟩
  exact ⟨hkept, session_wellTyped session_laterOrders hkept laterOrders List.mem_cons_self⟩

/-- A table of two columns of different types. -/
def labels : Relation := .table 0 "t" none [⟨"a", .int64, false⟩, ⟨"b", .string, false⟩]

/-- The second column under the name of the first, then filtered by the first. -/
def renamedLabels : Relation :=
  .filter 2 (.project 1 labels [⟨.column ⟨some "t", "b"⟩ .string, some "a"⟩])
    [.binary .gt (.column ⟨some "t", "a"⟩ .int64) (.literal (.int 1))]

theorem session_renamedLabels :
    Session [renamedLabels, .project 1 labels [⟨.column ⟨some "t", "b"⟩ .string, some "a"⟩],
      labels] := by
  have ht : scan 0 "t" none [⟨"a", .int64, false⟩, ⟨"b", .string, false⟩] = .ok labels := rfl
  have hp : select 1 labels [⟨.column ⟨some "t", "b"⟩ .string, some "a"⟩] = .ok _ := rfl
  have he : Expr.applyBinary .gt (.column ⟨some "t", "a"⟩ .int64) (.literal (.int 1)) = .ok _ := rfl
  have hf : restrict 2 (.project 1 labels [⟨.column ⟨some "t", "b"⟩ .string, some "a"⟩])
      [.binary .gt (.column ⟨some "t", "a"⟩ .int64) (.literal (.int 1))] = .ok renamedLabels := rfl
  refine .call (.call (.call .start (.scan ht) (by simp)) (.select (by simp) ?_ hp)
    (by simp [id, labels])) (.restrict (by simp) ?_ hf) (by simp [id, labels, renamedLabels])
  · simpa using Expr.Made.column _ _
  · simpa using .binary (.column _ _) (.literal _) he

/-- A number is compared with a text: the reference was taken where the name meant a number, and it
is used where the name means a text. -/
theorem reference_mistyped :
    Session [renamedLabels, .project 1 labels [⟨.column ⟨some "t", "b"⟩ .string, some "a"⟩],
      labels] ∧
    labels.header.column "a" = .ok (.column ⟨some "t", "a"⟩ .int64) ∧
    .binary .gt (.column ⟨some "t", "a"⟩ .int64) (.literal (.int 1)) ∈ renamedLabels.exprs ∧
    renamedLabels.inputType? ⟨some "t", "a"⟩ = some .string ∧
    (BinaryOp.gt.resultType .string .int64).isOk = false :=
  ⟨session_renamedLabels, rfl, List.mem_cons_self, rfl, rfl⟩

end Relation

end PlanSql
