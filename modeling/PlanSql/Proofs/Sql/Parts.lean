import Mathlib.Data.List.Basic
import PlanSql.Sql.Select

/-!
# Parts of an SQL expression

The operands of an SQL expression, an induction over them, and the columns, aggregate calls and
window calls among the parts of an expression. The condition of a FILTER clause and the keys of an
OVER clause are parts like the arguments of the call.
-/
namespace PlanSql.Sql

/-- The expressions in an OVER clause. -/
def Over.keys (w : Over Expr) : List Expr := w.partitionBy ++ w.orderBy.map (·.expr)

namespace Expr

/-- The operands of an expression. -/
def children : Expr → List Expr
  | .column _ _ | .literal _ | .star => []
  | .unary _ operand | .extract _ operand | .isNull operand _ | .cast operand _ => [operand]
  | .binary _ left right => [left, right]
  | .call _ args _ filter window =>
    args ++ filter.toList ++ window.toList.flatMap Over.keys
  | .case branches otherwise => branches.flatMap (fun (c, r) => [c, r]) ++ otherwise.toList
  | .inList operand list _ => operand :: list

mutual

/-- An expression and all its parts, left to right. -/
def parts : Expr → List Expr
  | e@(.column _ _) | e@(.literal _) | e@(.star) => [e]
  | e@(.unary _ operand) | e@(.extract _ operand) | e@(.isNull operand _)
  | e@(.cast operand _) => e :: operand.parts
  | e@(.binary _ left right) => e :: (left.parts ++ right.parts)
  | e@(.call _ args _ filter window) =>
    e :: (partsOfAll args ++ partsOfOption filter ++ partsOfOver window)
  | e@(.case branches otherwise) => e :: (partsOfBranches branches ++ partsOfOption otherwise)
  | e@(.inList operand list _) => e :: (operand.parts ++ partsOfAll list)

def partsOfAll : List Expr → List Expr
  | [] => []
  | e :: rest => e.parts ++ partsOfAll rest

def partsOfOption : Option Expr → List Expr
  | none => []
  | some e => e.parts

def partsOfBranches : List (Expr × Expr) → List Expr
  | [] => []
  | (c, r) :: rest => c.parts ++ r.parts ++ partsOfBranches rest

def partsOfOver : Option (Over Expr) → List Expr
  | none => []
  | some ⟨ps, ks⟩ => partsOfAll ps ++ partsOfKeys ks

def partsOfKeys : List (SortKey Expr) → List Expr
  | [] => []
  | ⟨e, _⟩ :: rest => e.parts ++ partsOfKeys rest

end

theorem partsOfAll_eq (es : List Expr) : partsOfAll es = es.flatMap parts := by
  induction es with
  | nil => rfl
  | cons e rest ih => simp [partsOfAll, ih]

theorem partsOfOption_eq (e : Option Expr) : partsOfOption e = e.toList.flatMap parts := by
  cases e <;> simp [partsOfOption]

theorem partsOfBranches_eq (branches : List (Expr × Expr)) :
    partsOfBranches branches = (branches.flatMap fun (c, r) => [c, r]).flatMap parts := by
  induction branches with
  | nil => rfl
  | cons b rest ih => simp [partsOfBranches, ih]

theorem partsOfKeys_eq (keys : List (SortKey Expr)) :
    partsOfKeys keys = (keys.map (·.expr)).flatMap parts := by
  induction keys with
  | nil => rfl
  | cons k rest ih => simp [partsOfKeys, ih]

theorem partsOfOver_eq (window : Option (Over Expr)) :
    partsOfOver window = (window.toList.flatMap Over.keys).flatMap parts := by
  cases window <;> simp [partsOfOver, Over.keys, partsOfAll_eq, partsOfKeys_eq]

theorem parts_eq (e : Expr) : e.parts = e :: e.children.flatMap parts := by
  cases e <;> simp [parts, children, partsOfAll_eq, partsOfOption_eq, partsOfBranches_eq,
    partsOfOver_eq]

theorem mem_parts {e p : Expr} : p ∈ e.parts ↔ p = e ∨ ∃ c ∈ e.children, p ∈ c.parts := by
  rw [parts_eq]
  simp

@[simp] theorem mem_parts_self (e : Expr) : e ∈ e.parts := mem_parts.mpr (.inl rfl)

theorem mem_parts_of_child {e c p : Expr} (hc : c ∈ e.children) (hp : p ∈ c.parts) :
    p ∈ e.parts :=
  mem_parts.mpr (.inr ⟨c, hc, hp⟩)

theorem sizeOf_lt_of_mem_children {e c : Expr} (h : c ∈ e.children) : sizeOf c < sizeOf e := by
  cases e with
  | column q n => simp [children] at h
  | literal l => simp [children] at h
  | star => simp [children] at h
  | unary op operand | extract op operand | isNull operand op | cast operand op =>
    obtain rfl : c = operand := by simpa [children] using h
    simp +arith
  | binary op left right =>
    simp only [children, List.mem_cons, List.not_mem_nil, or_false] at h
    rcases h with rfl | rfl <;> simp +arith
  | inList operand list negated =>
    simp only [children, List.mem_cons] at h
    simp only [inList.sizeOf_spec]
    rcases h with rfl | h
    · omega
    · have := List.sizeOf_lt_of_mem h
      omega
  | case branches otherwise =>
    simp only [children, List.mem_append, List.mem_flatMap, Option.mem_toList] at h
    rcases h with ⟨⟨a, b⟩, hb, hc⟩ | hc
    · have := List.sizeOf_lt_of_mem hb
      simp only [List.mem_cons, List.not_mem_nil, or_false] at hc
      rcases hc with rfl | rfl <;> simp only [case.sizeOf_spec, Prod.mk.sizeOf_spec] at * <;> omega
    · obtain rfl : otherwise = some c := hc
      simp only [case.sizeOf_spec, Option.some.sizeOf_spec]
      omega
  | call name args distinct filter window =>
    simp only [children, List.mem_append, Option.mem_toList, List.mem_flatMap] at h
    simp only [call.sizeOf_spec]
    rcases h with (hc | hc) | ⟨w, hw, hc⟩
    · have := List.sizeOf_lt_of_mem hc
      omega
    · obtain rfl : filter = some c := hc
      simp only [Option.some.sizeOf_spec]
      omega
    · obtain rfl : window = some w := hw
      obtain ⟨ps, ks⟩ := w
      simp only [Over.keys, List.mem_append, List.mem_map] at hc
      simp only [Option.some.sizeOf_spec, Over.mk.sizeOf_spec]
      rcases hc with hc | ⟨⟨k, d⟩, hk, rfl⟩
      · have := List.sizeOf_lt_of_mem hc
        omega
      · have := List.sizeOf_lt_of_mem hk
        simp only [SortKey.mk.sizeOf_spec] at this ⊢
        omega

/-- What holds of an expression whenever it holds of its operands holds of all expressions. -/
@[elab_as_elim]
theorem induct {P : Expr → Prop} (step : ∀ e, (∀ c ∈ e.children, P c) → P e) (e : Expr) : P e :=
  step e fun c h =>
    have := sizeOf_lt_of_mem_children h
    induct step c
termination_by sizeOf e

theorem mem_parts_trans {e p q : Expr} (hp : p ∈ e.parts) (hq : q ∈ p.parts) : q ∈ e.parts := by
  induction e using induct with
  | step e ih =>
    rcases mem_parts.mp hp with rfl | ⟨c, hc, hpc⟩
    · exact hq
    · exact mem_parts_of_child hc (ih c hc hpc)

/-- A column as statements refer to it: its qualifier and its name. -/
abbrev Reference := Option String × String

/-- The column, if the expression is a reference and nothing else. -/
def reference? : Expr → Option Reference
  | .column q n => some (q, n)
  | _ => none

/-- All references to columns, left to right. -/
def references (e : Expr) : List Reference := e.parts.filterMap reference?

/-- The functions that are aggregates when they are called without a window. -/
def aggregateNames : List String :=
  ["COUNT", "SUM", "AVG", "MIN", "MAX", "STDDEV_SAMP", "VAR_SAMP"]

/-- The call of an aggregate over the rows of a group. -/
def isAggregateCall : Expr → Bool
  | .call name _ _ _ none => aggregateNames.contains name
  | _ => false

/-- The call of a function over the rows of a window. -/
def isWindowCall : Expr → Bool
  | .call _ _ _ _ (some _) => true
  | _ => false

/-- Whether the expression has an aggregate call among its parts. -/
def aggregates (e : Expr) : Bool := e.parts.any isAggregateCall

/-- Whether the expression has a window call among its parts. -/
def windows (e : Expr) : Bool := e.parts.any isWindowCall

/-- An expression that is worth something at a single row. -/
def isRowLevel (e : Expr) : Bool := !e.aggregates && !e.windows

theorem isRowLevel_iff {e : Expr} :
    e.isRowLevel = true ↔ e.aggregates = false ∧ e.windows = false := by
  simp [isRowLevel]

theorem aggregates_eq_false {e : Expr} :
    e.aggregates = false ↔ ∀ p ∈ e.parts, p.isAggregateCall = false := by
  simp [aggregates]

theorem aggregates_of_child {e c : Expr} (hc : c ∈ e.children) (h : e.aggregates = false) :
    c.aggregates = false :=
  aggregates_eq_false.mpr fun p hp => aggregates_eq_false.mp h p (mem_parts_of_child hc hp)

theorem windows_eq_false {e : Expr} :
    e.windows = false ↔ ∀ p ∈ e.parts, p.isWindowCall = false := by
  simp [windows]

theorem windows_of_part {e p : Expr} (hp : p ∈ e.parts) (h : e.windows = false) :
    p.windows = false :=
  windows_eq_false.mpr fun q hq => windows_eq_false.mp h q (mem_parts_trans hp hq)

theorem windows_of_child {e c : Expr} (hc : c ∈ e.children) (h : e.windows = false) :
    c.windows = false :=
  windows_of_part (mem_parts_of_child hc (mem_parts_self c)) h

theorem anyContainsWindow_eq_false {es : List Expr} :
    anyContainsWindow es = false ↔ ∀ e ∈ es, e.containsWindow = false := by
  induction es with
  | nil => simp [anyContainsWindow]
  | cons e rest ih => rw [anyContainsWindow, Bool.or_eq_false_iff, ih, List.forall_mem_cons]

theorem branchesContainWindow_eq_false {branches : List (Expr × Expr)} :
    branchesContainWindow branches = false ↔
      ∀ b ∈ branches, b.1.containsWindow = false ∧ b.2.containsWindow = false := by
  induction branches with
  | nil => simp [branchesContainWindow]
  | cons b rest ih =>
    rw [branchesContainWindow, Bool.or_eq_false_iff, Bool.or_eq_false_iff, ih,
      List.forall_mem_cons]

/-- No window function is found where there is no window call at all. -/
theorem containsWindow_of_windows {e : Expr} (h : e.windows = false) :
    e.containsWindow = false := by
  induction e using induct with
  | step e ih =>
    have hc : ∀ c ∈ e.children, c.containsWindow = false := fun c hc =>
      ih c hc (windows_of_child hc h)
    cases e with
    | column | literal | star => rfl
    | unary _ operand | extract _ operand | isNull operand _ | cast operand _ =>
      exact hc operand (by simp [children])
    | binary op left right =>
      rw [containsWindow, hc left (by simp [children]), hc right (by simp [children]),
        Bool.false_or]
    | call name args distinct filter window =>
      have hroot := windows_eq_false.mp h _ (mem_parts_self _)
      have hargs : anyContainsWindow args = false :=
        anyContainsWindow_eq_false.mpr fun e he => hc e (by simp [children, he])
      cases window with
      | some w => simp [isWindowCall] at hroot
      | none => rw [containsWindow, hargs, Option.isSome_none, Bool.false_or]
    | case branches otherwise =>
      have hbranches : branchesContainWindow branches = false := by
        apply branchesContainWindow_eq_false.mpr
        intro b hb
        have hmem : ∀ e ∈ [b.1, b.2], e ∈ (case branches otherwise).children := fun e he =>
          List.mem_append_left _ (List.mem_flatMap.mpr ⟨b, hb, he⟩)
        exact ⟨hc b.1 (hmem _ (by simp)), hc b.2 (hmem _ (by simp))⟩
      cases otherwise with
      | none => rw [containsWindow, hbranches]
      | some e => rw [containsWindow, hbranches, hc e (by simp [children]), Bool.false_or]
    | inList operand list negated =>
      have hlist : anyContainsWindow list = false :=
        anyContainsWindow_eq_false.mpr fun e he => hc e (by simp [children, he])
      rw [containsWindow, hc operand (by simp [children]), hlist, Bool.false_or]

/-- The condition of a FILTER clause has no window call in it. -/
def PlainFilter : Expr → Prop
  | .call _ _ _ (some condition) _ => condition.windows = false
  | _ => True

theorem plainFilter_of_windows {e : Expr} (h : e.windows = false) : e.PlainFilter := by
  unfold PlainFilter
  split
  · exact windows_of_child (by simp [children]) h
  · trivial

/-- Where no window call hides in a FILTER clause, all window calls are found. -/
theorem windows_of_containsWindow {e : Expr} (hf : ∀ p ∈ e.parts, p.PlainFilter)
    (h : e.containsWindow = false) : e.windows = false := by
  induction e using induct with
  | step e ih =>
    have below : ∀ c ∈ e.children, c.containsWindow = false → c.windows = false :=
      fun c hc => ih c hc fun p hp => hf p (mem_parts_of_child hc hp)
    have node : e.isWindowCall = false → (∀ c ∈ e.children, c.windows = false) →
        e.windows = false := by
      intro he hc
      refine windows_eq_false.mpr fun p hp => ?_
      rcases mem_parts.mp hp with rfl | ⟨c, hm, hpc⟩
      · exact he
      · exact windows_eq_false.mp (hc c hm) p hpc
    cases e with
    | column | literal | star => exact node rfl (by simp [children])
    | unary _ operand | extract _ operand | isNull operand _ | cast operand _ =>
      have ho : operand.containsWindow = false := h
      exact node rfl (by simpa [children] using below operand (by simp [children]) ho)
    | binary op left right =>
      rw [containsWindow, Bool.or_eq_false_iff] at h
      refine node rfl ?_
      simpa [children] using
        ⟨below left (by simp [children]) h.1, below right (by simp [children]) h.2⟩
    | inList operand list negated =>
      rw [containsWindow, Bool.or_eq_false_iff, anyContainsWindow_eq_false] at h
      refine node rfl fun c hc => below c hc ?_
      rcases List.mem_cons.mp hc with rfl | hc
      · exact h.1
      · exact h.2 c hc
    | case branches otherwise =>
      have hb : branchesContainWindow branches = false ∧
          ∀ o ∈ otherwise, o.containsWindow = false := by
        cases otherwise <;> simpa [containsWindow] using h
      rw [branchesContainWindow_eq_false] at hb
      refine node rfl fun c hc => below c hc ?_
      simp only [children, List.mem_append, List.mem_flatMap, List.mem_cons, List.not_mem_nil,
        or_false, Option.mem_toList] at hc
      rcases hc with ⟨b, hbm, rfl | rfl⟩ | hc
      · exact (hb.1 b hbm).1
      · exact (hb.1 b hbm).2
      · exact hb.2 c hc
    | call name args distinct filter window =>
      rw [containsWindow, Bool.or_eq_false_iff, anyContainsWindow_eq_false] at h
      obtain rfl : window = none := by simpa using h.1
      refine node rfl fun c hc => ?_
      have hroot := hf _ (mem_parts_self _)
      simp only [children, Option.toList_none, List.flatMap_nil, List.append_nil, List.mem_append,
        Option.mem_toList] at hc
      rcases hc with hc | rfl
      · exact below c (by simp [children, hc]) (h.2 c hc)
      · exact hroot

theorem mem_references {e : Expr} {ref : Reference} :
    ref ∈ e.references ↔ .column ref.1 ref.2 ∈ e.parts := by
  simp only [references, List.mem_filterMap]
  constructor
  · rintro ⟨p, hp, hr⟩
    cases p with
    | column q n =>
      obtain rfl : (q, n) = ref := by simpa [reference?] using hr
      exact hp
    | _ => simp [reference?] at hr
  · intro h
    exact ⟨_, h, rfl⟩

end Expr

namespace SelectOver

variable {F : Type}

/-- The expressions of a statement's clauses apart from its source. -/
def expressions (s : SelectOver F) : List Expr :=
  (s.projection.getD []).map (·.expr) ++ s.selection ++ s.groupBy ++ s.having ++ s.qualify
    ++ s.orderBy.map (·.expr)

/-- The statement has one row for each group: it has grouping keys or the call of an aggregate. -/
def isGrouped (s : SelectOver F) : Bool :=
  !s.groupBy.isEmpty || s.expressions.any Expr.aggregates

theorem forall_mem_expressions {s : SelectOver F} {P : Expr → Prop} :
    (∀ e ∈ s.expressions, P e) ↔
      (∀ item ∈ s.projection.getD [], P item.expr) ∧ (∀ e ∈ s.selection, P e) ∧
        (∀ e ∈ s.groupBy, P e) ∧ (∀ e ∈ s.having, P e) ∧ (∀ e ∈ s.qualify, P e) ∧
        ∀ k ∈ s.orderBy, P k.expr := by
  simp only [expressions, List.mem_append, List.mem_map, or_imp, forall_and, forall_exists_index,
    and_imp, forall_apply_eq_imp_iff₂, and_assoc]

end SelectOver

end PlanSql.Sql
