import PlanSql.Proofs.Expr.Typing
import PlanSql.Proofs.Sql.Substitution

/-!
# Columns replaced by what defines them

Every column of a scalar expression is replaced by an expression, all at once. Where each column is
replaced by an expression of its type, the whole keeps its type, and so do the operands of all
operators. The conjuncts of a condition are replaced one by one; where a column stands for a
conjunction, the conjunct that it is falls into several.
-/
namespace PlanSql.Expr

mutual

/-- The expression with `σ ref t` in the place of every column `ref` of type `t`. -/
def substitute (σ : ColumnRef → DataType → Expr) : Expr → Expr
  | .literal v => .literal v
  | .column ref t => σ ref t
  | .unary op operand => .unary op (operand.substitute σ)
  | .binary op left right => .binary op (left.substitute σ) (right.substitute σ)
  | .function f args => .function f (substituteAll σ args)
  | .extract part operand => .extract part (operand.substitute σ)
  | .toTimestamp operand unit => .toTimestamp (operand.substitute σ) unit
  | .inList operand values negated => .inList (operand.substitute σ) values negated
  | .isNull operand negated => .isNull (operand.substitute σ) negated
  | .cast operand target => .cast (operand.substitute σ) target
  | .case branches otherwise =>
    .case (substituteBranches σ branches) (substituteOption σ otherwise)
  | .aggregate f arg distinct filter =>
    .aggregate f (substituteOption σ arg) distinct (substituteOption σ filter)
  | .window f args partitionBy orderBy =>
    .window f (substituteAll σ args) (substituteAll σ partitionBy) (substituteKeys σ orderBy)

def substituteAll (σ : ColumnRef → DataType → Expr) : List Expr → List Expr
  | [] => []
  | e :: rest => e.substitute σ :: substituteAll σ rest

def substituteOption (σ : ColumnRef → DataType → Expr) : Option Expr → Option Expr
  | none => none
  | some e => some (e.substitute σ)

def substituteBranches (σ : ColumnRef → DataType → Expr) :
    List (Expr × Expr) → List (Expr × Expr)
  | [] => []
  | (c, r) :: rest => (c.substitute σ, r.substitute σ) :: substituteBranches σ rest

def substituteKeys (σ : ColumnRef → DataType → Expr) :
    List (SortKey Expr) → List (SortKey Expr)
  | [] => []
  | ⟨e, descending⟩ :: rest => ⟨e.substitute σ, descending⟩ :: substituteKeys σ rest

end

variable {σ : ColumnRef → DataType → Expr}

theorem substituteAll_eq (es : List Expr) : substituteAll σ es = es.map (substitute σ) := by
  induction es with
  | nil => rfl
  | cons e rest ih => simp [substituteAll, ih]

theorem substituteOption_eq (e : Option Expr) :
    substituteOption σ e = e.map (substitute σ) := by
  cases e <;> rfl

theorem substituteBranches_eq (branches : List (Expr × Expr)) :
    substituteBranches σ branches = branches.map (Prod.map (substitute σ) (substitute σ)) := by
  induction branches with
  | nil => rfl
  | cons b rest ih => simp [substituteBranches, ih, Prod.map]

theorem substituteKeys_eq (ks : List (SortKey Expr)) :
    substituteKeys σ ks = ks.map (SortKey.map (substitute σ)) := by
  induction ks with
  | nil => rfl
  | cons k rest ih => simp [substituteKeys, ih, SortKey.map]

/-- Every column of the expression is replaced by an expression of its type. -/
def KeepsTypes (σ : ColumnRef → DataType → Expr) (e : Expr) : Prop :=
  ∀ ref t, .column ref t ∈ e.parts → (σ ref t).dataType = t

theorem KeepsTypes.child {e c : Expr} (h : e.KeepsTypes σ) (hc : c ∈ e.children) :
    c.KeepsTypes σ :=
  fun ref t hp => h ref t (mem_parts_of_child hc hp)

/-- With columns replaced by expressions of their types an expression has the type it had. -/
theorem dataType_substitute {e : Expr} (h : e.KeepsTypes σ) :
    (e.substitute σ).dataType = e.dataType := by
  induction e using induct with
  | step e ih =>
    have ih : ∀ c ∈ e.children, (c.substitute σ).dataType = c.dataType :=
      fun c hc => ih c hc (h.child hc)
    have hall : ∀ es : List Expr, (∀ c ∈ es, c ∈ e.children) →
        dataTypes (substituteAll σ es) = dataTypes es := by
      intro es hes
      rw [substituteAll_eq, dataTypes_eq, dataTypes_eq, List.map_map]
      exact List.map_congr_left fun c hc => ih c (hes c hc)
    cases e with
    | literal | extract | toTimestamp | inList | isNull | cast => rfl
    | column ref t => exact h ref t (mem_parts_self _)
    | unary op operand => simp [substitute, dataType, ih operand (by simp [children])]
    | binary op left right =>
      simp [substitute, dataType, ih left (by simp [children]), ih right (by simp [children])]
    | function f args => simp [substitute, dataType, hall args fun c hc => hc]
    | case branches otherwise =>
      have hbranches : branchTypes (substituteBranches σ branches) = branchTypes branches := by
        rw [substituteBranches_eq, branchTypes_eq, branchTypes_eq, List.map_map]
        refine List.map_congr_left fun b hb => ?_
        have hmem : ∀ c ∈ [b.1, b.2], c ∈ (case branches otherwise).children := fun c hc =>
          List.mem_append_left _ (List.mem_flatMap.mpr ⟨b, hb, hc⟩)
        simp [ih b.1 (hmem _ (by simp)), ih b.2 (hmem _ (by simp))]
      cases otherwise with
      | none => simp [substitute, substituteOption, dataType, hbranches]
      | some o =>
        simp [substitute, substituteOption, dataType, hbranches, ih o (by simp [children])]
    | aggregate f arg distinct filter =>
      cases arg with
      | none => rfl
      | some a => simp [substitute, substituteOption, dataType, ih a (by simp [children])]
    | window f args partitionBy orderBy =>
      simp [substitute, dataType, hall args fun c hc => by simp [children, hc]]

/-- Conjuncts are replaced one by one, and what they become may be several. -/
theorem conjuncts_substitute (e : Expr) :
    (e.substitute σ).conjuncts = (e.conjuncts.map (substitute σ)).flatMap conjuncts := by
  fun_induction conjuncts e with
  | case1 left right ihl ihr => simp [substitute, conjuncts, ihl, ihr]
  | case2 e he => simp

end PlanSql.Expr
