import PlanSql.Plan.Resolution
import PlanSql.Proofs.Checking

/-!
# Terms and the expressions they describe

An induction over terms, and what it means that several terms describe several expressions: one
describes the other, term by term, wherever they stand in the term that they are parts of.
-/
namespace PlanSql.Term

/-- The terms that a term applies to, in the order they are given. -/
def children : Term → List Term
  | .literal _ _ | .column _ _ => []
  | .unary _ operand | .extract _ operand | .toTimestamp operand _ | .inList operand _ _
  | .isNull operand _ | .cast operand _ => [operand]
  | .binary _ left right => [left, right]
  | .call _ args => args
  | .case branches otherwise => branches.flatMap (fun (c, r) => [c, r]) ++ otherwise.toList
  | .aggregate _ arg _ filter => arg.toList ++ filter.toList
  | .window _ args partitionBy orderBy => args ++ partitionBy ++ orderBy.map (·.expr)

theorem sizeOf_lt_of_mem_children {t c : Term} (h : c ∈ t.children) : sizeOf c < sizeOf t := by
  cases t with
  | literal value dataType => simp [children] at h
  | column name table => simp [children] at h
  | unary op operand | extract op operand | toTimestamp operand op | isNull operand op
  | cast operand op =>
    simp only [children, List.mem_singleton] at h
    subst h
    simp +arith
  | inList operand values negated =>
    simp only [children, List.mem_singleton] at h
    subst h
    simp +arith
  | binary op left right =>
    simp only [children, List.mem_cons, List.not_mem_nil, or_false] at h
    rcases h with rfl | rfl <;> simp +arith
  | call f args =>
    have := List.sizeOf_lt_of_mem (show c ∈ args from h)
    simp only [call.sizeOf_spec]
    omega
  | case branches otherwise =>
    simp only [children, List.mem_append, List.mem_flatMap, Option.mem_toList] at h
    rcases h with ⟨⟨a, b⟩, hb, hc⟩ | hc
    · have := List.sizeOf_lt_of_mem hb
      simp only [List.mem_cons, List.not_mem_nil, or_false] at hc
      rcases hc with rfl | rfl <;> simp only [case.sizeOf_spec, Prod.mk.sizeOf_spec] at * <;> omega
    · obtain rfl : otherwise = some c := hc
      simp only [case.sizeOf_spec, Option.some.sizeOf_spec]
      omega
  | aggregate f arg distinct filter =>
    simp only [children, List.mem_append, Option.mem_toList] at h
    rcases h with hc | hc
    · obtain rfl : arg = some c := hc
      simp only [aggregate.sizeOf_spec, Option.some.sizeOf_spec]
      omega
    · obtain rfl : filter = some c := hc
      simp only [aggregate.sizeOf_spec, Option.some.sizeOf_spec]
      omega
  | window f args partitionBy orderBy =>
    simp only [children, List.mem_append, List.mem_map] at h
    simp only [window.sizeOf_spec]
    rcases h with (hc | hc) | ⟨⟨k, d⟩, hk, rfl⟩
    · have := List.sizeOf_lt_of_mem hc
      omega
    · have := List.sizeOf_lt_of_mem hc
      omega
    · have := List.sizeOf_lt_of_mem hk
      simp only [SortKey.mk.sizeOf_spec] at this ⊢
      omega

/-- What holds of a term whenever it holds of the terms it applies to holds of all terms. -/
@[elab_as_elim]
theorem induct {P : Term → Prop} (step : ∀ t, (∀ c ∈ t.children, P c) → P t) (t : Term) : P t :=
  step t fun c h =>
    have := sizeOf_lt_of_mem_children h
    induct step c
termination_by sizeOf t

variable {scope : TermScope}

/-- The term describes the expression. -/
def Describes (scope : TermScope) (t : Term) (e : Expr) : Prop := t.resolve scope = .ok e

theorem resolveAll_eq_ok {ts : List Term} {es : List Expr} :
    resolveAll scope ts = .ok es ↔ List.Forall₂ (Describes scope) ts es := by
  induction ts generalizing es with
  | nil => cases es <;> simp [resolveAll]
  | cons t rest ih =>
    simp only [resolveAll, bind_eq_ok, ih, pure_eq_ok, Except.ok.injEq]
    constructor
    · rintro ⟨e, he, es, hes, rfl⟩
      exact .cons he hes
    · rintro (_ | ⟨he, hes⟩)
      exact ⟨_, he, _, hes, rfl⟩

theorem resolveOption_eq_ok {o : Option Term} {x : Option Expr}
    (h : resolveOption scope o = .ok x) : List.Forall₂ (Describes scope) o.toList x.toList := by
  cases o with
  | none =>
    obtain rfl : none = x := by simpa [resolveOption] using h
    exact .nil
  | some t =>
    obtain ⟨e, he, h⟩ := bind_eq_ok.mp h
    obtain rfl : _ = x := by simpa using h
    exact .cons he .nil

theorem resolveBranches_eq_ok {bs : List (Term × Term)} {xs : List (Expr × Expr)}
    (h : resolveBranches scope bs = .ok xs) : List.Forall₂ (Describes scope)
      (bs.flatMap fun (c, r) => [c, r]) (xs.flatMap fun (c, r) => [c, r]) := by
  induction bs generalizing xs with
  | nil =>
    obtain rfl : [] = xs := by simpa [resolveBranches] using h
    exact .nil
  | cons b rest ih =>
    obtain ⟨c, hc, h⟩ := bind_eq_ok.mp h
    obtain ⟨r, hr, h⟩ := bind_eq_ok.mp h
    obtain ⟨others, ho, h⟩ := bind_eq_ok.mp h
    obtain rfl : _ = xs := by simpa using h
    exact .cons hc (.cons hr (ih ho))

theorem resolveKeys_eq_ok {ks : List (SortKey Term)} {xs : List (SortKey Expr)}
    (h : resolveKeys scope ks = .ok xs) :
    List.Forall₂ (Describes scope) (ks.map (·.expr)) (xs.map (·.expr)) := by
  induction ks generalizing xs with
  | nil =>
    obtain rfl : [] = xs := by simpa [resolveKeys] using h
    exact .nil
  | cons k rest ih =>
    obtain ⟨e, he, h⟩ := bind_eq_ok.mp h
    obtain ⟨others, ho, h⟩ := bind_eq_ok.mp h
    obtain rfl : _ = xs := by simpa using h
    exact .cons he (ih ho)

/-- What an aggregate of a term comes to: an aggregate of rows or of the argument, and a condition on
it if there is one. -/
theorem resolve_aggregate {function : String} {arg filter : Option Term} {distinct : Bool}
    {e : Expr} (h : (Term.aggregate function arg distinct filter).resolve scope = .ok e) :
    ∃ a, (arg = none ∧ a = .countStar ∨ ∃ x f y once, arg = some x ∧ x.resolve scope = .ok y ∧
        Expr.applyAggregate f y once = .ok a) ∧
      (filter = none ∧ a = e ∨ ∃ p c, filter = some p ∧ p.resolve scope = .ok c ∧
        Expr.withFilter a c = .ok e) := by
  rw [resolve.eq_def] at h
  cases arg with
  | none =>
    obtain ⟨⟨f, once⟩, -, h⟩ := bind_eq_ok.mp h
    dsimp only at h
    split at h
    · refine ⟨.countStar, .inl ⟨rfl, rfl⟩, ?_⟩
      cases filter with
      | none => exact .inl ⟨rfl, Except.ok.inj h⟩
      | some condition =>
        obtain ⟨c, hc, h⟩ := bind_eq_ok.mp h
        exact .inr ⟨condition, c, rfl, hc, h⟩
    · simp at h
  | some arg =>
    obtain ⟨⟨f, once⟩, -, h⟩ := bind_eq_ok.mp h
    obtain ⟨y, hy, h⟩ := bind_eq_ok.mp h
    obtain ⟨a, ha, h⟩ := bind_eq_ok.mp h
    refine ⟨a, .inr ⟨arg, f, y, _, rfl, hy, ha⟩, ?_⟩
    cases filter with
    | none => exact .inl ⟨rfl, Except.ok.inj h⟩
    | some condition =>
      obtain ⟨c, hc, h⟩ := bind_eq_ok.mp h
      exact .inr ⟨condition, c, rfl, hc, h⟩

end PlanSql.Term
