import PlanSql.Proofs.Fragment.Lowering
import PlanSql.Proofs.Sql.Substitution

/-!
# Lowering and the replacement of columns

Where one scope has the columns of another with columns replaced in them, every expression becomes
in the one what it becomes in the other with columns replaced, or is refused with the same error.
Lowering looks at what the rule of an aggregate or window function gives only to see whether it is a
call. So columns must not be replaced by calls, unless these rules always give calls of their own,
as those of the library do.
-/
namespace PlanSql

variable {σ : Option String → String → Sql.Expr}

namespace Template

variable {args : List Sql.Expr}

mutual

/-- A template puts replaced arguments in as it puts in the arguments. -/
theorem expand_map (σ : Option String → String → Sql.Expr) : ∀ T : Template,
    T.expand (args.map (Sql.Expr.substitute σ)) = Sql.Expr.substitute σ <$> T.expand args
  | .arg index => by
    simp only [expand, List.getElem?_map, List.length_map]
    cases args[index]? <;> rfl
  | .args | .int _ | .number _ | .string _ => rfl
  | .call name items => by
    simp [expand, expandItems_map σ items, map_bind, bind_map_left, Sql.Expr.apply,
      Sql.Expr.substitute]
  | .extract field operand => by
    simp [expand, expand_map σ operand, map_bind, bind_map_left, Sql.Expr.substitute]
  | .cast operand typeName => by
    simp [expand, expand_map σ operand, map_bind, bind_map_left, Sql.Expr.substitute]
  | .binary op left right => by
    simp [expand, expand_map σ left, expand_map σ right, map_bind, bind_map_left,
      Sql.Expr.substitute]

theorem expandItems_map (σ : Option String → String → Sql.Expr) : ∀ items : List Template,
    expandItems (args.map (Sql.Expr.substitute σ)) items =
      List.map (Sql.Expr.substitute σ) <$> expandItems args items
  | [] => rfl
  | item :: rest => by
    have hitem : expandItem (args.map (Sql.Expr.substitute σ)) item =
        List.map (Sql.Expr.substitute σ) <$> expandItem args item := by
      unfold expandItem
      split
      · rfl
      · simp [expand_map σ item, map_bind, bind_map_left]
    simp [expandItems_cons, hitem, expandItems_map σ rest, map_bind, bind_map_left]

end

end Template

namespace Target

variable {t : Target} {e : Expr}

theorem call_map (σ : Option String → String → Sql.Expr) (function : String)
    (args : List Sql.Expr) :
    t.call e function (args.map (Sql.Expr.substitute σ)) =
      Sql.Expr.substitute σ <$> t.call e function args := by
  unfold call
  split
  · rw [Template.expand_map]
    cases Template.expand args _ <;> rfl
  all_goals rfl

theorem call_map_singleton (σ : Option String → String → Sql.Expr) (function : String)
    (a : Sql.Expr) :
    t.call e function [a.substitute σ] = Sql.Expr.substitute σ <$> t.call e function [a] :=
  call_map σ function [a]

theorem binary_map (σ : Option String → String → Sql.Expr) (op : BinaryOp) (l r : DataType)
    (left right : Sql.Expr) :
    t.binary e op l r (left.substitute σ) (right.substitute σ) =
      Sql.Expr.substitute σ <$> t.binary e op l r left right := by
  unfold binary
  split
  · cases t.castType e .float64 <;> rfl
  · rfl

theorem constant_map (σ : Option String → String → Sql.Expr) (v : Value) :
    t.constant e v = Sql.Expr.substitute σ <$> t.constant e v := by
  unfold constant
  split
  · split <;> rfl
  · rfl

theorem aggregateArg_map (σ : Option String → String → Sql.Expr) (arg condition : Option Sql.Expr) :
    t.aggregateArg (arg.map (Sql.Expr.substitute σ)) (condition.map (Sql.Expr.substitute σ)) =
      (t.aggregateArg arg condition).substitute σ := by
  have hdefault : ∀ d : Sql.Expr, d.substitute σ = d →
      (arg.map (Sql.Expr.substitute σ)).getD d = (arg.getD d).substitute σ := by
    intro d hd
    cases arg
    · exact hd.symm
    · rfl
  unfold aggregateArg
  cases condition with
  | none => exact hdefault .star rfl
  | some c =>
    simp only [Option.map_some]
    split
    · exact hdefault .star rfl
    · simp [guarded, Sql.Expr.substitute, hdefault (.int 1) rfl]

theorem aggregateFilter_map (g : Sql.Expr → Sql.Expr) (condition : Option Sql.Expr) :
    t.aggregateFilter (condition.map g) = (t.aggregateFilter condition).map g := by
  unfold aggregateFilter
  split <;> rfl

/-- A rule that gives a call gives one of replaced arguments too; it is modified in the same way. -/
theorem aggregate_map {f : AggregateFunction} {arg condition : Option Sql.Expr} {distinct : Bool}
    (hcall : ∀ sql, t.call e f.ruleName [t.aggregateArg arg condition] = .ok sql →
      (sql.substitute σ).isCall = sql.isCall) :
    t.aggregate e f (arg.map (Sql.Expr.substitute σ)) distinct
        (condition.map (Sql.Expr.substitute σ)) =
      Sql.Expr.substitute σ <$> t.aggregate e f arg distinct condition := by
  rw [aggregate_eq, aggregate_eq, aggregateArg_map, aggregateFilter_map, Option.isSome_map,
    call_map_singleton]
  cases hs : t.call e f.ruleName [t.aggregateArg arg condition] with
  | error => rfl
  | ok sql =>
    simp only [Except.map_ok, ok_bind]
    split
    · cases sql with
      | call => simp [Sql.Expr.substitute]
      | column q n =>
        have h := hcall _ hs
        cases hc : σ q n <;> simp_all [Sql.Expr.substitute, Sql.Expr.isCall, refuse]
      | _ => rfl
    · rfl

theorem attach_map {call : Sql.Expr} (hcall : (call.substitute σ).isCall = call.isCall)
    (ps : List Sql.Expr) (ks : List (SortKey Sql.Expr)) :
    t.attach e (call.substitute σ)
        ⟨ps.map (Sql.Expr.substitute σ), ks.map (SortKey.map (Sql.Expr.substitute σ))⟩ =
      Sql.Expr.substitute σ <$> t.attach e call ⟨ps, ks⟩ := by
  cases call with
  | call => simp [attach, Sql.Expr.substitute, Sql.Over.map]
  | column q n =>
    cases hc : σ q n <;> simp_all [attach, Sql.Expr.substitute, Sql.Expr.isCall, refuse]
  | _ => rfl

/-- What the rule of an aggregate or window function gives is a call when columns are replaced in it
if and only if it is one before. -/
def KeepsCalls (t : Target) (σ : Option String → String → Sql.Expr) : Prop :=
  ∀ (e : Expr) (f : WindowFunction) (args : List Sql.Expr) (sql : Sql.Expr),
    t.call e f.ruleName args = .ok sql → (sql.substitute σ).isCall = sql.isCall

theorem keepsCalls_of_isCall (hσ : ∀ q n, (σ q n).isCall = false) : t.KeepsCalls σ :=
  fun _ _ _ sql _ => sql.isCall_substitute σ hσ

/-- The rules of the library give calls, whatever the arguments are. -/
theorem keepsCalls_builtin (ht : t.rules = .builtin) (σ : Option String → String → Sql.Expr) :
    t.KeepsCalls σ := by
  intro e f args sql h
  rw [call_window ht h]
  rfl

theorem windowArgs_map (f : WindowFunction) (args : List Sql.Expr) :
    windowArgs f (args.map (Sql.Expr.substitute σ)) =
      (windowArgs f args).map (Sql.Expr.substitute σ) := by
  simp only [windowArgs, List.isEmpty_map]
  split <;> rfl

end Target

namespace Expr

variable {t : Target} {S S' : Scope}

/-- Sort keys are lowered alike where their expressions are. -/
theorem lowerKeys_map {g : Sql.Expr → Sql.Expr} (ks : List (SortKey Expr))
    (h : ∀ k ∈ ks, k.expr.lower t S' = g <$> k.expr.lower t S) :
    lowerKeys t S' ks = List.map (SortKey.map g) <$> lowerKeys t S ks := by
  rw [lowerKeys_eq, lowerKeys_eq]
  refine mapM_eq_map_mapM fun k hk => ?_
  simp [h k hk, map_bind, bind_map_left, SortKey.map]

/-- Lowering commutes with the replacement of columns where no call is gained or lost by it. -/
theorem lower_substitute_of_keepsCalls (hk : t.KeepsCalls σ)
    (hS : ∀ ref, S'.column ref = Sql.Expr.substitute σ <$> S.column ref) (e : Expr) :
    e.lower t S' = Sql.Expr.substitute σ <$> e.lower t S := by
  induction e using induct with
  | step e ih =>
    have hall : ∀ es : List Expr, (∀ c ∈ es, c ∈ e.children) →
        lowerAll t S' es = List.map (Sql.Expr.substitute σ) <$> lowerAll t S es := by
      intro es hes
      rw [lowerAll_eq, lowerAll_eq]
      exact mapM_eq_map_mapM fun c hc => ih c (hes c hc)
    have hoption : ∀ o : Option Expr, (∀ c ∈ o.toList, c ∈ e.children) →
        lowerOption t S' o = Option.map (Sql.Expr.substitute σ) <$> lowerOption t S o := by
      intro o ho
      cases o with
      | none => rfl
      | some c => simp [lowerOption, ih c (ho c (by simp)), map_bind, bind_map_left]
    cases e with
    | literal v => exact Target.constant_map σ v
    | column ref type => exact hS ref
    | unary op operand | isNull operand op | cast operand op =>
      simp [lower, ih operand (by simp [children]), map_bind, bind_map_left, Sql.Expr.substitute]
    | binary op left right =>
      simp [lower, ih left (by simp [children]), ih right (by simp [children]), map_bind,
        bind_map_left, Target.binary_map]
    | extract part operand | toTimestamp operand part =>
      simp [lower, ih operand (by simp [children]), map_bind, bind_map_left,
        Target.call_map_singleton]
    | function f args =>
      simp [lower, hall args (fun c hc => hc), map_bind, bind_map_left, Target.call_map]
    | inList operand values negated =>
      cases values with
      | nil => rfl
      | cons v vs =>
        let constant := t.constant (.inList operand (v :: vs) negated)
        have hvalues : (v :: vs).mapM constant =
            List.map (Sql.Expr.substitute σ) <$> (v :: vs).mapM constant :=
          mapM_eq_map_mapM fun v _ => Target.constant_map σ v
        rw [lower, lower, ih operand (by simp [children])]
        cases hcs : (v :: vs).mapM constant with
        | error => simp [map_bind, bind_map_left]
        | ok cs =>
          have hfixed : cs.map (Sql.Expr.substitute σ) = cs := by
            rw [hcs] at hvalues
            simpa using hvalues.symm
          simp [map_bind, bind_map_left, Sql.Expr.substitute, hfixed]
    | case branches otherwise =>
      have hbranches : lowerBranches t S' branches =
          List.map (Prod.map (Sql.Expr.substitute σ) (Sql.Expr.substitute σ)) <$>
            lowerBranches t S branches := by
        rw [lowerBranches_eq, lowerBranches_eq]
        refine mapM_eq_map_mapM fun b hb => ?_
        have hmem : ∀ c ∈ [b.1, b.2], c ∈ (case branches otherwise).children := fun c hc =>
          List.mem_append_left _ (List.mem_flatMap.mpr ⟨b, hb, hc⟩)
        simp [ih b.1 (hmem _ (by simp)), ih b.2 (hmem _ (by simp)), map_bind, bind_map_left]
      simp [lower, hbranches, hoption otherwise (fun c hc => List.mem_append_right _ hc),
        map_bind, bind_map_left, Sql.Expr.substitute]
    | aggregate f arg distinct filter =>
      simp [lower, hoption arg (fun c hc => List.mem_append_left _ hc),
        hoption filter (fun c hc => List.mem_append_right _ hc), map_bind, bind_map_left,
        Target.aggregate_map fun sql => hk _ (.aggregate f) _ sql]
    | window f args partitionBy orderBy =>
      have hargs := hall args fun c hc => by simp [children, hc]
      have hps := hall partitionBy fun c hc => by simp [children, hc]
      have hks := lowerKeys_map orderBy fun k hk => ih k.expr (by
        simpa [children] using .inr (.inr ⟨k, hk, rfl⟩))
      rw [lower, lower, hargs]
      cases t.checkWindow (.window f args partitionBy orderBy) !orderBy.isEmpty with
      | error => rfl
      | ok =>
        cases lowerAll t S args with
        | error => rfl
        | ok as =>
          simp only [Except.map_ok, ok_bind, Target.windowArgs_map, Target.call_map, hps, hks]
          cases hc : t.call (.window f args partitionBy orderBy) f.ruleName
              (Target.windowArgs f as) with
          | error => rfl
          | ok sql =>
            simp [map_bind, bind_map_left, Target.attach_map (hk _ f _ sql hc)]

/-- Lowering commutes with the replacement of columns by expressions that are no calls. -/
theorem lower_substitute (hσ : ∀ q n, (σ q n).isCall = false)
    (hS : ∀ ref, S'.column ref = Sql.Expr.substitute σ <$> S.column ref) (e : Expr) :
    e.lower t S' = Sql.Expr.substitute σ <$> e.lower t S :=
  lower_substitute_of_keepsCalls (Target.keepsCalls_of_isCall hσ) hS e

end Expr

end PlanSql
