import PlanSql.Proofs.Expr.Substitution
import PlanSql.Proofs.Fragment.Clauses

/-!
# Lowering and what defines columns

A column that stands for the SQL of an expression is as good as the expression itself: in every
other expression it may be replaced by it, and what the whole becomes is the same SQL, if it has
any. Errors name the expression that they are about, and so they are not the same. A condition
whose columns are replaced may fall into more conjuncts than before; their SQL is that of the
condition, split along the ANDs that the replacement has brought in.
-/
namespace PlanSql

namespace Target

/-! The expression that errors name decides neither whether there is SQL nor which. -/

variable {t : Target} {e e' : Expr}

theorem agree_constant (v : Value) : Agree Eq (t.constant e v) (t.constant e' v) := by
  unfold constant
  split
  · split
    · exact agree_ok.mpr rfl
    · exact agree_error _ _
  · exact agree_ok.mpr rfl

theorem agree_castType (type : DataType) :
    Agree Eq (t.castType e type) (t.castType e' type) := by
  unfold castType
  split
  · exact agree_ok.mpr rfl
  · exact agree_error _ _

theorem agree_binary (op : BinaryOp) (l r : DataType) (left right : Sql.Expr) :
    Agree Eq (t.binary e op l r left right) (t.binary e' op l r left right) := by
  unfold binary
  split
  · exact (agree_castType .float64).bind fun a b _ _ hab => agree_ok.mpr (by rw [hab])
  · exact agree_ok.mpr rfl

theorem agree_call (function : String) (args : List Sql.Expr) :
    Agree Eq (t.call e function args) (t.call e' function args) := by
  unfold call
  split
  · split
    · exact agree_ok.mpr rfl
    · exact agree_error _ _
  all_goals exact agree_error _ _

theorem agree_aggregate (f : AggregateFunction) (arg : Option Sql.Expr) (distinct : Bool)
    (condition : Option Sql.Expr) :
    Agree Eq (t.aggregate e f arg distinct condition)
      (t.aggregate e' f arg distinct condition) := by
  rw [aggregate_eq, aggregate_eq]
  refine (agree_call _ _).bind fun a b _ _ hab => ?_
  subst hab
  split
  · split
    · exact agree_ok.mpr rfl
    · exact agree_error _ _
  · exact agree_ok.mpr rfl

theorem agree_checkWindow (ordered : Bool) :
    Agree Eq (t.checkWindow e ordered) (t.checkWindow e' ordered) := by
  unfold checkWindow
  split
  · exact agree_error _ _
  · split
    · exact agree_error _ _
    · exact agree_ok.mpr rfl

theorem agree_attach (call : Sql.Expr) (window : Sql.Over Sql.Expr) :
    Agree Eq (t.attach e call window) (t.attach e' call window) := by
  unfold attach
  split
  · exact agree_ok.mpr rfl
  · exact agree_error _ _

end Target

namespace Expr

variable {t : Target} {S S' : Scope} {σ : ColumnRef → DataType → Expr}

/-- Where every column stands for the SQL of what it is replaced by, an expression has the SQL that
it has with its columns replaced. -/
theorem agree_lower_substitute {e : Expr} (hσ : e.KeepsTypes σ)
    (hS : ∀ ref u, .column ref u ∈ e.parts →
      Agree Eq (S'.column ref) ((σ ref u).lower t S)) :
    Agree Eq (e.lower t S') ((e.substitute σ).lower t S) := by
  induction e using induct with
  | step e ih =>
    have ih : ∀ c ∈ e.children, Agree Eq (c.lower t S') ((c.substitute σ).lower t S) :=
      fun c hc => ih c hc (hσ.child hc) fun ref u hp => hS ref u (mem_parts_of_child hc hp)
    have hall : ∀ es : List Expr, (∀ c ∈ es, c ∈ e.children) →
        Agree Eq (lowerAll t S' es) (lowerAll t S (substituteAll σ es)) := by
      intro es hes
      rw [substituteAll_eq, lowerAll_eq, lowerAll_eq, List.mapM_map]
      exact agree_mapM fun c hc => ih c (hes c hc)
    have hoption : ∀ o : Option Expr, (∀ c ∈ o.toList, c ∈ e.children) →
        Agree Eq (lowerOption t S' o) (lowerOption t S (substituteOption σ o)) := by
      intro o ho
      cases o with
      | none => exact agree_ok.mpr rfl
      | some c =>
        exact (ih c (ho c (by simp))).bind fun a b _ _ hab => agree_ok.mpr (by rw [hab])
    cases e with
    | literal v => exact Target.agree_constant v
    | column ref u => exact hS ref u (mem_parts_self _)
    | unary op operand | isNull operand op =>
      simp only [substitute, lower]
      exact (ih operand (by simp [children])).bind fun a b _ _ hab => agree_ok.mpr (by rw [hab])
    | cast operand target =>
      simp only [substitute, lower]
      refine (ih operand (by simp [children])).bind fun a b _ _ hab => ?_
      exact (Target.agree_castType _).bind fun n n' _ _ hn => agree_ok.mpr (by rw [hab, hn])
    | binary op left right =>
      simp only [substitute, lower]
      refine (ih left (by simp [children])).bind fun l l' _ _ hl => ?_
      refine (ih right (by simp [children])).bind fun r r' _ _ hr => ?_
      rw [dataType_substitute (hσ.child (by simp [children])),
        dataType_substitute (hσ.child (by simp [children])), hl, hr]
      exact Target.agree_binary _ _ _ _ _
    | extract part operand | toTimestamp operand part =>
      simp only [substitute, lower]
      refine (ih operand (by simp [children])).bind fun a b _ _ hab => ?_
      rw [hab]
      exact Target.agree_call _ _
    | function f args =>
      simp only [substitute, lower]
      refine (hall args fun c hc => hc).bind fun as bs _ _ hab => ?_
      rw [hab]
      exact Target.agree_call _ _
    | inList operand values negated =>
      cases values with
      | nil => exact agree_ok.mpr rfl
      | cons v vs =>
        simp only [substitute, lower]
        refine (ih operand (by simp [children])).bind fun a b _ _ hab => ?_
        refine (agree_mapM fun v _ => Target.agree_constant v).bind fun cs cs' _ _ hcs => ?_
        exact agree_ok.mpr (by rw [hab, hcs])
    | case branches otherwise =>
      have hbranches : Agree Eq (lowerBranches t S' branches)
          (lowerBranches t S (substituteBranches σ branches)) := by
        rw [substituteBranches_eq, lowerBranches_eq, lowerBranches_eq, List.mapM_map]
        refine agree_mapM fun b hb => ?_
        have hmem : ∀ c ∈ [b.1, b.2], c ∈ (case branches otherwise).children := fun c hc =>
          List.mem_append_left _ (List.mem_flatMap.mpr ⟨b, hb, hc⟩)
        refine (ih b.1 (hmem _ (by simp))).bind fun c c' _ _ hc => ?_
        exact (ih b.2 (hmem _ (by simp))).bind fun r r' _ _ hr => agree_ok.mpr (by rw [hc, hr])
      simp only [substitute, lower]
      refine hbranches.bind fun bs bs' _ _ hbs => ?_
      refine (hoption otherwise fun c hc => List.mem_append_right _ hc).bind fun o o' _ _ ho => ?_
      exact agree_ok.mpr (by rw [hbs, ho])
    | aggregate f arg distinct filter =>
      simp only [substitute, lower]
      refine (hoption arg fun c hc => List.mem_append_left _ hc).bind fun a a' _ _ ha => ?_
      refine (hoption filter fun c hc => List.mem_append_right _ hc).bind fun c c' _ _ hc => ?_
      rw [ha, hc]
      exact Target.agree_aggregate _ _ _ _
    | window f args partitionBy orderBy =>
      have hkeys : Agree Eq (lowerKeys t S' orderBy)
          (lowerKeys t S (substituteKeys σ orderBy)) := by
        rw [substituteKeys_eq, lowerKeys_eq, lowerKeys_eq, List.mapM_map]
        refine agree_mapM fun k hk => ?_
        refine (ih k.expr ?_).bind fun a b _ _ hab => agree_ok.mpr (by rw [hab]; rfl)
        simpa [children] using .inr (.inr ⟨k, hk, rfl⟩)
      have hordered : (substituteKeys σ orderBy).isEmpty = orderBy.isEmpty := by
        rw [substituteKeys_eq, List.isEmpty_map]
      simp only [substitute, lower, hordered]
      refine (Target.agree_checkWindow _).bind fun _ _ _ _ _ => ?_
      refine (hall args fun c hc => by simp [children, hc]).bind fun as as' _ _ has => ?_
      rw [has]
      refine (Target.agree_call _ _).bind fun call call' _ _ hcall => ?_
      refine (hall partitionBy fun c hc => by simp [children, hc]).bind fun ps ps' _ _ hps => ?_
      refine hkeys.bind fun ks ks' _ _ hks => ?_
      rw [hcall, hps, hks]
      exact Target.agree_attach _ _

/-- The SQL of a condition, split along the ANDs of the condition. -/
def splitAlong : Expr → Sql.Expr → List Sql.Expr
  | .binary .and left right, .binary .and l r => splitAlong left l ++ splitAlong right r
  | _, s => [s]

/-- A condition has SQL where its conjuncts have, which is then what they are split off from. -/
theorem mapM_lower_conjuncts (e : Expr) :
    e.conjuncts.mapM (lower t S) = splitAlong e <$> e.lower t S := by
  fun_induction conjuncts e with
  | case1 left right ihl ihr =>
    simp only [List.mapM_append, ihl, ihr, lower]
    cases left.lower t S with
    | error e => rfl
    | ok l =>
      cases right.lower t S with
      | error e => rfl
      | ok r => rfl
  | case2 e he =>
    simp only [List.mapM_cons, List.mapM_nil]
    cases hs : e.lower t S with
    | error e => rfl
    | ok s =>
      have hwhole : splitAlong e s = [s] := by
        unfold splitAlong
        split
        · next left right l r => exact (he left right rfl).elim
        · rfl
      simp [hwhole]

end Expr

namespace Fragment

variable {t : Target} {S S' : Scope} {σ : ColumnRef → DataType → Expr}

/-- Conditions become conjuncts by being split as a whole. -/
theorem conditions_eq_splitAlong (cs : List Expr) :
    conditions t S cs =
      (fun ss => (List.zipWith Expr.splitAlong cs ss).flatten) <$> cs.mapM (Expr.lower t S) := by
  induction cs with
  | nil => rfl
  | cons c cs ih =>
    unfold conditions at ih ⊢
    simp only [List.flatMap_cons, List.mapM_append, List.mapM_cons, ih, Expr.mapM_lower_conjuncts]
    cases c.lower t S with
    | error e => rfl
    | ok s =>
      cases cs.mapM (Expr.lower t S) with
      | error e => rfl
      | ok ss => simp

/-- A condition with its columns replaced becomes the conjuncts that it becomes as it is, each of them
split along the ANDs that it has with its columns replaced. -/
theorem agree_conditions_substitute {p : Expr} (hσ : p.KeepsTypes σ)
    (hS : ∀ ref u, .column ref u ∈ p.parts →
      Agree Eq (S'.column ref) ((σ ref u).lower t S)) :
    Agree (fun ss ss' => ss.length = p.conjuncts.length ∧
        ss' = (List.zipWith Expr.splitAlong (p.conjuncts.map (Expr.substitute σ)) ss).flatten)
      (conditions t S' [p]) (conditions t S [p.substitute σ]) := by
  have hp : conditions t S' [p] = p.conjuncts.mapM (Expr.lower t S') := by
    simp [conditions]
  have hq : conditions t S [p.substitute σ] =
      conditions t S (p.conjuncts.map (Expr.substitute σ)) := by
    simp [conditions, Expr.conjuncts_substitute]
  rw [hp, hq, conditions_eq_splitAlong, List.mapM_map]
  have hlower : Agree Eq (p.conjuncts.mapM (Expr.lower t S'))
      (p.conjuncts.mapM (Expr.lower t S ∘ Expr.substitute σ)) := by
    refine agree_mapM fun c hc => ?_
    have hparts : ∀ ref u, .column ref u ∈ c.parts → .column ref u ∈ p.parts :=
      fun ref u hu => Expr.mem_parts_trans (Expr.mem_parts_of_mem_conjuncts hc) hu
    exact Expr.agree_lower_substitute (fun ref u hu => hσ ref u (hparts ref u hu))
      fun ref u hu => hS ref u (hparts ref u hu)
  obtain ⟨ss, ss', hss, hss', rfl⟩ | ⟨e, e', he, he'⟩ := hlower.cases
  · rw [hss, hss']
    exact agree_ok.mpr ⟨(mapM_eq_ok.mp hss).length_eq.symm, rfl⟩
  · rw [he, he']
    exact agree_error _ _

end Fragment

end PlanSql
