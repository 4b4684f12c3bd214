import PlanSql.Proofs.Fragment.Clauses
import PlanSql.Proofs.Fragment.Induction
import PlanSql.Query

/-!
# What dialects lack

A relation that exists has SQL in every dialect, under the rules that come with the library, unless
it uses something that the dialect lacks; and there is no other way in which compilation fails. What
stands below a test for membership in no values is not looked at.
-/
namespace PlanSql

/-- The dialect cannot express something. -/
def CompileError.IsUnsupported : CompileError → Prop
  | .unsupportedOperator _ _ _ | .unsupportedExpression _ _ _ => True
  | .plan _ | .registry _ => False

/-- A computation fails exactly if `L` holds, and then because something is not supported. -/
def FailsIff {α : Type} (L : Prop) (x : Except CompileError α) : Prop :=
  Settles x (fun _ => ¬ L) fun e => e.IsUnsupported ∧ L

namespace FailsIff

variable {α β : Type} {L M : Prop}

theorem congr {x : Except CompileError α} (h : FailsIff L x) (hLM : L ↔ M) : FailsIff M x := by
  rwa [propext hLM] at h

theorem ok {a : α} : FailsIff False (.ok a : Except CompileError α) := id

theorem bind {x : Except CompileError α} {f : α → Except CompileError β} (hx : FailsIff L x)
    (hf : ∀ a, x = .ok a → FailsIff M (f a)) : FailsIff (L ∨ M) (x >>= f) := by
  cases x with
  | error e => exact ⟨hx.1, .inl hx.2⟩
  | ok a =>
    exact (hf a rfl).mono (fun _ _ hm => not_or.mpr ⟨hx, hm⟩) fun _ he => ⟨he.1, .inr he.2⟩

/-- What only rearranges a result does not fail by itself. -/
theorem bind_ok {x : Except CompileError α} (hx : FailsIff L x) (f : α → β) :
    FailsIff L (x >>= fun a => .ok (f a)) := by
  cases x with
  | error e => exact hx
  | ok a => exact hx

theorem mapM {f : α → Except CompileError β} {L : α → Prop} {xs : List α}
    (h : ∀ x ∈ xs, FailsIff (L x) (f x)) : FailsIff (∃ x ∈ xs, L x) (xs.mapM f) := by
  induction xs with
  | nil => exact ok.congr (by simp)
  | cons x xs ih =>
    rw [List.mapM_cons]
    obtain ⟨hx, hxs⟩ := List.forall_mem_cons.mp h
    refine ((hx.bind fun a _ => (ih hxs).bind_ok fun as => a :: as)).congr ?_
    simp

end FailsIff

/-- A floating-point constant that is no number. -/
def Value.isNonFinite : Value → Bool
  | .float x => !x.isFinite
  | _ => false

namespace Expr

/-- The root of an expression is something that the dialect lacks. -/
def IsUnavailable (d : Dialect) : Expr → Prop
  | .literal v => v.isNonFinite = true
  | .inList _ values _ => ∃ v ∈ values, v.isNonFinite = true
  | .cast _ target => d.castTypeName? target = none
  | .aggregate f _ _ _ => d.lacksAggregate f = true
  | .window f _ _ orderBy =>
    (∃ g, f = .aggregate g ∧ d.lacksAggregate g = true) ∨
      (d.descriptor.windowRequiresOrderBy = true ∧ orderBy = [])
  | _ => False

/-- Something in an expression, not below a test for membership in no values, is what the dialect
lacks. -/
def Lacks (d : Dialect) (e : Expr) : Prop := ∃ p ∈ e.walk isVoidMembership, p.IsUnavailable d

theorem lacks_iff {d : Dialect} {e : Expr} : e.Lacks d ↔
    e.IsUnavailable d ∨ e.isVoidMembership = false ∧ ∃ c ∈ e.children, c.Lacks d := by
  unfold Lacks
  constructor
  · rintro ⟨p, hp, hu⟩
    rcases mem_walk.mp hp with rfl | ⟨hs, c, hc, hpc⟩
    · exact .inl hu
    · exact .inr ⟨hs, c, hc, p, hpc, hu⟩
  · rintro (hu | ⟨hs, c, hc, p, hpc, hu⟩)
    · exact ⟨e, mem_walk_self _ e, hu⟩
    · exact ⟨p, mem_walk_of_child hs hc hpc, hu⟩

/-- Away from memberships in no values, an expression lacks what its root or its operands lack. -/
theorem lacks_iff_of_not_void {d : Dialect} {e : Expr} (he : e.isVoidMembership = false) :
    e.Lacks d ↔ e.IsUnavailable d ∨ ∃ c ∈ e.children, c.Lacks d := by
  rw [lacks_iff]
  simp [he]

end Expr

namespace Target

variable {d : Dialect} {e : Expr}

theorem failsIff_constant (v : Value) :
    FailsIff (v.isNonFinite = true) ((builtin d).constant e v) := by
  cases v with
  | float x =>
    cases h : x.isFinite with
    | true => simp [FailsIff, constant, Value.isNonFinite, h]
    | false =>
      simp [FailsIff, constant, Value.isNonFinite, h, refuse, CompileError.IsUnsupported]
  | _ => simp [FailsIff, constant, Value.isNonFinite]

theorem failsIff_castType (type : DataType) :
    FailsIff (d.castTypeName? type = none) ((builtin d).castType e type) := by
  unfold castType
  cases h : d.castTypeName? type with
  | some name =>
    rw [show (builtin d).dialect.castTypeName? type = some name from h]
    simp [FailsIff]
  | none =>
    rw [show (builtin d).dialect.castTypeName? type = none from h]
    simp [FailsIff, refuse, CompileError.IsUnsupported]

theorem castTypeName?_float64 (d : Dialect) : d.castTypeName? .float64 ≠ none := by
  cases d <;> decide

/-- The cast that keeps a quotient from losing its fraction is available everywhere. -/
theorem failsIff_binary (op : BinaryOp) (l r : DataType) (left right : Sql.Expr) :
    FailsIff False ((builtin d).binary e op l r left right) := by
  unfold binary
  split
  · exact ((failsIff_castType _).bind_ok _).congr
      (iff_false_intro (castTypeName?_float64 d))
  · exact .ok

theorem failsIff_row {function : String} {n : Nat} {args : List Sql.Expr}
    (hf : (function, n) ∈ RuleTable.rowFunctions) (hn : n ≤ args.length) :
    FailsIff False ((builtin d).call e function args) := by
  obtain ⟨T, hT, hfits, -⟩ := resolve_row d hf hn
  obtain ⟨s, hs⟩ := Template.expand_of_fits hfits
  rw [call_eq_ok.mpr ⟨T, hT, hs⟩]
  exact .ok

theorem failsIff_refuse {α : Type} {L : Prop} (t : Target) (limit : ExpressionLimit) (h : L) :
    FailsIff L (t.refuse e limit : Except CompileError α) :=
  ⟨trivial, h⟩

theorem failsIff_aggregate (f : AggregateFunction) (arg : Option Sql.Expr) (distinct : Bool)
    (condition : Option Sql.Expr) : FailsIff (d.lacksAggregate f = true)
      ((builtin d).aggregate e f arg distinct condition) := by
  rw [aggregate_eq]
  cases h : d.lacksAggregate f with
  | true =>
    obtain ⟨reason, hr⟩ := call_lacking h e [(builtin d).aggregateArg arg condition]
    rw [hr]
    exact failsIff_refuse _ _ rfl
  | false =>
    rw [call_aggregate h]
    simp only [ok_bind, Sql.Expr.apply]
    split <;> simp [FailsIff]

theorem failsIff_checkWindow (ordered : Bool) :
    FailsIff (d.descriptor.windowRequiresOrderBy = true ∧ ordered = false)
      ((builtin d).checkWindow e ordered) := by
  unfold checkWindow
  rw [if_neg (by cases d <;> decide)]
  split
  · next h =>
    exact failsIff_refuse _ _ (by simpa [Target.descriptor, builtin] using h)
  · next h => simpa [FailsIff, Target.descriptor, builtin] using h

/-- A window function is refused if it is an aggregate that the dialect does not have; otherwise it
is a call that a window can be attached to. -/
theorem failsIff_window (f : WindowFunction) (args : List Sql.Expr) :
    FailsIff (∃ g, f = .aggregate g ∧ d.lacksAggregate g = true)
      ((builtin d).call e f.ruleName args) := by
  cases f with
  | aggregate g =>
    cases h : d.lacksAggregate g with
    | true =>
      obtain ⟨reason, hr⟩ := call_lacking h e args
      rw [show (WindowFunction.aggregate g).ruleName = g.ruleName from rfl, hr]
      exact failsIff_refuse _ _ ⟨g, rfl, h⟩
    | false =>
      rw [show (WindowFunction.aggregate g).ruleName = g.ruleName from rfl, call_aggregate h]
      simp [FailsIff, h]
  | _ =>
    rw [call_ranking (by simp)]
    simp [FailsIff]

end Target

namespace Expr

variable {d : Dialect} {scope : Scope}

/-- An expression whose columns stand for something has SQL unless the dialect lacks something in
it. -/
theorem failsIff_lower {e : Expr} (hm : e.Made)
    (hs : scope.Resolves e) :
    FailsIff (e.Lacks d) (e.lower (Target.builtin d) scope) := by
  induction e using induct with
  | step e ih =>
    have below : ∀ c ∈ e.children, FailsIff (c.Lacks d) (c.lower (Target.builtin d) scope) :=
      fun c hc => ih c hc (hm.child hc) fun ref hr => hs ref (mem_columnRefs_of_child hc hr)
    have belowAll : ∀ es : List Expr, (∀ c ∈ es, c ∈ e.children) →
        FailsIff (∃ c ∈ es, c.Lacks d) (lowerAll (Target.builtin d) scope es) := by
      intro es hes
      rw [lowerAll_eq]
      exact FailsIff.mapM fun c hc => below c (hes c hc)
    have belowOption : ∀ o : Option Expr, (∀ c ∈ o, c ∈ e.children) →
        FailsIff (∃ c ∈ o, c.Lacks d) (lowerOption (Target.builtin d) scope o) := by
      intro o ho
      cases o with
      | none => exact FailsIff.ok.congr (by simp)
      | some c => exact ((below c (ho c rfl)).bind_ok some).congr (by simp)
    cases e with
    | literal v =>
      refine FailsIff.congr ?_ (lacks_iff_of_not_void rfl).symm
      exact (Target.failsIff_constant v).congr (by simp [IsUnavailable, children])
    | column ref type =>
      obtain ⟨s, hs⟩ := hs ref (mem_columnRefs.mpr ⟨type, mem_parts_self _⟩)
      refine FailsIff.congr ?_ (lacks_iff_of_not_void rfl).symm
      rw [lower, hs]
      exact FailsIff.ok.congr (by simp [IsUnavailable, children])
    | unary op operand | isNull operand op =>
      refine FailsIff.congr ?_ (lacks_iff_of_not_void rfl).symm
      rw [lower]
      refine ((below operand (by simp [children])).bind_ok _).congr ?_
      simp [IsUnavailable, children]
    | binary op left right =>
      refine FailsIff.congr ?_ (lacks_iff_of_not_void rfl).symm
      rw [lower]
      refine ((below left (by simp [children])).bind fun l _ =>
        (below right (by simp [children])).bind fun r _ => Target.failsIff_binary ..).congr ?_
      simp [IsUnavailable, children]
    | function f args =>
      refine FailsIff.congr ?_ (lacks_iff_of_not_void rfl).symm
      rw [lower]
      have hn : TakesArguments f args.length := hm.formed
      have hpos : 0 < args.length := by
        rcases hn with hn | ⟨-, hn⟩ | ⟨-, hn⟩ <;> omega
      obtain ⟨n, hle, hf⟩ := scalar_mem_rowFunctions f args.length
      refine ((belowAll args fun c hc => hc).bind (M := False) fun as has => ?_).congr ?_
      · have hlen := (lowerAll_eq_ok.mp has).length_eq
        rw [← hlen]
        exact Target.failsIff_row hf (by have := hle hpos; omega)
      · simp [IsUnavailable, children]
    | extract part operand =>
      refine FailsIff.congr ?_ (lacks_iff_of_not_void rfl).symm
      rw [lower]
      refine ((below operand (by simp [children])).bind fun a _ =>
        Target.failsIff_row (datePart_mem_rowFunctions part) (by simp)).congr ?_
      simp [IsUnavailable, children]
    | toTimestamp operand unit =>
      refine FailsIff.congr ?_ (lacks_iff_of_not_void rfl).symm
      rw [lower]
      refine ((below operand (by simp [children])).bind fun a _ =>
        Target.failsIff_row (timeUnit_mem_rowFunctions unit) (by simp)).congr ?_
      simp [IsUnavailable, children]
    | inList operand values negated =>
      cases values with
      | nil =>
        rw [lower]
        exact FailsIff.ok.congr (by rw [lacks_iff]; simp [IsUnavailable, isVoidMembership])
      | cons v vs =>
        refine FailsIff.congr ?_ (lacks_iff_of_not_void rfl).symm
        rw [lower]
        refine ((below operand (by simp [children])).bind fun a _ =>
          (FailsIff.mapM fun v _ => Target.failsIff_constant v).bind_ok _).congr ?_
        simp [IsUnavailable, children, or_comm]
    | cast operand target =>
      refine FailsIff.congr ?_ (lacks_iff_of_not_void rfl).symm
      rw [lower]
      refine ((below operand (by simp [children])).bind fun a _ =>
        (Target.failsIff_castType target).bind_ok _).congr ?_
      simp [IsUnavailable, children, or_comm]
    | case branches otherwise =>
      refine FailsIff.congr ?_ (lacks_iff_of_not_void rfl).symm
      have hb : FailsIff (∃ b ∈ branches, b.1.Lacks d ∨ b.2.Lacks d)
          (lowerBranches (Target.builtin d) scope branches) := by
        rw [lowerBranches_eq]
        apply FailsIff.mapM
        intro b hb
        have hmem : b.1 ∈ (Expr.case branches otherwise).children ∧
            b.2 ∈ (Expr.case branches otherwise).children := by
          simp only [children, List.mem_append, List.mem_flatMap]
          exact ⟨.inl ⟨b, hb, by simp⟩, .inl ⟨b, hb, by simp⟩⟩
        exact (below b.1 hmem.1).bind fun c _ => (below b.2 hmem.2).bind_ok _
      rw [lower]
      refine (hb.bind fun bs _ => (belowOption otherwise fun c hc => ?_).bind_ok _).congr ?_
      · simp only [children, List.mem_append, Option.mem_toList]
        exact .inr hc
      · simp only [IsUnavailable, children, List.mem_append, List.mem_flatMap, List.mem_cons,
          List.not_mem_nil, or_false, Option.mem_toList, Option.mem_def, false_or, or_and_right,
          exists_or]
        grind
    | aggregate f arg distinct filter =>
      refine FailsIff.congr ?_ (lacks_iff_of_not_void rfl).symm
      rw [lower]
      refine ((belowOption arg fun c hc => ?_).bind fun a _ =>
        (belowOption filter fun c hc => ?_).bind fun c _ =>
          Target.failsIff_aggregate f a distinct c).congr ?_
      · simp only [children, List.mem_append, Option.mem_toList]
        exact .inl hc
      · simp only [children, List.mem_append, Option.mem_toList]
        exact .inr hc
      · simp only [IsUnavailable, children, List.mem_append, Option.mem_toList, Option.mem_def,
          or_and_right, exists_or]
        grind
    | window f args partitionBy orderBy =>
      refine FailsIff.congr ?_ (lacks_iff_of_not_void rfl).symm
      have hks : FailsIff (∃ k ∈ orderBy, k.expr.Lacks d)
          (lowerKeys (Target.builtin d) scope orderBy) := by
        rw [lowerKeys_eq]
        refine FailsIff.mapM fun k hk => (below k.expr ?_).bind_ok _
        simp only [children, List.mem_append, List.mem_map]
        exact .inr ⟨k, hk, rfl⟩
      have hattach : ∀ (as : List Sql.Expr) (call : Sql.Expr) (w : Sql.Over Sql.Expr),
          (Target.builtin d).call (.window f args partitionBy orderBy) f.ruleName as = .ok call →
          FailsIff False
            ((Target.builtin d).attach (.window f args partitionBy orderBy) call w) := by
        intro as call w hcall
        rw [Target.call_window rfl hcall]
        exact .ok
      rw [lower]
      refine ((Target.failsIff_checkWindow _).bind fun _ _ =>
        (belowAll args fun c hc => ?_).bind fun as _ =>
          (Target.failsIff_window f _).bind fun call hcall =>
            (belowAll partitionBy fun c hc => ?_).bind fun ps _ =>
              hks.bind fun ks _ => hattach _ call ⟨ps, ks⟩ hcall).congr ?_
      · simp only [children, List.mem_append]
        exact .inl (.inl hc)
      · simp only [children, List.mem_append]
        exact .inl (.inr hc)
      · simp only [IsUnavailable, children, List.mem_append, List.mem_map, Bool.not_eq_false',
          List.isEmpty_iff]
        grind

/-- The conjuncts of a condition lack what the condition lacks. -/
theorem lacks_conjuncts {d : Dialect} (e : Expr) :
    (∃ c ∈ e.conjuncts, c.Lacks d) ↔ e.Lacks d := by
  fun_induction conjuncts e with
  | case1 left right ihl ihr =>
    rw [lacks_iff_of_not_void (e := .binary .and left right) rfl]
    simp [IsUnavailable, children, or_and_right, exists_or, ihl, ihr]
  | case2 e he => simp

end Expr

namespace Relation

/-- The operator at the root is an outer join that the dialect lacks. -/
def IsLackingJoin (d : Dialect) : Relation → Prop
  | .join _ _ _ .right _ => d.descriptor.supportsRightJoin = false
  | .join _ _ _ .full _ => d.descriptor.supportsFullJoin = false
  | _ => False

/-- The operator at the root uses something that the dialect lacks. -/
def Lacks (d : Dialect) (r : Relation) : Prop := r.IsLackingJoin d ∨ ∃ e ∈ r.exprs, e.Lacks d

end Relation

namespace Fragment

variable {d : Dialect} {scope : Scope}

theorem failsIff_outputs (nameComputed : Bool) {exprs : List NamedExpr}
    (h : ∀ n ∈ exprs, n.expr.Made ∧ scope.Resolves n.expr) :
    FailsIff (∃ e ∈ exprs.map (·.expr), e.Lacks d)
      (outputs (Target.builtin d) scope nameComputed exprs) := by
  refine ((FailsIff.mapM (L := fun n => n.expr.Lacks d) fun n hn => ?_).bind_ok List.unzip).congr
    (by simp)
  exact (Expr.failsIff_lower (h n hn).1 (h n hn).2).bind_ok _

theorem failsIff_conditions {cs : List Expr} (h : ∀ c ∈ cs, c.Made ∧ scope.Resolves c) :
    FailsIff (∃ c ∈ cs, c.Lacks d) (conditions (Target.builtin d) scope cs) := by
  refine (FailsIff.mapM (L := fun c => c.Lacks d) fun c hc => ?_).congr ?_
  · obtain ⟨e, he, hce⟩ := List.mem_flatMap.mp hc
    have hp := Expr.mem_parts_of_mem_conjuncts hce
    exact Expr.failsIff_lower ((h e he).1.part hp) ((h e he).2.part hp)
  · constructor
    · rintro ⟨c, hc, hl⟩
      obtain ⟨e, he, hce⟩ := List.mem_flatMap.mp hc
      exact ⟨e, he, (Expr.lacks_conjuncts e).mp ⟨c, hce, hl⟩⟩
    · rintro ⟨e, he, hl⟩
      obtain ⟨c, hce, hc⟩ := (Expr.lacks_conjuncts e).mpr hl
      exact ⟨c, List.mem_flatMap.mpr ⟨e, he, hce⟩, hc⟩

theorem failsIff_lowerKeys {keys : List (SortKey Expr)}
    (h : ∀ k ∈ keys, k.expr.Made ∧ scope.Resolves k.expr) :
    FailsIff (∃ e ∈ keys.map (·.expr), e.Lacks d)
      (Expr.lowerKeys (Target.builtin d) scope keys) := by
  rw [Expr.lowerKeys_eq]
  refine (FailsIff.mapM (L := fun k => k.expr.Lacks d) fun k hk => ?_).congr (by simp)
  exact (Expr.failsIff_lower (h k hk).1 (h k hk).2).bind_ok _

section Operators

variable {header : Header} {f : Fragment}

theorem failsIff_project {exprs : List NamedExpr}
    (h : ∀ n ∈ exprs, n.expr.Made ∧ (f.scope header).Resolves n.expr) :
    FailsIff (∃ e ∈ exprs.map (·.expr), e.Lacks d)
      (f.project (Target.builtin d) header exprs) := by
  have ho := failsIff_outputs (d := d) false h
  exact (ho.bind (M := False) fun _ _ => .ok).congr (by simp)

theorem failsIff_window {exprs : List NamedExpr}
    (h : ∀ n ∈ exprs, n.expr.Made ∧ (f.scope header).Resolves n.expr) :
    FailsIff (∃ e ∈ exprs.map (·.expr), e.Lacks d)
      (f.window (Target.builtin d) header exprs) := by
  have ho := failsIff_outputs (d := d) false h
  exact (ho.bind (M := False) fun _ _ => .ok).congr (by simp)

/-- Every dialect can filter groups. -/
theorem failsIff_filter {cs : List Expr}
    (h : ∀ c ∈ cs, c.Made ∧ (f.scope header).Resolves c) :
    FailsIff (∃ c ∈ cs, c.Lacks d) (f.filter (Target.builtin d) header cs) := by
  have hc := failsIff_conditions (d := d) h
  refine (hc.bind (M := False) fun ss _ => ?_).congr (by simp)
  rw [if_neg (show ¬ (!(Target.builtin d).descriptor.supportsHaving) = true by
    cases d <;> decide)]
  split
  · exact .ok
  · split <;> exact .ok

theorem failsIff_aggregate {keys metrics : List NamedExpr} {having : List Expr}
    (hk : ∀ n ∈ keys, n.expr.Made ∧ (f.scope header).Resolves n.expr)
    (hm : ∀ n ∈ metrics, n.expr.Made ∧ (f.scope header).Resolves n.expr)
    (hh : ∀ c ∈ having, c.Made ∧ (f.scope header).Resolves c) :
    FailsIff ((∃ e ∈ keys.map (·.expr), e.Lacks d) ∨ (∃ e ∈ metrics.map (·.expr), e.Lacks d) ∨
      ∃ c ∈ having, c.Lacks d) (f.aggregate (Target.builtin d) header keys metrics having) := by
  apply (failsIff_outputs true hk).bind
  intro keyOutputs _
  obtain ⟨keyItems, keyColumns⟩ := keyOutputs
  apply (failsIff_outputs false hm).bind
  intro metricOutputs _
  obtain ⟨metricItems, metricColumns⟩ := metricOutputs
  refine ((failsIff_conditions hh).bind (M := False) fun ss _ => ?_).congr (by simp)
  rw [if_neg (by cases d <;> simp [Target.descriptor, Target.builtin, Dialect.descriptor])]
  exact .ok

theorem failsIff_sort {keys : List (SortKey Expr)}
    (h : ∀ k ∈ keys, k.expr.Made ∧ (f.scope header).Resolves k.expr) :
    FailsIff (∃ e ∈ keys.map (·.expr), e.Lacks d) (f.sort (Target.builtin d) header keys) := by
  have hk := failsIff_lowerKeys (d := d) h
  exact hk.bind_ok _

end Operators

theorem failsIff_joinOp (d : Dialect) (id : NodeId) (left right : Relation) (kind : JoinKind)
    (cs : List Expr) : FailsIff ((Relation.join id left right kind cs).IsLackingJoin d)
      (joinOp (Target.builtin d) kind) := by
  cases kind with
  | inner | left | cross => exact .ok
  | right =>
    cases h : d.descriptor.supportsRightJoin <;>
      simp [FailsIff, joinOp, Relation.IsLackingJoin, Target.descriptor, Target.builtin, h, refuse,
        CompileError.IsUnsupported]
  | full =>
    cases h : d.descriptor.supportsFullJoin <;>
      simp [FailsIff, joinOp, Relation.IsLackingJoin, Target.descriptor, Target.builtin, h, refuse,
        CompileError.IsUnsupported]

end Fragment

namespace Relation

variable {d : Dialect} {root : Relation}

/-- A fragment has a column for each column of its relation, whose nodes use nothing that the
dialect lacks. -/
def Available (d : Dialect) (r : Relation) (f : Fragment) : Prop :=
  f.columns.length = r.header.fields.length ∧ ∀ n ∈ r.nodes, ¬ n.Lacks d

theorem Available.resolves {r : Relation} {f : Fragment} (h : Available d r f) {e : Expr}
    (hb : r.header.Binds e) : (f.scope r.header).Resolves e :=
  Scope.resolves_columns r.aligned_header h.1 hb

/-- What fails at a node fails for something that the node uses. -/
def LacksBelow (d : Dialect) (root : Relation) (e : CompileError) : Prop :=
  e.IsUnsupported ∧ ∃ n ∈ root.nodes, n.Lacks d

/-- An operator that fails exactly if its node lacks something keeps fragments available. -/
theorem settles_available {r : Relation} (hr : r ∈ root.nodes) {x : Except CompileError Fragment}
    (h : FailsIff (r.Lacks d) x) (hi : ∀ i ∈ r.inputs, ∀ n ∈ i.nodes, ¬ n.Lacks d)
    (hl : ∀ f, x = .ok f → f.columns.length = r.header.fields.length) :
    Settles x (Available d r) (LacksBelow d root) := by
  refine h.mono (fun f hf hn => ⟨hl f hf, fun n hm => ?_⟩) fun e he => ⟨he.1, r, hr, he.2⟩
  rcases mem_nodes.mp hm with rfl | ⟨i, him, hni⟩
  · exact hn
  · exact hi i him n hni

theorem keeps_available (hw : root.WellFormed) :
    Keeps (Target.builtin d) root (Available d) (LacksBelow d root) where
  wrapped a hr h := ⟨by simpa [Fragment.wrapped, Fragment.ofSource] using h.1, h.2⟩
  table hr := by
    refine settles_available hr (x := .ok _) ?_ (by simp [inputs]) fun f hf => ?_
    · exact FailsIff.ok.congr (by simp [Lacks, IsLackingJoin, exprs])
    · obtain rfl : _ = f := by simpa using hf
      simp [Fragment.ofTable, Fragment.ofSource, header, Header.make]
  project {id input exprs f} hr h _ _ := by
    obtain ⟨-, hc, -⟩ := hw _ hr
    refine settles_available hr ?_ (by simpa [inputs] using h.2) fun g hg => ?_
    · have hp := Fragment.failsIff_project (d := d)
        fun n hn => ⟨(hc n hn).1, h.resolves (hc n hn).2⟩
      exact hp.congr (by simp [Lacks, IsLackingJoin, Relation.exprs])
    · obtain ⟨items, columns, ho, rfl⟩ := Fragment.project_eq_ok hg
      simpa [header] using (Fragment.outputs_eq_ok ho).1.length_eq.symm
  filter {id input cs f} hr h _ _ := by
    have hc := hw _ hr
    refine settles_available hr ?_ (by simpa [inputs] using h.2) fun g hg => ?_
    · have hf := Fragment.failsIff_filter (d := d)
        fun c hm => ⟨(hc c hm).1, h.resolves (hc c hm).2.1⟩
      exact hf.congr (by simp [Lacks, IsLackingJoin, Relation.exprs])
    · obtain ⟨_, -, ⟨-, rfl⟩ | ⟨-, -, rfl⟩ | ⟨-, -, rfl⟩⟩ := Fragment.filter_eq_ok hg <;>
        exact h.1
  aggregate {id input keys metrics having f} hr h _ _ _ := by
    obtain ⟨hh, -, hk, -, hm, -, -⟩ := hw _ hr
    refine settles_available hr ?_ (by simpa [inputs] using h.2) fun g hg => ?_
    · have ha := Fragment.failsIff_aggregate (d := d)
        (fun n hn => ⟨(hk n hn).1, h.resolves (hk n hn).2⟩)
        (fun n hn => ⟨(hm n hn).1, h.resolves (hm n hn).2⟩)
        fun c hc => ⟨(hh c hc).1, h.resolves (hh c hc).2.1⟩
      exact ha.congr (by simp [Lacks, IsLackingJoin, Relation.exprs, or_and_right, exists_or])
    · obtain ⟨_, _, _, _, _, hko, hmo, -, rfl⟩ := Fragment.aggregate_eq_ok hg
      simp [header, ← (Fragment.outputs_eq_ok hko).1.length_eq,
        ← (Fragment.outputs_eq_ok hmo).1.length_eq]
  sort {id input keys f} hr h _ := by
    have hk := hw _ hr
    refine settles_available hr ?_ (by simpa [inputs] using h.2) fun g hg => ?_
    · have hs := Fragment.failsIff_sort (d := d)
        fun k hm => ⟨(hk k hm).1, h.resolves (hk k hm).2.1⟩
      exact hs.congr (by simp [Lacks, IsLackingJoin, Relation.exprs])
    · obtain ⟨_, -, rfl⟩ := Fragment.sort_eq_ok hg
      exact h.1
  limit {id input count offset f} hr h _ := by
    refine settles_available hr (x := .ok _) ?_ (by simpa [inputs] using h.2) fun g hg => ?_
    · exact FailsIff.ok.congr (by simp [Lacks, IsLackingJoin, exprs])
    · obtain rfl : _ = g := by simpa using hg
      exact h.1
  joinOp {id left right kind cs} hr :=
    (Fragment.failsIff_joinOp d id left right kind cs).mono (fun _ _ _ => trivial)
      fun e he => ⟨he.1, _, hr, .inl he.2⟩
  join {id left right kind cs op l r a b} hr hop hl hrr _ := by
    obtain ⟨-, hc, -⟩ := hw _ hr
    refine settles_available hr ?_ ?_ fun g hg => ?_
    · have hres : ∀ c ∈ cs, c.Made ∧ (Scope.join left.header right.header
          (l.joinSide a).2 (r.joinSide b).2).Resolves c := by
        intro c hm
        refine ⟨(hc c hm).1, Scope.resolves_join left.aligned_header right.aligned_header ?_ ?_
          (hc c hm).2.1⟩
        · simpa [Fragment.joinSide] using hl.1
        · simpa [Fragment.joinSide] using hrr.1
      have hjoin : ¬ (Relation.join id left right kind cs).IsLackingJoin d := by
        have hj := Fragment.failsIff_joinOp d id left right kind cs
        rwa [hop] at hj
      refine ((Fragment.failsIff_conditions hres).bind (M := False) fun _ _ => .ok).congr ?_
      simp [Lacks, hjoin, Relation.exprs]
    · intro i hi
      have hi : i = left ∨ i = right := by simpa [inputs] using hi
      rcases hi with rfl | rfl
      · exact hl.2
      · exact hrr.2
    · obtain ⟨on, -, rfl⟩ := Fragment.join_eq_ok hg
      have hlen : (joinFields left.header.fields right.header.fields).length =
          ((l.joinSide a).2 ++ (r.joinSide b).2).length := by
        simp [Fragment.joinSide, hl.1, hrr.1]
      have hn := congrArg List.length (Fragment.joinColumns hlen).2.1
      simpa [header, Schema.names, Fragment.ofSource] using hn
  window {id input exprs f} hr h _ _ _ := by
    obtain ⟨hc, -⟩ := hw _ hr
    refine settles_available hr ?_ (by simpa [inputs] using h.2) fun g hg => ?_
    · have hw := Fragment.failsIff_window (d := d)
        fun n hn => ⟨(hc n hn).1, h.resolves (hc n hn).2⟩
      exact hw.congr (by simp [Lacks, IsLackingJoin, Relation.exprs])
    · obtain ⟨items, columns, ho, rfl⟩ := Fragment.window_eq_ok hg
      simp [header, h.1, ← (Fragment.outputs_eq_ok ho).1.length_eq]
  distinct {id input f} hr h _ := by
    refine settles_available hr (x := .ok _) ?_ (by simpa [inputs] using h.2) fun g hg => ?_
    · exact FailsIff.ok.congr (by simp [Lacks, IsLackingJoin, exprs])
    · obtain rfl : _ = g := by simpa using hg
      exact h.1

theorem settles_toSelect {r : Relation} (h : r.Valid) (d : Dialect) :
    FailsIff (∃ n ∈ r.nodes, n.Lacks d) (r.toSelect (Target.builtin d)) := by
  refine ((keeps_available h.wellFormed).toSelect h.coherent).mono ?_ fun e he => he
  rintro s - ⟨f, hf, -⟩ ⟨n, hn, hl⟩
  exact hf.2 n hn hl

/-- A relation that exists is compiled, in a dialect with the rules of the library, exactly if no
node of it uses what the dialect lacks, and compilation fails in no other way than by saying so. -/
theorem compile_iff_available {r : Relation} (h : r.Valid) (d : Dialect) :
    ((∃ q, r.compile (Target.builtin d) = .ok q) ↔ ∀ n ∈ r.nodes, ¬ n.Lacks d) ∧
      ∀ e, r.compile (Target.builtin d) = .error e → e.IsUnsupported := by
  have hs := settles_toSelect h d
  unfold compile
  cases hx : r.toSelect (Target.builtin d) with
  | ok s =>
    rw [hx] at hs
    refine ⟨⟨fun _ n hn hl => hs ⟨n, hn, hl⟩, fun _ => ⟨_, rfl⟩⟩, ?_⟩
    simp
  | error e =>
    rw [hx] at hs
    obtain ⟨hu, n, hn, hl⟩ := hs
    refine ⟨⟨?_, fun hno => absurd hl (hno n hn)⟩, ?_⟩
    · rintro ⟨q, hq⟩
      simp at hq
    · intro e' he
      obtain rfl : e = e' := by simpa using he
      exact hu

theorem compile_pairing_iff_available :
    ((∃ q, (pairing .right).compile (Target.builtin .sqlite) = .ok q) ↔
        ∀ n ∈ (pairing .right).nodes, ¬ n.Lacks .sqlite) ∧
      ∀ e, (pairing .right).compile (Target.builtin .sqlite) = .error e → e.IsUnsupported :=
  compile_iff_available (valid_pairing (by decide)) .sqlite

end Relation

end PlanSql
