import PlanSql.Proofs.Fragment.Lowering
import PlanSql.Proofs.Plan.Validity
import PlanSql.Proofs.Rule.Registration

/-!
# Rules that cover every call

Expressions call functions by the names of their rules, with as many arguments as their constructors
have seen to. All of these names are among the functions that a registered set has rules for, and the
arguments are never fewer than the rules may read. So no expression is refused for a rule that is
not there or for an argument that is not there, whatever sets have been offered to the table.
-/
namespace PlanSql

/-- A rule, or an argument that it reads, is not there. -/
def ExpressionLimit.isGap : ExpressionLimit → Bool
  | .noRule _ | .missingArgument _ _ => true
  | _ => false

/-- An expression is refused since the rules do not cover a call: the dialect has no rule for the
function, or none at all, or the rule reads an argument that the call lacks. -/
def CompileError.IsGap : CompileError → Prop
  | .unsupportedExpression _ _ limit => limit.isGap = true
  | .registry _ => True
  | .unsupportedOperator _ _ _ | .plan _ => False

/-- A computation does not fail for want of a rule or of an argument that a rule reads. -/
def Gapless {α : Type} (x : Except CompileError α) : Prop :=
  Settles x (fun _ => True) fun error => ¬ error.IsGap

namespace Gapless

variable {α β : Type}

theorem ok {a : α} : Gapless (.ok a) := trivial

theorem bind {x : Except CompileError α} {f : α → Except CompileError β} (hx : Gapless x)
    (hf : ∀ a, x = .ok a → Gapless (f a)) : Gapless (x >>= f) :=
  Settles.bind hx fun a ha _ => hf a ha

theorem bind_ok {x : Except CompileError α} (hx : Gapless x) (f : α → β) :
    Gapless (x >>= fun a => .ok (f a)) :=
  hx.bind fun _ _ => ok

theorem mapM {f : α → Except CompileError β} {xs : List α} (h : ∀ x ∈ xs, Gapless (f x)) :
    Gapless (xs.mapM f) := by
  induction xs with
  | nil => exact ok
  | cons x xs ih =>
    rw [List.mapM_cons]
    obtain ⟨hx, hxs⟩ := List.forall_mem_cons.mp h
    exact hx.bind fun a _ => (ih hxs).bind_ok fun as => a :: as

theorem refuse {t : Target} {e : Expr} {limit : ExpressionLimit} (h : limit.isGap = false) :
    Gapless (t.refuse e limit : Except CompileError α) := by
  simpa [Gapless, Target.refuse, CompileError.IsGap] using h

end Gapless

/-- References that denote nothing are no matter of rules. -/
theorem Scope.gapless_column (scope : Scope) (ref : ColumnRef) : Gapless (scope.column ref) := by
  have hpick : ∀ columns i, Gapless (pickColumn columns i ref) := by
    intro columns i
    unfold pickColumn
    split
    · exact .ok
    · exact id
  unfold column
  split
  · exact .ok
  · split
    · exact hpick _ _
    · exact id
  · split
    · exact hpick _ _
    · exact hpick _ _
    · exact id

namespace Target

/-- The dialect has a rule for every required function, and no template reads an argument that a
call may lack. -/
def Covers (t : Target) : Prop :=
  ∀ function ∈ requiredFunctions, ∃ rule, t.rules.resolve function t.dialect = .ok rule ∧
    ∀ T, rule = .template T → ∀ i ∈ T.maxArg, i < minArity function

variable {t : Target} {e : Expr}

theorem gapless_call (ht : t.Covers) {function : String} {args : List Sql.Expr}
    (hf : function ∈ requiredFunctions) (hn : minArity function ≤ args.length) :
    Gapless (t.call e function args) := by
  obtain ⟨rule, hr, hsupplied⟩ := ht function hf
  cases rule with
  | unsupported reason =>
    rw [call, hr]
    exact .refuse rfl
  | template T =>
    have hs := Template.settles_expand args fun i hi =>
      Nat.lt_of_lt_of_le (hsupplied T rfl i hi) hn
    rw [call, hr]
    dsimp only
    cases hx : T.expand args with
    | ok s => exact .ok
    | error limit =>
      rw [hx] at hs
      obtain ⟨rfl, -⟩ := hs
      exact .refuse rfl

theorem gapless_constant (v : Value) : Gapless (t.constant e v) := by
  unfold constant
  split
  · split
    · exact .ok
    · exact .refuse rfl
  · exact .ok

theorem gapless_castType (type : DataType) : Gapless (t.castType e type) := by
  unfold castType
  split
  · exact .ok
  · exact .refuse rfl

theorem gapless_binary (op : BinaryOp) (l r : DataType) (left right : Sql.Expr) :
    Gapless (t.binary e op l r left right) := by
  unfold binary
  split
  · exact (gapless_castType _).bind_ok _
  · exact .ok

theorem gapless_checkWindow (ordered : Bool) : Gapless (t.checkWindow e ordered) := by
  unfold checkWindow
  split
  · exact .refuse rfl
  · split
    · exact .refuse rfl
    · exact .ok

theorem gapless_attach (call : Sql.Expr) (w : Sql.Over Sql.Expr) :
    Gapless (t.attach e call w) := by
  unfold attach
  split
  · exact .ok
  · exact .refuse rfl

end Target

theorem minArity_le_two (name : String) : minArity name ≤ 2 := by
  unfold minArity
  split <;> simp

theorem RuleTable.mem_requiredFunctions {function : String} {n : Nat}
    (h : (function, n) ∈ rowFunctions) : function ∈ requiredFunctions := by
  have hall : ∀ c ∈ rowFunctions, c.1 ∈ requiredFunctions := by decide
  exact hall _ h

theorem AggregateFunction.required (f : AggregateFunction) :
    f.ruleName ∈ requiredFunctions ∧ minArity f.ruleName ≤ 1 := by
  cases f <;> decide

theorem WindowFunction.ruleName_mem (f : WindowFunction) : f.ruleName ∈ requiredFunctions := by
  cases f with
  | aggregate g => exact g.required.1
  | _ => decide

namespace Expr

/-- A function at the root has as many arguments as its rules may read. -/
def Supplied : Expr → Prop
  | .function f args => minArity (f.ruleName args.length) ≤ args.length
  | .window f args _ _ => minArity f.ruleName ≤ args.length
  | _ => True

/-- A function that has a type for its arguments has as many as its rules may read. -/
theorem minArity_le_of_resultType {f : ScalarFunction} {ts : List DataType} {t : DataType}
    (h : f.resultType ts = .ok t) : minArity (f.ruleName ts.length) ≤ ts.length := by
  match ts with
  | [] => simp [ScalarFunction.resultType] at h
  | [a] =>
    cases f with
    | substr => simp [ScalarFunction.resultType] at h
    | _ => simp [ScalarFunction.ruleName, minArity]
  | _ :: _ :: rest => exact Nat.le_trans (minArity_le_two _) (by simp)

theorem Made.supplied {e : Expr} (h : e.Made) : e.Supplied := by
  induction h with
  | literal | column | isNull | cast | countStar => trivial
  | ranking hf =>
    simp only [List.mem_cons, List.not_mem_nil, or_false] at hf
    rcases hf with rfl | rfl | rfl <;> exact Nat.le_refl 0
  | unary _ h =>
    obtain rfl := applyUnary_eq_ok h
    trivial
  | binary _ _ h =>
    obtain rfl := applyBinary_eq_ok h
    trivial
  | function _ h =>
    obtain ⟨rfl, -⟩ := applyFunction_eq_ok h
    obtain ⟨t, ht, -⟩ := PlanSql.bind_eq_ok.mp h
    rw [dataTypes_eq] at ht
    simpa [Supplied] using minArity_le_of_resultType ht
  | extract _ h =>
    obtain rfl := applyExtract_eq_ok h
    trivial
  | toTimestamp _ h =>
    obtain rfl := applyToTimestamp_eq_ok h
    trivial
  | inList _ h =>
    obtain rfl := applyInList_eq_ok h
    trivial
  | case _ _ _ h =>
    obtain ⟨rfl, -⟩ := applyCase_eq_ok h
    trivial
  | aggregate _ h =>
    obtain ⟨rfl, -⟩ := applyAggregate_eq_ok h
    trivial
  | withFilter _ _ h =>
    obtain ⟨-, f, arg, distinct, rfl, rfl⟩ := withFilter_eq_ok h
    trivial
  | shift _ _ h =>
    obtain ⟨rfl, -⟩ := shift_eq_ok h
    exact minArity_le_two _
  | windowed ha _ _ h iha =>
    -- a window keeps the arguments of what it replaces; only a count may have had none
    obtain ⟨-, ⟨f, args, ps, ks, rfl, rfl⟩ | ⟨f, arg, rfl, rfl⟩⟩ := applyOver_eq_ok h
    · exact iha
    · cases arg with
      | none =>
        obtain ⟨rfl, -⟩ := ha.formed.1 rfl
        exact Nat.le_refl 0
      | some a => exact f.required.2

/-- Lowering an expression that exists fails for no gap in rules that cover every call. -/
theorem gapless_lower {t : Target} (ht : t.Covers) {scope : Scope} {e : Expr} (hm : e.Made) :
    Gapless (e.lower t scope) := by
  induction e using induct with
  | step e ih =>
    have below : ∀ c ∈ e.children, Gapless (c.lower t scope) := fun c hc => ih c hc (hm.child hc)
    have belowAll : ∀ es : List Expr, (∀ c ∈ es, c ∈ e.children) →
        Gapless (lowerAll t scope es) := by
      intro es hes
      rw [lowerAll_eq]
      exact .mapM fun c hc => below c (hes c hc)
    have belowOption : ∀ o : Option Expr, (∀ c ∈ o, c ∈ e.children) →
        Gapless (lowerOption t scope o) := by
      intro o ho
      cases o with
      | none => exact .ok
      | some c => exact (below c (ho c rfl)).bind_ok some
    cases e with
    | literal v => exact Target.gapless_constant v
    | column ref type => exact scope.gapless_column ref
    | unary op operand | isNull operand op =>
      rw [lower]
      exact (below operand (by simp [children])).bind_ok _
    | binary op left right =>
      rw [lower]
      exact (below left (by simp [children])).bind fun l _ =>
        (below right (by simp [children])).bind fun r _ => Target.gapless_binary ..
    | function f args =>
      have hn : minArity (f.ruleName args.length) ≤ args.length := hm.supplied
      obtain ⟨n, -, hf⟩ := scalar_mem_rowFunctions f args.length
      rw [lower]
      refine (belowAll args fun c hc => hc).bind fun as has => ?_
      have hlen := (lowerAll_eq_ok.mp has).length_eq
      rw [← hlen]
      exact Target.gapless_call ht (RuleTable.mem_requiredFunctions hf) (hlen ▸ hn)
    | extract part operand =>
      rw [lower]
      refine (below operand (by simp [children])).bind fun a _ => Target.gapless_call ht
        (RuleTable.mem_requiredFunctions (datePart_mem_rowFunctions part)) ?_
      cases part <;> exact Nat.le_refl 1
    | toTimestamp operand unit =>
      rw [lower]
      refine (below operand (by simp [children])).bind fun a _ => Target.gapless_call ht
        (RuleTable.mem_requiredFunctions (timeUnit_mem_rowFunctions unit)) ?_
      cases unit <;> exact Nat.le_refl 1
    | inList operand values negated =>
      cases values with
      | nil =>
        rw [lower]
        exact .ok
      | cons v vs =>
        rw [lower]
        exact (below operand (by simp [children])).bind fun a _ =>
          (Gapless.mapM fun v _ => Target.gapless_constant v).bind_ok _
    | cast operand target =>
      rw [lower]
      exact (below operand (by simp [children])).bind fun a _ =>
        (Target.gapless_castType target).bind_ok _
    | case branches otherwise =>
      have hb : Gapless (lowerBranches t scope branches) := by
        rw [lowerBranches_eq]
        apply Gapless.mapM
        intro b hb
        have hmem : b.1 ∈ (Expr.case branches otherwise).children ∧
            b.2 ∈ (Expr.case branches otherwise).children := by
          simp only [children, List.mem_append, List.mem_flatMap]
          exact ⟨.inl ⟨b, hb, by simp⟩, .inl ⟨b, hb, by simp⟩⟩
        exact (below b.1 hmem.1).bind fun c _ => (below b.2 hmem.2).bind_ok _
      rw [lower]
      refine hb.bind fun bs _ => (belowOption otherwise fun c hc => ?_).bind_ok _
      simp only [children, List.mem_append, Option.mem_toList]
      exact .inr hc
    | aggregate f arg distinct filter =>
      rw [lower]
      refine (belowOption arg fun c hc => ?_).bind fun a _ =>
        (belowOption filter fun c hc => ?_).bind fun c _ => ?_
      · simp only [children, List.mem_append, Option.mem_toList]
        exact .inl hc
      · simp only [children, List.mem_append, Option.mem_toList]
        exact .inr hc
      · rw [Target.aggregate_eq]
        have hn : minArity f.ruleName ≤ [t.aggregateArg a c].length := f.required.2
        refine (Target.gapless_call ht f.required.1 hn).bind fun sql _ => ?_
        split
        · split
          · exact .ok
          · exact .refuse rfl
        · exact .ok
    | window f args partitionBy orderBy =>
      have hn : minArity f.ruleName ≤ args.length := hm.supplied
      have hks : Gapless (lowerKeys t scope orderBy) := by
        rw [lowerKeys_eq]
        refine .mapM fun k hk => (below k.expr ?_).bind_ok _
        simp only [children, List.mem_append, List.mem_map]
        exact .inr ⟨k, hk, rfl⟩
      rw [lower]
      refine (Target.gapless_checkWindow _).bind fun _ _ =>
        (belowAll args fun c hc => ?_).bind fun as has =>
          (Target.gapless_call ht f.ruleName_mem ?_).bind fun call _ =>
            (belowAll partitionBy fun c hc => ?_).bind fun ps _ =>
              hks.bind fun ks _ => Target.gapless_attach call ⟨ps, ks⟩
      · simp only [children, List.mem_append]
        exact .inl (.inl hc)
      · -- a star in the place of no arguments is one argument more
        have hlen := (lowerAll_eq_ok.mp has).length_eq
        unfold Target.windowArgs
        split
        · next hc =>
          obtain rfl : as = [] := by simpa using (Bool.and_eq_true_iff.mp hc).2
          simp only [List.length_nil] at hlen
          omega
        · omega
      · simp only [children, List.mem_append]
        exact .inl (.inr hc)

/-- An expression of a plan: the operators of the relation that the plan describes have it. -/
def Planned (e : Expr) : Prop :=
  ∃ (catalog : Catalog) (p : Plan) (r : Relation), p.relation catalog = .ok r ∧
    ∃ n ∈ r.nodes, e ∈ n.exprs

end Expr

/-- The expressions of a node that has been checked are made by the constructors. -/
theorem Relation.Checked.made {r : Relation} (h : r.Checked) : ∀ e ∈ r.exprs, e.Made := by
  cases r with
  | table | limit | distinct => simp [exprs]
  | project id input outputs => exact List.forall_mem_map.mpr fun n hn => (h.2.1 n hn).1
  | window id input outputs => exact List.forall_mem_map.mpr fun n hn => (h.1 n hn).1
  | filter id input cs => exact fun c hc => (h c hc).1
  | join id left right kind cs => exact fun c hc => (h.2.1 c hc).1
  | sort id input keys => exact List.forall_mem_map.mpr fun k hk => (h k hk).1
  | aggregate id input keys metrics having =>
    obtain ⟨hh, -, hk, -, hm, -⟩ := h
    exact List.forall_mem_append.mpr ⟨List.forall_mem_append.mpr
      ⟨List.forall_mem_map.mpr fun n hn => (hk n hn).1,
        List.forall_mem_map.mpr fun n hn => (hm n hn).1⟩, fun c hc => (hh c hc).1⟩

theorem Expr.Planned.made {e : Expr} (h : e.Planned) : e.Made := by
  obtain ⟨catalog, p, r, hr, n, hn, he⟩ := h
  exact (Plan.valid_relation hr).wellFormed n hn |>.made e he

namespace RuleTable

/-- Whatever sets of rules have been offered to a table, no expression that constructors or plans
make is refused, in a dialect that the table lists, since there is no rule for a call or the rule
reads an argument that the call lacks. To offer a further set changes nothing if it is refused, and
otherwise what its own dialect resolves, which is what the set says. -/
theorem reached_covers_calls {table : RuleTable} (h : table.Reached) :
    (∀ d ∈ table.dialects, ∀ e : Expr, e.Made ∨ e.Planned → ∀ scope error,
      e.lower ⟨d, table⟩ scope = .error error → ¬ error.IsGap) ∧
    ∀ d rules,
      (∀ error, table.register d rules = .error error → ∀ function d',
        (table.offer d rules).resolve function d' = table.resolve function d') ∧
      ∀ table', table.register d rules = .ok table' → ∀ function,
        (table.offer d rules).resolve function d = resolve [(d, rules)] function d ∧
          ∀ d', d' ≠ d → (table.offer d rules).resolve function d' = table.resolve function d' := by
  refine ⟨fun d hd e he scope error hx => ?_, fun d rules =>
    ⟨fun error hr function d' => ?_, fun table' hr function => ?_⟩⟩
  · have hm : e.Made := he.elim id Expr.Planned.made
    have hg : Gapless (e.lower ⟨d, table⟩ scope) :=
      Expr.gapless_lower (fun function hf => h.resolve hd hf) hm
    rwa [hx] at hg
  · rw [offer_of_error hr]
  · rw [offer_of_ok hr]
    exact ⟨resolve_register_self hr, fun d' hd => resolve_register_ne hr hd⟩

/-- A call of the function whose rule is nothing but the placeholder for all arguments is refused,
and not for want of a rule or an argument. -/
theorem bareLower_covers_call : (builtin.offer .postgres bareLower).Reached ∧ ∃ error,
    (Expr.function .lower [.column ⟨none, "a"⟩ .string]).lower
      ⟨.postgres, builtin.offer .postgres bareLower⟩ .bare = .error error ∧ ¬ error.IsGap := by
  have hr : (builtin.offer .postgres bareLower).Reached := .offer .builtin
  have hd : .postgres ∈ (builtin.offer .postgres bareLower).dialects := by decide +kernel
  have hc : Expr.applyFunction .lower [.column ⟨none, "a"⟩ .string] = .ok _ := rfl
  have hx : (Expr.function .lower [.column ⟨none, "a"⟩ .string]).lower
      ⟨.postgres, builtin.offer .postgres bareLower⟩ .bare = .error _ := rfl
  exact ⟨hr, _, hx, (reached_covers_calls hr).1 .postgres hd _
    (.inl (.function (by simpa using .column _ _) hc)) .bare _ hx⟩

end RuleTable

end PlanSql
