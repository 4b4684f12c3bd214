import PlanSql.Fragment.Scalar
import PlanSql.Proofs.Expr.Parts
import PlanSql.Proofs.Rule.Builtin

/-!
# What expressions become

Where an expression has SQL, its operands have, and its root is a node of SQL over theirs. From this
follows what the parts of the SQL are: parts of what columns stand for, or nodes brought in for the
nodes of the expression. A column is never brought in, and under the rules of the library a window
call only for a window function and an aggregate call only for an aggregate.
-/
namespace PlanSql

namespace Expr

variable {t : Target} {scope : Scope}

/-- Keys with the same directions, their expressions being related. -/
def KeysRelated (R : Expr → Sql.Expr → Prop) :
    List (SortKey Expr) → List (SortKey Sql.Expr) → Prop :=
  List.Forall₂ fun k k' => R k.expr k'.expr ∧ k.descending = k'.descending

theorem lowerAll_eq (es : List Expr) : lowerAll t scope es = es.mapM (lower t scope) := by
  induction es with
  | nil => rfl
  | cons e rest ih => rw [lowerAll, List.mapM_cons, ih]

theorem lowerBranches_eq (branches : List (Expr × Expr)) :
    lowerBranches t scope branches =
      branches.mapM fun b => do return (← lower t scope b.1, ← lower t scope b.2) := by
  induction branches with
  | nil => rfl
  | cons b rest ih => simp [lowerBranches, ih]

theorem lowerKeys_eq (keys : List (SortKey Expr)) :
    lowerKeys t scope keys =
      keys.mapM fun k => do return ⟨← lower t scope k.expr, k.descending⟩ := by
  induction keys with
  | nil => rfl
  | cons k rest ih => simp [lowerKeys, ih]

theorem lowerAll_eq_ok {es : List Expr} {ss : List Sql.Expr} :
    lowerAll t scope es = .ok ss ↔
      List.Forall₂ (fun e s => e.lower t scope = .ok s) es ss := by
  rw [lowerAll_eq, mapM_eq_ok]

theorem lowerOption_eq_ok {e : Option Expr} {s : Option Sql.Expr} :
    lowerOption t scope e = .ok s ↔
      List.Forall₂ (fun e s => e.lower t scope = .ok s) e.toList s.toList := by
  cases e <;> cases s <;> simp [lowerOption, bind_eq_ok]

theorem lowerBranches_eq_ok {bs : List (Expr × Expr)} {ss : List (Sql.Expr × Sql.Expr)} :
    lowerBranches t scope bs = .ok ss ↔
      List.Forall₂ (fun b s => b.1.lower t scope = .ok s.1 ∧ b.2.lower t scope = .ok s.2)
        bs ss := by
  rw [lowerBranches_eq, mapM_eq_ok]
  simp only [bind_eq_ok, pure_eq_ok, Except.ok.injEq]
  constructor <;> refine fun h => h.imp fun b s hb => ?_
  · obtain ⟨c, hc, r, hr, rfl⟩ := hb
    exact ⟨hc, hr⟩
  · exact ⟨s.1, hb.1, s.2, hb.2, rfl⟩

theorem lowerKeys_eq_ok {ks : List (SortKey Expr)} {ss : List (SortKey Sql.Expr)} :
    lowerKeys t scope ks = .ok ss ↔ KeysRelated (fun e s => e.lower t scope = .ok s) ks ss := by
  rw [lowerKeys_eq, mapM_eq_ok]
  simp only [bind_eq_ok, pure_eq_ok, Except.ok.injEq]
  constructor <;> refine fun h => h.imp fun k s hk => ?_
  · obtain ⟨e, he, rfl⟩ := hk
    exact ⟨he, rfl⟩
  · exact ⟨s.expr, hk.1, by rw [hk.2]⟩

/-- What the SQL of an expression is, given the SQL of its operands. -/
def LowersTo (t : Target) (scope : Scope) (e : Expr) (s : Sql.Expr) : Prop :=
  let R (e : Expr) (s : Sql.Expr) : Prop := e.lower t scope = .ok s
  match e with
  | .literal v => t.constant e v = .ok s
  | .column ref _ => scope.column ref = .ok s
  | .unary op operand => ∃ a, R operand a ∧ .unary op.sql a = s
  | .binary op left right =>
    ∃ l r, R left l ∧ R right r ∧ t.binary e op left.dataType right.dataType l r = .ok s
  | .function f args =>
    ∃ as, List.Forall₂ R args as ∧ t.call e (f.ruleName args.length) as = .ok s
  | .extract part operand => ∃ a, R operand a ∧ t.call e part.ruleName [a] = .ok s
  | .toTimestamp operand unit => ∃ a, R operand a ∧ t.call e unit.ruleName [a] = .ok s
  | .inList _ [] negated => .binary .eq (.int 1) (.int (if negated then 1 else 0)) = s
  | .inList operand (v :: vs) negated =>
    ∃ a cs, R operand a ∧ List.Forall₂ (fun v c => t.constant e v = .ok c) (v :: vs) cs ∧
      Sql.Expr.inList a cs negated = s
  | .isNull operand negated => ∃ a, R operand a ∧ .isNull a negated = s
  | .cast operand target =>
    ∃ a name, R operand a ∧ t.castType e target = .ok name ∧ .cast a name = s
  | .case branches otherwise =>
    ∃ bs o, List.Forall₂ (fun b s => R b.1 s.1 ∧ R b.2 s.2) branches bs ∧
      List.Forall₂ R otherwise.toList o.toList ∧ .case bs o = s
  | .aggregate f arg distinct filter =>
    ∃ a c, List.Forall₂ R arg.toList a.toList ∧ List.Forall₂ R filter.toList c.toList ∧
      t.aggregate e f a distinct c = .ok s
  | .window f args partitionBy orderBy =>
    ∃ as call ps ks, t.checkWindow e (!orderBy.isEmpty) = .ok () ∧ List.Forall₂ R args as ∧
      t.call e f.ruleName (Target.windowArgs f as) = .ok call ∧ List.Forall₂ R partitionBy ps ∧
      KeysRelated R orderBy ks ∧ t.attach e call ⟨ps, ks⟩ = .ok s

theorem lower_eq_ok {e : Expr} {s : Sql.Expr} :
    e.lower t scope = .ok s ↔ LowersTo t scope e s := by
  cases e with
  | literal v => rfl
  | column ref type => rfl
  | unary op operand | isNull operand op | binary op left right | extract op operand
  | toTimestamp operand op | cast operand op =>
    simp [lower, LowersTo, bind_eq_ok]
  | function f args =>
    simp only [lower, LowersTo, bind_eq_ok, lowerAll_eq_ok]
    refine exists_congr fun as => and_congr_right fun h => ?_
    rw [h.length_eq]
  | inList operand values negated =>
    cases values with
    | nil => simp [lower, LowersTo]
    | cons v vs =>
      simp only [lower, LowersTo, bind_eq_ok, mapM_eq_ok, pure_eq_ok, Except.ok.injEq,
        exists_and_left]
  | case branches otherwise =>
    simp only [lower, LowersTo, bind_eq_ok, lowerBranches_eq_ok, lowerOption_eq_ok, pure_eq_ok,
      Except.ok.injEq, exists_and_left]
  | aggregate f arg distinct filter =>
    simp only [lower, LowersTo, bind_eq_ok, lowerOption_eq_ok, exists_and_left]
  | window f args partitionBy orderBy =>
    simp only [lower, LowersTo, bind_eq_ok, lowerAll_eq_ok, lowerKeys_eq_ok]
    constructor
    · rintro ⟨⟨⟩, hw, as, has, call, hcall, ps, hps, ks, hks, hs⟩
      exact ⟨as, call, ps, ks, hw, has, hcall, hps, hks, hs⟩
    · rintro ⟨as, call, ps, ks, hw, has, hcall, hps, hks, hs⟩
      exact ⟨(), hw, as, has, call, hcall, ps, hps, ks, hks, hs⟩

end Expr

namespace Target

variable {t : Target} {e : Expr} {s p : Sql.Expr}

theorem call_eq_ok {function : String} {args : List Sql.Expr} :
    t.call e function args = .ok s ↔
      ∃ T, t.rules.resolve function t.dialect = .ok (.template T) ∧ T.expand args = .ok s := by
  unfold call
  split
  · next T hT =>
    rw [hT]
    simp only [Except.ok.injEq, Rule.template.injEq, exists_eq_left']
    split
    · next s' hs => simp [hs]
    · next l hl => simp [hl, refuse]
  all_goals next hT => simp [refuse, hT]

theorem mem_parts_call {function : String} {args : List Sql.Expr}
    (h : t.call e function args = .ok s) (hp : p ∈ s.parts) :
    (∃ a ∈ args, p ∈ a.parts) ∨ p.reference? = none ∧ p.isWindowCall = false ∧
      (t.rules = .builtin → ∀ n, (function, n) ∈ RuleTable.rowFunctions →
        p.isAggregateCall = false) := by
  obtain ⟨T, hT, hs⟩ := call_eq_ok.mp h
  refine (Template.mem_parts_expand hs p hp).imp_right fun ⟨hr, hw, hn⟩ => ⟨hr, hw, ?_⟩
  intro ht n hf
  obtain ⟨T', hT', -, hnames⟩ := resolve_row t.dialect hf (Nat.le_refl n)
  obtain rfl : T = T' := by simpa [ht, hT'] using hT.symm
  cases p with
  | call name as distinct filter window =>
    have := hnames name (hn name as distinct filter window rfl)
    cases window <;> simp_all [Sql.Expr.isAggregateCall]
  | _ => rfl

/-- What an aggregate is applied to: its argument or a star, kept from rows for which the condition
does not hold where there is no FILTER clause. -/
def aggregateArg (t : Target) (arg condition : Option Sql.Expr) : Sql.Expr :=
  match condition with
  | some c => if t.descriptor.supportsFilterClause then arg.getD .star else guarded arg c
  | none => arg.getD .star

/-- The condition of the FILTER clause. -/
def aggregateFilter (t : Target) (condition : Option Sql.Expr) : Option Sql.Expr :=
  if t.descriptor.supportsFilterClause then condition else none

theorem aggregate_eq (t : Target) (e : Expr) (f : AggregateFunction)
    (arg : Option Sql.Expr) (distinct : Bool) (condition : Option Sql.Expr) :
    t.aggregate e f arg distinct condition =
      t.call e f.ruleName [t.aggregateArg arg condition] >>= fun sql =>
        if distinct || (t.aggregateFilter condition).isSome then
          match sql with
          | .call name args _ _ window =>
            .ok (.call name args distinct (t.aggregateFilter condition) window)
          | _ => t.refuse e .noPlainAggregate
        else .ok sql := rfl

theorem aggregate_eq_ok {f : AggregateFunction} {arg condition : Option Sql.Expr}
    {distinct : Bool} (h : t.aggregate e f arg distinct condition = .ok s) :
    ∃ sql, t.call e f.ruleName [t.aggregateArg arg condition] = .ok sql ∧
      (s = sql ∧ distinct = false ∧ t.aggregateFilter condition = none ∨
        ∃ name args d c w, sql = .call name args d c w ∧
          s = .call name args distinct (t.aggregateFilter condition) w) := by
  rw [aggregate_eq] at h
  obtain ⟨sql, hsql, h⟩ := bind_eq_ok.mp h
  refine ⟨sql, hsql, ?_⟩
  split at h
  · split at h
    · exact .inr ⟨_, _, _, _, _, rfl, by simpa using h.symm⟩
    · simp [refuse] at h
  · next hn =>
    simp only [Bool.or_eq_true, not_or, Bool.not_eq_true, Option.isSome_eq_false_iff,
      Option.isNone_iff_eq_none] at hn
    exact .inl ⟨by simpa using h.symm, hn.1, hn.2⟩

/-- Under the rules of the library an aggregate is a call of its name. -/
theorem aggregate_builtin (ht : t.rules = .builtin) {f : AggregateFunction}
    {arg condition : Option Sql.Expr} {distinct : Bool}
    (h : t.aggregate e f arg distinct condition = .ok s) :
    s = .call f.sqlName [t.aggregateArg arg condition] distinct (t.aggregateFilter condition)
      none := by
  obtain ⟨sql, hsql, hs⟩ := aggregate_eq_ok h
  obtain rfl := call_window ht (f := .aggregate f) hsql
  rcases hs with ⟨rfl, rfl, hc⟩ | ⟨name, args, d, c, w, hcall, rfl⟩
  · rw [hc]
    rfl
  · obtain ⟨rfl, rfl, -, -, rfl⟩ := Sql.Expr.call.inj hcall
    rfl

theorem mem_parts_aggregateArg {arg condition : Option Sql.Expr}
    (hp : p ∈ (t.aggregateArg arg condition).parts) :
    (∃ a ∈ arg.toList ++ condition.toList, p ∈ a.parts) ∨
      p.reference? = none ∧ p.isWindowCall = false ∧ p.isAggregateCall = false := by
  have hstar : ∀ {q : Sql.Expr}, q ∈ (arg.getD .star).parts → (∃ a ∈ arg.toList, q ∈ a.parts) ∨
      q.reference? = none ∧ q.isWindowCall = false ∧ q.isAggregateCall = false := by
    intro q hq
    cases arg with
    | some a => exact .inl ⟨a, by simp, hq⟩
    | none =>
      obtain rfl : q = .star := by simpa [Sql.Expr.parts] using hq
      exact .inr ⟨rfl, rfl, rfl⟩
  have hwider : (∃ a ∈ arg.toList, p ∈ a.parts) →
      ∃ a ∈ arg.toList ++ condition.toList, p ∈ a.parts :=
    fun ⟨a, ha, hpa⟩ => ⟨a, List.mem_append_left _ ha, hpa⟩
  unfold aggregateArg at hp
  split at hp
  · next c =>
    split at hp
    · exact (hstar hp).imp_left hwider
    · rcases Sql.Expr.mem_parts.mp hp with rfl | ⟨b, hb, hpb⟩
      · exact .inr ⟨rfl, rfl, rfl⟩
      · have hb : b = c ∨ b = arg.getD (.int 1) := by
          simpa [guarded, Sql.Expr.children] using hb
        rcases hb with rfl | rfl
        · exact .inl ⟨b, by simp, hpb⟩
        · cases arg with
          | some a => exact .inl ⟨a, by simp, hpb⟩
          | none =>
            obtain rfl : p = .int 1 := by
              simpa [Sql.Expr.int, Sql.Expr.value, Sql.Expr.parts] using hpb
            exact .inr ⟨rfl, rfl, rfl⟩
  · exact (hstar hp).imp_left hwider

/-- The parts of an aggregate are parts of its argument and its condition, or brought in. -/
theorem mem_parts_aggregate {f : AggregateFunction} {arg condition : Option Sql.Expr}
    {distinct : Bool} (h : t.aggregate e f arg distinct condition = .ok s) (hp : p ∈ s.parts) :
    (∃ a ∈ arg.toList ++ condition.toList, p ∈ a.parts) ∨
      p.reference? = none ∧ (t.rules = .builtin → p.isWindowCall = false) := by
  have hfilter : ∀ c ∈ t.aggregateFilter condition, p ∈ c.parts →
      ∃ a ∈ arg.toList ++ condition.toList, p ∈ a.parts := by
    intro c hc hpc
    unfold aggregateFilter at hc
    split at hc
    · exact ⟨c, by simp [Option.mem_def.mp hc], hpc⟩
    · simp at hc
  obtain ⟨sql, hsql, hs⟩ := aggregate_eq_ok h
  have hinner : p ∈ sql.parts → (∃ a ∈ arg.toList ++ condition.toList, p ∈ a.parts) ∨
      p.reference? = none ∧ (t.rules = .builtin → p.isWindowCall = false) := by
    intro hp
    rcases mem_parts_call hsql hp with ⟨a, ha, hpa⟩ | ⟨hr, hw, -⟩
    · obtain rfl := List.mem_singleton.mp ha
      exact (mem_parts_aggregateArg hpa).imp_right fun ⟨hr, hw, _⟩ => ⟨hr, fun _ => hw⟩
    · exact .inr ⟨hr, fun _ => hw⟩
  rcases hs with ⟨rfl, -, -⟩ | ⟨name, args, d, c, w, rfl, rfl⟩
  · exact hinner hp
  · rcases Sql.Expr.mem_parts.mp hp with rfl | ⟨b, hb, hpb⟩
    · refine .inr ⟨rfl, fun ht => ?_⟩
      obtain ⟨-, -, -, -, rfl⟩ := Sql.Expr.call.inj (aggregate_builtin ht h)
      rfl
    · simp only [Sql.Expr.children, List.mem_append, Option.mem_toList] at hb
      rcases hb with (hb | hb) | hb
      · exact hinner (Sql.Expr.mem_parts_of_child (by simp [Sql.Expr.children, hb]) hpb)
      · exact .inl (hfilter b hb hpb)
      · refine hinner (Sql.Expr.mem_parts_of_child ?_ hpb)
        simp only [Sql.Expr.children, List.mem_append]
        exact .inr hb

theorem mem_windowArgs {f : WindowFunction} {as : List Sql.Expr} {a : Sql.Expr}
    (ha : a ∈ windowArgs f as) : a ∈ as ∨ a = .star := by
  unfold windowArgs at ha
  split at ha
  · exact .inr (by simpa using ha)
  · exact .inl ha

theorem attach_eq_ok {call : Sql.Expr} {w : Sql.Over Sql.Expr}
    (h : t.attach e call w = .ok s) : ∃ name args distinct filter window,
      call = .call name args distinct filter window ∧
        s = .call name args distinct filter (some w) := by
  unfold attach at h
  split at h
  · exact ⟨_, _, _, _, _, rfl, by simpa using h.symm⟩
  · simp [refuse] at h

/-- The parts of a window function are parts of its arguments and of the keys of its window, or
brought in; among these only the call itself is over a window. -/
theorem mem_parts_attach {f : WindowFunction} {as : List Sql.Expr} {call : Sql.Expr}
    {w : Sql.Over Sql.Expr} (hcall : t.call e f.ruleName (windowArgs f as) = .ok call)
    (h : t.attach e call w = .ok s) (hp : p ∈ s.parts) :
    (∃ a ∈ as ++ w.keys, p ∈ a.parts) ∨
      p.reference? = none ∧ (t.rules = .builtin → p.isAggregateCall = false) := by
  obtain ⟨name, args, d, c, w', rfl, rfl⟩ := attach_eq_ok h
  rcases Sql.Expr.mem_parts.mp hp with rfl | ⟨b, hb, hpb⟩
  · exact .inr ⟨rfl, fun _ => rfl⟩
  · simp only [Sql.Expr.children, List.mem_append, Option.toList_some, List.flatMap_cons,
      List.flatMap_nil, List.append_nil] at hb
    rcases hb with hb | hb
    · have hbc : b ∈ (Sql.Expr.call name args d c w').children := by
        simp only [Sql.Expr.children, List.mem_append]
        exact .inl hb
      rcases mem_parts_call hcall (Sql.Expr.mem_parts_of_child hbc hpb) with
        ⟨a, ha, hpa⟩ | ⟨hr, -, -⟩
      · rcases mem_windowArgs ha with ha | rfl
        · exact .inl ⟨a, List.mem_append_left _ ha, hpa⟩
        · obtain rfl : p = .star := by simpa [Sql.Expr.parts] using hpa
          exact .inr ⟨rfl, fun _ => rfl⟩
      · by_cases ht : t.rules = .builtin
        -- the call is that of the name, so its operands are the arguments
        · obtain ⟨-, rfl, -, rfl, -⟩ := Sql.Expr.call.inj (call_window ht hcall)
          simp only [Option.toList_none, List.not_mem_nil, or_false] at hb
          rcases mem_windowArgs hb with ha | rfl
          · exact .inl ⟨b, List.mem_append_left _ ha, hpb⟩
          · obtain rfl : p = .star := by simpa [Sql.Expr.parts] using hpb
            exact .inr ⟨rfl, fun _ => rfl⟩
        · exact .inr ⟨hr, fun h => absurd h ht⟩
    · exact .inl ⟨b, List.mem_append_right _ hb, hpb⟩

section Everywhere

variable {Q : Sql.Expr → Prop}

/-- What holds of the nodes of a template and in the arguments holds everywhere in a call. -/
theorem forall_parts_call {function : String} {args : List Sql.Expr}
    (h : t.call e function args = .ok s)
    (hT : ∀ T, t.rules.resolve function t.dialect = .ok (.template T) →
      ∀ T' ∈ T.parts, ∀ p, T'.Heads p → Q p)
    (hargs : ∀ a ∈ args, ∀ p ∈ a.parts, Q p) : ∀ p ∈ s.parts, Q p := by
  obtain ⟨T, hres, hs⟩ := call_eq_ok.mp h
  intro p hp
  rcases Template.heads_of_mem_parts_expand hs p hp with ⟨a, ha, hpa⟩ | ⟨T', hT', hh⟩
  · exact hargs a ha p hpa
  · exact hT T hres T' hT' p hh

theorem forall_parts_aggregateArg {arg condition : Option Sql.Expr} (hstar : Q .star)
    (hone : Q (.int 1)) (hcase : ∀ bs, Q (.case bs none))
    (hx : ∀ x ∈ arg.toList ++ condition.toList, ∀ p ∈ x.parts, Q p) :
    ∀ p ∈ (t.aggregateArg arg condition).parts, Q p := by
  obtain ⟨ha, hc⟩ := List.forall_mem_append.mp hx
  have hvalue : ∀ {d : Sql.Expr}, (∀ p ∈ d.parts, Q p) → ∀ p ∈ (arg.getD d).parts, Q p := by
    intro d hd
    cases arg with
    | none => exact hd
    | some a => simpa using ha
  have hplain := hvalue (d := .star) (by simpa [Sql.Expr.parts] using hstar)
  unfold aggregateArg
  split
  · next c =>
    split
    · exact hplain
    · intro p hp
      rcases Sql.Expr.mem_parts.mp hp with rfl | ⟨b, hb, hpb⟩
      · exact hcase _
      · have hb : b = c ∨ b = arg.getD (.int 1) := by
          simpa [guarded, Sql.Expr.children] using hb
        rcases hb with rfl | rfl
        · exact hc b (by simp) p hpb
        · refine hvalue (d := .int 1) ?_ p hpb
          simpa [Sql.Expr.int, Sql.Expr.value, Sql.Expr.parts] using hone
  · exact hplain

/-- An aggregate is the call that the rules make of its argument, perhaps with other modifiers. -/
theorem forall_parts_aggregate {f : AggregateFunction} {arg condition : Option Sql.Expr}
    {distinct : Bool} (h : t.aggregate e f arg distinct condition = .ok s)
    (hT : ∀ T, t.rules.resolve f.ruleName t.dialect = .ok (.template T) →
      ∀ T' ∈ T.parts, ∀ p, T'.Heads p → Q p)
    (hstar : Q .star) (hone : Q (.int 1)) (hcase : ∀ bs, Q (.case bs none))
    (hmodify : ∀ name args d c w, Q (.call name args d c w) →
      Q (.call name args distinct (t.aggregateFilter condition) w))
    (hx : ∀ x ∈ arg.toList ++ condition.toList, ∀ p ∈ x.parts, Q p) : ∀ p ∈ s.parts, Q p := by
  obtain ⟨sql, hsql, hs⟩ := aggregate_eq_ok h
  have hcall : ∀ p ∈ sql.parts, Q p := by
    refine forall_parts_call hsql hT ?_
    simpa using forall_parts_aggregateArg hstar hone hcase hx
  rcases hs with ⟨rfl, -, -⟩ | ⟨name, args, d, c, w, rfl, rfl⟩
  · exact hcall
  · intro p hp
    rcases Sql.Expr.mem_parts.mp hp with rfl | ⟨b, hb, hpb⟩
    · exact hmodify name args d c w (hcall _ (Sql.Expr.mem_parts_self _))
    · simp only [Sql.Expr.children, List.mem_append, Option.mem_toList] at hb
      rcases hb with (hb | hb) | hb
      · exact hcall p (Sql.Expr.mem_parts_of_child (by simp [Sql.Expr.children, hb]) hpb)
      · refine hx b (List.mem_append_right _ ?_) p hpb
        unfold aggregateFilter at hb
        split at hb
        · simpa using hb
        · simp at hb
      · refine hcall p (Sql.Expr.mem_parts_of_child ?_ hpb)
        simp only [Sql.Expr.children, List.mem_append]
        exact .inr hb

theorem forall_parts_attach {f : WindowFunction} {as : List Sql.Expr} {call : Sql.Expr}
    {w : Sql.Over Sql.Expr} (hcall : t.call e f.ruleName (windowArgs f as) = .ok call)
    (h : t.attach e call w = .ok s)
    (hT : ∀ T, t.rules.resolve f.ruleName t.dialect = .ok (.template T) →
      ∀ T' ∈ T.parts, ∀ p, T'.Heads p → Q p)
    (hstar : Q .star) (hs : Q call → Q s) (hx : ∀ x ∈ as ++ w.keys, ∀ p ∈ x.parts, Q p) :
    ∀ p ∈ s.parts, Q p := by
  obtain ⟨has, hks⟩ := List.forall_mem_append.mp hx
  have hc : ∀ p ∈ call.parts, Q p := by
    refine forall_parts_call hcall hT fun a ha => ?_
    rcases mem_windowArgs ha with ha | rfl
    · exact has a ha
    · simpa [Sql.Expr.parts] using hstar
  obtain ⟨name, args, d, c, w', rfl, rfl⟩ := attach_eq_ok h
  intro p hp
  rcases Sql.Expr.mem_parts.mp hp with rfl | ⟨b, hb, hpb⟩
  · exact hs (hc _ (Sql.Expr.mem_parts_self _))
  · simp only [Sql.Expr.children, List.mem_append, Option.toList_some, List.flatMap_cons,
      List.flatMap_nil, List.append_nil] at hb
    rcases hb with hb | hb
    · refine hc p (Sql.Expr.mem_parts_of_child ?_ hpb)
      simp only [Sql.Expr.children, List.mem_append]
      exact .inl hb
    · exact hks b hb p hpb

end Everywhere

theorem castType_eq_ok {type : DataType} {name : String} (h : t.castType e type = .ok name) :
    t.dialect.castTypeName? type = some name := by
  unfold castType at h
  split at h
  · next n hn => rw [hn, Except.ok.inj h]
  · simp [refuse] at h

theorem constant_eq_ok {v : Value} (h : t.constant e v = .ok s) : s = .value v := by
  unfold constant at h
  split at h
  · split at h
    · simpa using h.symm
    · simp [refuse] at h
  · simpa using h.symm

end Target

namespace Expr

variable {t : Target} {scope : Scope}

/-- A node that lowering brings in for some node of an expression. -/
def Introduces (t : Target) (e : Expr) (p : Sql.Expr) : Prop :=
  p.reference? = none ∧ (t.rules = .builtin →
    (p.isWindowCall = true → ∃ q ∈ e.kept, q.isWindow = true) ∧
      (p.isAggregateCall = true → ∃ q ∈ e.kept, q.isAggregate = true))

/-- The parts of what some column of an expression stands for. -/
def StandsFor (scope : Scope) (e : Expr) (p : Sql.Expr) : Prop :=
  ∃ ref ∈ e.keptRefs, ∃ d, scope.column ref = .ok d ∧ p ∈ d.parts

theorem introduces_of_neither {e : Expr} {p : Sql.Expr} (hr : p.reference? = none)
    (hw : p.isWindowCall = false) (ha : p.isAggregateCall = false) : Introduces t e p :=
  ⟨hr, fun _ => ⟨by simp [hw], by simp [ha]⟩⟩

theorem scalar_mem_rowFunctions (f : ScalarFunction) (n : Nat) :
    ∃ m, (0 < n → m ≤ n) ∧ (f.ruleName n, m) ∈ RuleTable.rowFunctions := by
  by_cases hf : f = .round ∧ 1 < n
  · obtain ⟨rfl, hn⟩ := hf
    exact ⟨2, fun _ => hn, by simp [ScalarFunction.ruleName, hn, RuleTable.rowFunctions]⟩
  · refine ⟨1, id, ?_⟩
    cases f <;> simp_all [ScalarFunction.ruleName, RuleTable.rowFunctions]

theorem datePart_mem_rowFunctions (p : DatePart) : (p.ruleName, 1) ∈ RuleTable.rowFunctions := by
  cases p <;> decide

theorem timeUnit_mem_rowFunctions (u : TimeUnit) : (u.ruleName, 1) ∈ RuleTable.rowFunctions := by
  cases u <;> decide +kernel

/-- Lowering an expression in a scope gives SQL whose parts all satisfy `Q`, as soon as the parts of
what columns stand for do. -/
structure Admits (t : Target) (scope : Scope) (e : Expr) (Q : Sql.Expr → Prop) : Prop where
  constant {q : Expr} {v : Value} {s : Sql.Expr} : t.constant q v = .ok s → Q s
  unary {op : UnaryOp} {a : Sql.Expr} : Q (.unary op.sql a)
  binary {op : BinaryOp} {l r : Sql.Expr} : Q (.binary op.sql l r)
  row {q : Expr} {function : String} {n : Nat} {as : List Sql.Expr} {s : Sql.Expr} :
    (function, n) ∈ RuleTable.rowFunctions → t.call q function as = .ok s →
    (∀ a ∈ as, ∀ p ∈ a.parts, Q p) → ∀ p ∈ s.parts, Q p
  inList {a : Sql.Expr} {vs : List Sql.Expr} {negated : Bool} : Q (.inList a vs negated)
  isNull {a : Sql.Expr} {negated : Bool} : Q (.isNull a negated)
  cast {q : Expr} {type : DataType} {name : String} {a : Sql.Expr} :
    t.castType q type = .ok name → Q (.cast a name)
  case {bs : List (Sql.Expr × Sql.Expr)} {o : Option Sql.Expr} : Q (.case bs o)
  aggregate {f : AggregateFunction} {arg filter : Option Expr} {distinct : Bool}
    {a c : Option Sql.Expr} {s : Sql.Expr} : .aggregate f arg distinct filter ∈ e.kept →
    (Expr.aggregate f arg distinct filter).lower t scope = .ok s →
    t.aggregate (.aggregate f arg distinct filter) f a distinct c = .ok s →
    (∀ x ∈ a.toList ++ c.toList, ∀ p ∈ x.parts, Q p) → ∀ p ∈ s.parts, Q p
  window {f : WindowFunction} {args partitionBy : List Expr} {orderBy : List (SortKey Expr)}
    {as : List Sql.Expr} {call : Sql.Expr} {w : Sql.Over Sql.Expr} {s : Sql.Expr} :
    .window f args partitionBy orderBy ∈ e.kept →
    (Expr.window f args partitionBy orderBy).lower t scope = .ok s →
    t.call (.window f args partitionBy orderBy) f.ruleName (Target.windowArgs f as) = .ok call →
    t.attach (.window f args partitionBy orderBy) call w = .ok s →
    (∀ x ∈ as ++ w.keys, ∀ p ∈ x.parts, Q p) → ∀ p ∈ s.parts, Q p

theorem Admits.child {e c : Expr} {Q : Sql.Expr → Prop} (h : Admits t scope e Q)
    (hv : e.isVoidMembership = false) (hc : c ∈ e.children) : Admits t scope c Q :=
  { h with
    aggregate := fun hp => h.aggregate (mem_kept_of_child hv hc hp)
    window := fun hp => h.window (mem_kept_of_child hv hc hp) }

/-- The parts of the SQL of an expression are parts of what its columns stand for or were put there
for one of its nodes. -/
theorem Admits.lower {e : Expr} {s : Sql.Expr} {Q : Sql.Expr → Prop} (hQ : Admits t scope e Q)
    (hs : ∀ ref ∈ e.keptRefs, ∀ d, scope.column ref = .ok d → ∀ p ∈ d.parts, Q p)
    (h : e.lower t scope = .ok s) : ∀ p ∈ s.parts, Q p := by
  induction e using induct generalizing s with
  | step e ih =>
    have below (hv : e.isVoidMembership = false) : ∀ c ∈ e.children, ∀ s',
        c.lower t scope = .ok s' → ∀ p ∈ s'.parts, Q p :=
      fun c hc s' hs' => ih c hc (hQ.child hv hc)
        (fun ref hr => hs ref (mem_keptRefs_of_child hv hc hr)) hs'
    have belowAll (hv : e.isVoidMembership = false) : ∀ {es : List Expr} {ss : List Sql.Expr},
        (∀ c ∈ es, c ∈ e.children) → List.Forall₂ (fun e s => e.lower t scope = .ok s) es ss →
        ∀ a ∈ ss, ∀ p ∈ a.parts, Q p := by
      intro es ss hes hf a ha
      obtain ⟨c, hc, hl⟩ := forall₂_mem_right hf ha
      exact below hv c (hes c hc) a hl
    -- a node that satisfies `Q` over parts that do
    have node : ∀ {r : Sql.Expr}, Q r → (∀ b ∈ r.children, ∀ p ∈ b.parts, Q p) →
        ∀ p ∈ r.parts, Q p := by
      intro r hr hb p hp
      rcases Sql.Expr.mem_parts.mp hp with rfl | ⟨b, hbr, hpb⟩
      · exact hr
      · exact hb b hbr p hpb
    have constant : ∀ {q : Expr} {v : Value} {r : Sql.Expr}, t.constant q v = .ok r →
        ∀ p ∈ r.parts, Q p := by
      intro q v r hr
      refine node (hQ.constant hr) ?_
      obtain rfl := Target.constant_eq_ok hr
      simp [Sql.Expr.value, Sql.Expr.children]
    have h := lower_eq_ok.mp h
    cases e with
    | literal v => exact constant h
    | column ref type => exact hs ref (mem_keptRefs.mpr ⟨type, mem_kept_self _⟩) s h
    | unary op operand =>
      obtain ⟨a, ha, rfl⟩ := h
      refine node hQ.unary ?_
      simpa [Sql.Expr.children] using below rfl operand (by simp [children]) a ha
    | binary op left right =>
      obtain ⟨l, r, hl, hr, h⟩ := h
      have hl := below rfl left (by simp [children]) l hl
      have hr := below rfl right (by simp [children]) r hr
      unfold Target.binary at h
      split at h
      · obtain ⟨name, hn, h⟩ := bind_eq_ok.mp h
        obtain rfl : _ = s := by simpa using h
        have hc : ∀ p ∈ (Sql.Expr.cast l name).parts, Q p := by
          refine node (hQ.cast hn) ?_
          simpa [Sql.Expr.children] using hl
        refine node hQ.binary ?_
        simpa only [Sql.Expr.children, List.forall_mem_cons] using ⟨hc, hr, by simp⟩
      · obtain rfl : _ = s := by simpa using h
        refine node hQ.binary ?_
        simpa only [Sql.Expr.children, List.forall_mem_cons] using ⟨hl, hr, by simp⟩
    | function f args =>
      obtain ⟨as, has, h⟩ := h
      obtain ⟨n, -, hn⟩ := scalar_mem_rowFunctions f args.length
      exact hQ.row hn h (belowAll rfl (fun c hc => hc) has)
    | extract part operand =>
      obtain ⟨a, ha, h⟩ := h
      refine hQ.row (datePart_mem_rowFunctions part) h ?_
      simpa using below rfl operand (by simp [children]) a ha
    | toTimestamp operand unit =>
      obtain ⟨a, ha, h⟩ := h
      refine hQ.row (timeUnit_mem_rowFunctions unit) h ?_
      simpa using below rfl operand (by simp [children]) a ha
    | inList operand values negated =>
      cases values with
      | nil =>
        obtain rfl := h
        have hone : ∀ i : Int, ∀ p ∈ (Sql.Expr.int i).parts, Q p := fun i =>
          constant (q := .literal (.int i)) (v := .int i) rfl
        have heq : ∀ l r, Q (.binary BinaryOp.eq.sql l r) := fun l r => hQ.binary
        refine node (heq _ _) ?_
        simp only [Sql.Expr.children, List.forall_mem_cons]
        exact ⟨hone _, hone _, by simp⟩
      | cons v vs =>
        obtain ⟨a, cs, ha, hcs, rfl⟩ := h
        refine node hQ.inList ?_
        refine List.forall_mem_cons.mpr ⟨below rfl operand (by simp [children]) a ha, fun c hc => ?_⟩
        obtain ⟨v', -, hv⟩ := forall₂_mem_right hcs hc
        exact constant hv
    | isNull operand negated =>
      obtain ⟨a, ha, rfl⟩ := h
      refine node hQ.isNull ?_
      simpa [Sql.Expr.children] using below rfl operand (by simp [children]) a ha
    | cast operand target =>
      obtain ⟨a, name, ha, hn, rfl⟩ := h
      refine node (hQ.cast hn) ?_
      simpa [Sql.Expr.children] using below rfl operand (by simp [children]) a ha
    | case branches otherwise =>
      obtain ⟨bs, o, hbs, ho, rfl⟩ := h
      refine node hQ.case fun b hb => ?_
      simp only [Sql.Expr.children, List.mem_append, List.mem_flatMap, List.mem_cons,
        List.not_mem_nil, or_false] at hb
      rcases hb with ⟨x, hx, rfl | rfl⟩ | hb
      · obtain ⟨y, hy, hyx, -⟩ := forall₂_mem_right hbs hx
        refine below rfl y.1 ?_ _ hyx
        simp only [children, List.mem_append, List.mem_flatMap]
        exact .inl ⟨y, hy, by simp⟩
      · obtain ⟨y, hy, -, hyx⟩ := forall₂_mem_right hbs hx
        refine below rfl y.2 ?_ _ hyx
        simp only [children, List.mem_append, List.mem_flatMap]
        exact .inl ⟨y, hy, by simp⟩
      · exact belowAll rfl (fun c hc => List.mem_append_right _ hc) ho b hb
    | aggregate f arg distinct filter =>
      have hl := lower_eq_ok.mpr h
      obtain ⟨a, c, ha, hc, h⟩ := h
      refine hQ.aggregate (mem_kept_self _) hl h ?_
      exact belowAll rfl (fun c hc => hc) (List.rel_append ha hc)
    | window f args partitionBy orderBy =>
      have hl := lower_eq_ok.mpr h
      obtain ⟨as, call, ps, ks, -, has, hcall, hps, hks, h⟩ := h
      have hks' : List.Forall₂ (fun e s => e.lower t scope = .ok s) (orderBy.map (·.expr))
          (ks.map (·.expr)) := by
        rw [List.forall₂_map_left_iff, List.forall₂_map_right_iff]
        exact List.Forall₂.imp (fun _ _ hk => hk.1) hks
      refine hQ.window (mem_kept_self _) hl hcall h ?_
      have hall := belowAll rfl (fun c hc => hc) (List.rel_append (List.rel_append has hps) hks')
      simpa [Sql.Over.keys] using hall

theorem admits_introduces (e : Expr) :
    Admits t scope e fun p => StandsFor scope e p ∨ Introduces t e p where
  constant h := by
    obtain rfl := Target.constant_eq_ok h
    exact .inr (introduces_of_neither rfl rfl rfl)
  unary := .inr (introduces_of_neither rfl rfl rfl)
  binary := .inr (introduces_of_neither rfl rfl rfl)
  row hfn h hargs p hp := by
    rcases Target.mem_parts_call h hp with ⟨a, ha, hpa⟩ | ⟨hr, hw, hagg⟩
    · exact hargs a ha p hpa
    · exact .inr ⟨hr, fun ht => ⟨by simp [hw], by simp [hagg ht _ hfn]⟩⟩
  inList := .inr (introduces_of_neither rfl rfl rfl)
  isNull := .inr (introduces_of_neither rfl rfl rfl)
  cast _ := .inr (introduces_of_neither rfl rfl rfl)
  case := .inr (introduces_of_neither rfl rfl rfl)
  aggregate hm _ h hargs p hp := by
    rcases Target.mem_parts_aggregate h hp with ⟨a, ha, hpa⟩ | ⟨hr, hw⟩
    · exact hargs a ha p hpa
    · exact .inr ⟨hr, fun ht => ⟨by simp [hw ht], fun _ => ⟨_, hm, rfl⟩⟩⟩
  window hm _ hcall h hargs p hp := by
    rcases Target.mem_parts_attach hcall h hp with ⟨a, ha, hpa⟩ | ⟨hr, hagg⟩
    · exact hargs a ha p hpa
    · exact .inr ⟨hr, fun ht => ⟨fun _ => ⟨_, hm, rfl⟩, by simp [hagg ht]⟩⟩

/-- A part of the SQL of an expression is part of what a column stands for or was brought in. -/
theorem mem_parts_lower {e : Expr} {s p : Sql.Expr} (h : e.lower t scope = .ok s)
    (hp : p ∈ s.parts) : StandsFor scope e p ∨ Introduces t e p :=
  (admits_introduces e).lower (fun ref hr d hd _ hp => .inl ⟨ref, hr, d, hd, hp⟩) h p hp

/-- The SQL of an expression refers to the columns that its own columns stand for. -/
theorem mem_references_lower {e : Expr} {s : Sql.Expr} (h : e.lower t scope = .ok s)
    {ref : Sql.Expr.Reference} (hr : ref ∈ s.references) :
    ∃ r ∈ e.columnRefs, ∃ d, scope.column r = .ok d ∧ ref ∈ d.references := by
  rcases mem_parts_lower h (Sql.Expr.mem_references.mp hr) with ⟨r, hr, d, hd, hp⟩ | hi
  · exact ⟨r, mem_columnRefs_of_mem_keptRefs hr, d, hd, Sql.Expr.mem_references.mpr hp⟩
  · exact absurd hi.1 (by simp [Sql.Expr.reference?])

end Expr

end PlanSql
