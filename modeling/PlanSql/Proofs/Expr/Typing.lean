import PlanSql.Proofs.Expr.Made

/-!
# Types of made expressions

An expression that the checked constructors have made has, in every part, the type that the
constructor of that part computes from the types of its operands, and conditions where conditions
have to be. What the columns are is another matter: a column has the type that it was given, which
is right with respect to a relation only if the column that the reference denotes there has it as
well.
-/
namespace PlanSql

theorem expect_eq_ok {context : String} {expected : Expected} {ok : DataType → Bool}
    {t : DataType} : t.expect context expected ok = .ok () ↔ ok t = true := by
  unfold DataType.expect
  split <;> simp_all

/-- Conditions can be joined by AND, and nothing else can. -/
theorem BinaryOp.resultType_and {l r t : DataType} : BinaryOp.and.resultType l r = .ok t ↔
    l.isCondition = true ∧ r.isCondition = true ∧ t = .bool := by
  change ((l.expect _ .boolean DataType.isCondition >>= fun _ =>
    r.expect _ .boolean DataType.isCondition >>= fun _ => .ok .bool) = .ok t) ↔ _
  constructor
  · intro h
    obtain ⟨⟨⟩, hl, h⟩ := bind_eq_ok.mp h
    obtain ⟨⟨⟩, hr, h⟩ := bind_eq_ok.mp h
    exact ⟨expect_eq_ok.mp hl, expect_eq_ok.mp hr, (Except.ok.inj h).symm⟩
  · rintro ⟨hl, hr, rfl⟩
    simp [expect_eq_ok.mpr hl, expect_eq_ok.mpr hr]

@[simp] theorem resultOf_ok (t : DataType) : resultOf (.ok t) = t := rfl

theorem conditions_of_caseType {branches : List (DataType × DataType)} {otherwise : Option DataType}
    {t : DataType} (h : caseType branches otherwise = .ok t) :
    ∀ b ∈ branches, b.1.isCondition = true := by
  obtain ⟨common, hf, -⟩ := bind_eq_ok.mp h
  clear h
  generalize DataType.null = start at hf
  induction branches generalizing start with
  | nil => simp
  | cons b rest ih =>
    obtain ⟨next, hb, hrest⟩ := bind_eq_ok.mp ((List.foldlM_cons ..).symm.trans hf)
    obtain ⟨⟨⟩, hc, -⟩ := bind_eq_ok.mp hb
    exact List.forall_mem_cons.mpr ⟨expect_eq_ok.mp hc, ih next hrest⟩

/-- Where the conditions are conditions, the type of a choice is joined from all results. -/
theorem caseType_eq {branches : List (DataType × DataType)} {otherwise : Option DataType}
    (h : ∀ b ∈ branches, b.1.isCondition = true) : caseType branches otherwise =
      (branches.map (·.2) ++ otherwise.toList).foldlM (DataType.join "SearchedCase") .null := by
  have hb (start : DataType) : branches.foldlM (fun common b => do
      b.1.expect "SearchedCase" .boolean DataType.isCondition
      common.join "SearchedCase" b.2) start =
        (branches.map (·.2)).foldlM (DataType.join "SearchedCase") start := by
    induction branches generalizing start with
    | nil => rfl
    | cons b rest ih =>
      obtain ⟨hc, hrest⟩ := List.forall_mem_cons.mp h
      simp only [List.map_cons, List.foldlM_cons, expect_eq_ok.mpr hc, ok_bind, ih hrest]
  rw [List.foldlM_append, ← hb]
  unfold caseType
  cases otherwise with
  | none => simp
  | some t => simp only [Option.toList, List.foldlM_cons, List.foldlM_nil, bind_pure]

/-- The type of an aggregate over values of a type; only rows are counted without values. -/
def AggregateFunction.rootType (f : AggregateFunction) (arg : Option DataType) :
    Except PlanError DataType :=
  match f, arg with
  | f, some t => f.resultType t
  | .count, none => .ok .int64
  | f, none => .error (.invalidAggregation (.missingArgument f.displayName))

/-- The type of a window function over arguments of the given types. A function that is shifted
takes a number of rows as well. -/
def WindowFunction.rootType (f : WindowFunction) (args : List DataType) :
    Except PlanError DataType :=
  match f, args with
  | .rowNumber, [] | .rank, [] | .denseRank, [] => .ok .int64
  | .lag, [t, .int64] | .lead, [t, .int64] => .ok t
  | .aggregate f, [] => f.rootType none
  | .aggregate f, [t] => f.rootType (some t)
  | _, _ => .error (.invalidAggregation .overOnOther)

theorem AggregateFunction.rootType_none {f : AggregateFunction} {t : DataType}
    (h : f.rootType none = .ok t) : t = .int64 := by
  cases f <;> simp_all [rootType]

theorem WindowFunction.resultType_of_rootType {f : WindowFunction} {args : List DataType}
    {t : DataType} (h : f.rootType args = .ok t) : t = f.resultType args := by
  unfold rootType at h
  split at h
  · simpa [resultType] using h.symm
  · simpa [resultType] using h.symm
  · simpa [resultType] using h.symm
  · simpa [resultType] using h.symm
  · simpa [resultType] using h.symm
  · exact AggregateFunction.rootType_none h
  · next f u =>
    change f.resultType u = .ok t at h
    rw [resultType, h, resultOf_ok]
  · simp at h

namespace Expr

/-- The type that the constructor of the root computes from the types of the operands. -/
def rootType : Expr → Except PlanError DataType
  | .literal v => .ok v.dataType
  | .column _ t | .cast _ t => .ok t
  | .unary op operand => op.resultType operand.dataType
  | .binary op left right => op.resultType left.dataType right.dataType
  | .function f args => f.resultType (args.map dataType)
  | .extract part operand => part.resultType operand.dataType
  | .toTimestamp operand _ => TimeUnit.resultType operand.dataType
  | .inList operand values _ => membershipType operand.dataType values
  | .isNull _ _ => .ok .bool
  | .case branches otherwise =>
    caseType (branches.map fun b => (b.1.dataType, b.2.dataType)) (otherwise.map dataType)
  | .aggregate f arg _ _ => f.rootType (arg.map dataType)
  | .window f args _ _ => f.rootType (args.map dataType)

/-- The operands that have to be conditions. -/
def conditions : Expr → List Expr
  | .case branches _ => branches.map (·.1)
  | .aggregate _ _ _ filter => filter.toList
  | _ => []

/-- Every part of the expression has the type that its constructor computes, conditions are
conditions, and every column has the type that `type?` finds for its reference. -/
structure WellTyped (type? : ColumnRef → Option DataType) (e : Expr) : Prop where
  computed : ∀ p ∈ e.parts, p.rootType = .ok p.dataType
  conditions : ∀ p ∈ e.parts, ∀ c ∈ p.conditions, c.dataType.isCondition = true
  columns : ∀ ref t, .column ref t ∈ e.parts → type? ref = some t

theorem branchTypes_eq (branches : List (Expr × Expr)) :
    branchTypes branches = branches.map fun b => (b.1.dataType, b.2.dataType) := by
  induction branches with
  | nil => rfl
  | cons b rest ih => simp [branchTypes, ih]

/-- The type of an expression is what its constructor computes, where that is any type at all. -/
theorem rootType_eq_dataType {e : Expr} {t : DataType} (h : e.rootType = .ok t) :
    e.rootType = .ok e.dataType := by
  suffices t = e.dataType from this ▸ h
  cases e with
  | literal v => simpa [rootType, dataType] using h.symm
  | column ref t => simpa [rootType, dataType] using h.symm
  | isNull operand negated => simpa [rootType, dataType] using h.symm
  | cast operand target => simpa [rootType, dataType] using h.symm
  | unary op operand => rw [dataType, show op.resultType _ = .ok t from h, resultOf_ok]
  | binary op left right => rw [dataType, show op.resultType _ _ = .ok t from h, resultOf_ok]
  | function f args =>
    rw [dataType, dataTypes_eq, show f.resultType _ = .ok t from h, resultOf_ok]
  | extract part operand =>
    obtain ⟨⟨⟩, -, h⟩ := PlanSql.bind_eq_ok.mp h
    simpa [dataType] using h.symm
  | toTimestamp operand unit =>
    obtain ⟨⟨⟩, -, h⟩ := PlanSql.bind_eq_ok.mp h
    simpa [dataType] using h.symm
  | inList operand values negated =>
    obtain ⟨⟨⟩, -, h⟩ := PlanSql.bind_eq_ok.mp h
    simpa [dataType] using h.symm
  | case branches otherwise =>
    have h : caseType (branchTypes branches) (otherwise.map dataType) = .ok t := by
      rw [branchTypes_eq]
      exact h
    cases otherwise <;> rw [dataType] <;> exact (congrArg resultOf h).symm
  | aggregate f arg distinct filter =>
    cases arg with
    | none =>
      rw [dataType]
      exact (AggregateFunction.rootType_none h)
    | some a => rw [dataType, show f.resultType _ = .ok t from h, resultOf_ok]
  | window f args partitionBy orderBy =>
    rw [dataType, dataTypes_eq]
    exact WindowFunction.resultType_of_rootType h

/-- Constructors see to it that the type they compute exists, and that conditions are conditions. -/
theorem Made.computes {e : Expr} (h : e.Made) :
    (∃ t, e.rootType = .ok t) ∧ ∀ c ∈ e.conditions, c.dataType.isCondition = true := by
  induction h with
  | literal | column | isNull | cast => exact ⟨⟨_, rfl⟩, by simp [Expr.conditions]⟩
  | countStar => exact ⟨⟨_, rfl⟩, by simp [Expr.conditions, Expr.countStar]⟩
  | ranking hf =>
    refine ⟨?_, by simp [Expr.conditions, Expr.ranking]⟩
    simp only [List.mem_cons, List.not_mem_nil, or_false] at hf
    rcases hf with rfl | rfl | rfl <;> exact ⟨_, rfl⟩
  | unary ha h =>
    obtain rfl := applyUnary_eq_ok h
    obtain ⟨t, ht, -⟩ := PlanSql.bind_eq_ok.mp h
    exact ⟨⟨t, ht⟩, by simp [Expr.conditions]⟩
  | binary hl hr h =>
    obtain rfl := applyBinary_eq_ok h
    obtain ⟨t, ht, -⟩ := PlanSql.bind_eq_ok.mp h
    exact ⟨⟨t, ht⟩, by simp [Expr.conditions]⟩
  | function ha h =>
    obtain ⟨rfl, -⟩ := applyFunction_eq_ok h
    obtain ⟨t, ht, -⟩ := PlanSql.bind_eq_ok.mp h
    rw [dataTypes_eq] at ht
    exact ⟨⟨t, ht⟩, by simp [Expr.conditions]⟩
  | extract ha h =>
    obtain rfl := applyExtract_eq_ok h
    obtain ⟨t, ht, -⟩ := PlanSql.bind_eq_ok.mp h
    exact ⟨⟨t, ht⟩, by simp [Expr.conditions]⟩
  | toTimestamp ha h =>
    obtain rfl := applyToTimestamp_eq_ok h
    obtain ⟨t, ht, -⟩ := PlanSql.bind_eq_ok.mp h
    exact ⟨⟨t, ht⟩, by simp [Expr.conditions]⟩
  | inList ha h =>
    obtain rfl := applyInList_eq_ok h
    obtain ⟨t, ht, -⟩ := PlanSql.bind_eq_ok.mp h
    exact ⟨⟨t, ht⟩, by simp [Expr.conditions]⟩
  | @case branches otherwise e hc hr ho h =>
    obtain ⟨rfl, -⟩ := applyCase_eq_ok h
    unfold applyCase at h
    obtain ⟨-, h⟩ := guard_eq_ok.mp h
    obtain ⟨t, ht, -⟩ := PlanSql.bind_eq_ok.mp h
    rw [branchTypes_eq] at ht
    refine ⟨⟨t, ht⟩, fun c hc => ?_⟩
    obtain ⟨b, hb, rfl⟩ := List.mem_map.mp hc
    exact conditions_of_caseType ht _ (List.mem_map_of_mem hb)
  | aggregate ha h =>
    obtain ⟨rfl, -⟩ := applyAggregate_eq_ok h
    unfold applyAggregate at h
    obtain ⟨-, h⟩ := guard_eq_ok.mp h
    obtain ⟨-, h⟩ := guard_eq_ok.mp h
    obtain ⟨t, ht, -⟩ := PlanSql.bind_eq_ok.mp h
    exact ⟨⟨t, ht⟩, by simp [Expr.conditions]⟩
  | withFilter ha hc h iha =>
    obtain ⟨-, f, arg, distinct, rfl, rfl⟩ := withFilter_eq_ok h
    obtain ⟨⟨⟩, hcond, -⟩ := PlanSql.bind_eq_ok.mp h
    obtain ⟨⟨t, ht⟩, -⟩ := iha
    exact ⟨⟨t, ht⟩, by simpa [Expr.conditions] using expect_eq_ok.mp hcond⟩
  | shift hf ha h =>
    obtain ⟨rfl, -⟩ := shift_eq_ok h
    refine ⟨?_, by simp [Expr.conditions]⟩
    simp only [List.mem_cons, List.not_mem_nil, or_false] at hf
    rcases hf with rfl | rfl <;> exact ⟨_, rfl⟩
  | windowed ha hp hk h iha =>
    -- a window has the type of what it replaces, so the check is known from there
    obtain ⟨-, ⟨f, args, ps', ks', rfl, rfl⟩ | ⟨f, arg, rfl, rfl⟩⟩ := applyOver_eq_ok h
    · exact ⟨iha.1, by simp [Expr.conditions]⟩
    · obtain ⟨⟨t, ht⟩, -⟩ := iha
      refine ⟨⟨t, ?_⟩, by simp [Expr.conditions]⟩
      rw [← ht]
      cases arg <;> rfl

/-- An expression that exists is well typed as soon as its columns have the types of the columns
they denote. -/
theorem Made.wellTyped {e : Expr} (h : e.Made) {type? : ColumnRef → Option DataType}
    (hc : ∀ ref t, .column ref t ∈ e.parts → type? ref = some t) : e.WellTyped type? where
  computed p hp := by
    obtain ⟨⟨t, ht⟩, -⟩ := (h.part hp).computes
    exact rootType_eq_dataType ht
  conditions p hp := (h.part hp).computes.2
  columns := hc

end Expr

end PlanSql
