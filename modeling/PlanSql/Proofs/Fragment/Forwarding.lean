import PlanSql.Proofs.Fragment.Lowering

/-!
# What is no more than a column

Which expressions become a column and nothing else: references, and calls that the rules replace by
an argument which does. What such an expression becomes is what its reference stands for, in every
scope.
-/
namespace PlanSql

/-- The rule for a function puts one of the arguments in the place of the call. -/
def Target.ReplacesBy (t : Target) (function : String) (index : Nat) : Prop :=
  t.rules.resolve function t.dialect = .ok (.template (.arg index))

namespace Target

variable {t : Target} {e : Expr} {function : String} {args : List Sql.Expr}

theorem ReplacesBy.call {index : Nat} (h : t.ReplacesBy function index) {s : Sql.Expr}
    (hs : t.call e function args = .ok s) : args[index]? = some s := by
  obtain ⟨T, hT, hs⟩ := call_eq_ok.mp hs
  obtain rfl : T = .arg index := by simpa [ReplacesBy, hT] using h
  simp only [Template.expand] at hs
  split at hs
  · next a ha => rw [ha, Except.ok.inj hs]
  · simp at hs

/-- A call becomes a column only by way of an argument that is one. -/
theorem call_eq_column {q : Option String} {n : String}
    (h : t.call e function args = .ok (.column q n)) :
    ∃ index, t.ReplacesBy function index ∧ args[index]? = some (.column q n) := by
  obtain ⟨T, hT, hs⟩ := call_eq_ok.mp h
  cases T with
  | arg index => exact ⟨index, hT, ReplacesBy.call hT h⟩
  | args => simp [Template.expand] at hs
  | int | number | string => simp [Template.expand, Sql.Expr.int, Sql.Expr.value] at hs
  | call name items | extract name operand | cast operand name =>
    obtain ⟨x, -, hs⟩ := bind_eq_ok.mp hs
    simp [Sql.Expr.apply] at hs
  | binary op left right =>
    obtain ⟨l, -, hs⟩ := bind_eq_ok.mp hs
    obtain ⟨r, -, hs⟩ := bind_eq_ok.mp hs
    simp at hs

/-- An aggregate of all values is the call that the rules make of its argument. -/
theorem aggregate_plain (f : AggregateFunction) (a : Sql.Expr) :
    t.aggregate e f (some a) false none = t.call e f.ruleName [a] := by
  have harg : t.aggregateArg (some a) none = a := rfl
  rw [aggregate_eq, harg]
  cases t.call e f.ruleName [a] <;> simp [aggregateFilter]

theorem aggregate_eq_column {f : AggregateFunction} {arg condition : Option Sql.Expr}
    {distinct : Bool} {q : Option String} {n : String}
    (h : t.aggregate e f arg distinct condition = .ok (.column q n)) :
    distinct = false ∧ condition = none ∧ t.ReplacesBy f.ruleName 0 ∧
      arg = some (.column q n) := by
  obtain ⟨sql, hsql, hs⟩ := aggregate_eq_ok h
  rcases hs with ⟨rfl, hd, hc⟩ | ⟨_, _, _, _, _, -, hs⟩
  · obtain ⟨i, hi, ha⟩ := call_eq_column hsql
    obtain ⟨rfl, ha⟩ : i = 0 ∧ t.aggregateArg arg condition = .column q n := by
      cases i with
      | zero => simpa using ha
      | succ i => simp at ha
    -- a condition would be in a FILTER clause or in a CASE
    obtain rfl : condition = none := by
      cases condition with
      | none => rfl
      | some c =>
        unfold aggregateFilter at hc
        unfold aggregateArg at ha
        split at hc
        · simp at hc
        · next hn => simp [hn, guarded] at ha
    refine ⟨hd, rfl, hi, ?_⟩
    cases arg with
    | none => simp [aggregateArg] at ha
    | some a => simpa [aggregateArg] using ha
  · simp at hs

end Target

namespace Expr

/-- In SQL an expression is no more than a column: it is a reference, or a call that a rule replaces
by an argument which is no more than that column. -/
inductive Forwards (t : Target) : Expr → ColumnRef → Prop
  | column (ref : ColumnRef) (type : DataType) : Forwards t (.column ref type) ref
  | function {f : ScalarFunction} {args : List Expr} {a : Expr} {ref : ColumnRef} {i : Nat}
      (hr : t.ReplacesBy (f.ruleName args.length) i) (ha : args[i]? = some a)
      (h : Forwards t a ref) : Forwards t (.function f args) ref
  | extract {part : DatePart} {a : Expr} {ref : ColumnRef} (hr : t.ReplacesBy part.ruleName 0)
      (h : Forwards t a ref) : Forwards t (.extract part a) ref
  | toTimestamp {a : Expr} {unit : TimeUnit} {ref : ColumnRef} (hr : t.ReplacesBy unit.ruleName 0)
      (h : Forwards t a ref) : Forwards t (.toTimestamp a unit) ref
  | aggregate {f : AggregateFunction} {a : Expr} {ref : ColumnRef}
      (hr : t.ReplacesBy f.ruleName 0) (h : Forwards t a ref) :
      Forwards t (.aggregate f (some a) false none) ref

variable {t : Target} {scope : Scope}

theorem Forwards.lower {e : Expr} {ref : ColumnRef} (h : e.Forwards t ref) {s : Sql.Expr}
    (hs : e.lower t scope = .ok s) : scope.column ref = .ok s := by
  induction h generalizing s with
  | column ref type => exact lower_eq_ok.mp hs
  | function hr ha _ ih =>
    obtain ⟨as, has, hcall⟩ := lower_eq_ok.mp hs
    obtain ⟨b, hb, hab⟩ := forall₂_getElem? has ha
    obtain rfl : b = s := Option.some.inj (hb.symm.trans (hr.call hcall))
    exact ih hab
  | extract hr _ ih | toTimestamp hr _ ih =>
    obtain ⟨b, hab, hcall⟩ := lower_eq_ok.mp hs
    obtain rfl : b = s := by simpa using hr.call hcall
    exact ih hab
  | aggregate hr _ ih =>
    obtain ⟨b, c, hb, hc, hagg⟩ := lower_eq_ok.mp hs
    obtain rfl : c = none := by simpa using hc
    cases b with
    | none => simp at hb
    | some b =>
      rw [Target.aggregate_plain] at hagg
      obtain rfl : b = s := by simpa using hr.call hagg
      exact ih (by simpa using hb)

/-- Nothing becomes a column but what is no more than one. -/
theorem exists_forwards {e : Expr} {q : Option String} {n : String}
    (h : e.lower t scope = .ok (.column q n)) : ∃ ref, e.Forwards t ref := by
  induction e using induct with
  | step e ih =>
    have hl := lower_eq_ok.mp h
    cases e with
    | column ref type => exact ⟨ref, .column ref type⟩
    | literal v => simpa [Sql.Expr.value] using Target.constant_eq_ok hl
    | function f args =>
      obtain ⟨as, has, hcall⟩ := hl
      obtain ⟨i, hi, hb⟩ := Target.call_eq_column hcall
      obtain ⟨a, ha, hab⟩ := forall₂_getElem? has.flip hb
      obtain ⟨ref, hf⟩ := ih a (List.mem_of_getElem? ha) hab
      exact ⟨ref, .function hi ha hf⟩
    | extract part a =>
      obtain ⟨b, hab, hcall⟩ := hl
      obtain ⟨i, hi, hb⟩ := Target.call_eq_column hcall
      obtain ⟨rfl, rfl⟩ : i = 0 ∧ b = .column q n := by cases i <;> simp_all
      obtain ⟨ref, hf⟩ := ih a (by simp [children]) hab
      exact ⟨ref, .extract hi hf⟩
    | toTimestamp a unit =>
      obtain ⟨b, hab, hcall⟩ := hl
      obtain ⟨i, hi, hb⟩ := Target.call_eq_column hcall
      obtain ⟨rfl, rfl⟩ : i = 0 ∧ b = .column q n := by cases i <;> simp_all
      obtain ⟨ref, hf⟩ := ih a (by simp [children]) hab
      exact ⟨ref, .toTimestamp hi hf⟩
    | aggregate f arg distinct filter =>
      obtain ⟨b, c, hb, hc, hagg⟩ := hl
      obtain ⟨rfl, rfl, hi, rfl⟩ := Target.aggregate_eq_column hagg
      obtain rfl : filter = none := by simpa using hc
      obtain ⟨a, rfl, hab⟩ : ∃ a, arg = some a ∧ a.lower t scope = .ok (.column q n) := by
        cases arg <;> simp_all
      obtain ⟨ref, hf⟩ := ih a (by simp [children]) hab
      exact ⟨ref, .aggregate hi hf⟩
    | unary op operand =>
      obtain ⟨_, -, hs⟩ := hl
      simp at hs
    | binary op left right =>
      obtain ⟨l, r, -, -, hs⟩ := hl
      unfold Target.binary at hs
      split at hs
      · obtain ⟨_, -, hs⟩ := bind_eq_ok.mp hs
        simp at hs
      · simp at hs
    | inList operand values negated =>
      cases values with
      | nil => simp [LowersTo] at hl
      | cons v vs =>
        obtain ⟨_, _, -, -, hs⟩ := hl
        simp at hs
    | isNull operand negated =>
      obtain ⟨_, -, hs⟩ := hl
      simp at hs
    | cast operand target =>
      obtain ⟨_, _, -, -, hs⟩ := hl
      simp at hs
    | case branches otherwise =>
      obtain ⟨_, _, -, -, hs⟩ := hl
      simp at hs
    | window f args partitionBy orderBy =>
      obtain ⟨as, call, ps, ks, -, -, -, -, -, h⟩ := hl
      obtain ⟨_, _, _, _, _, -, hs⟩ := Target.attach_eq_ok h
      simp at hs

end Expr

end PlanSql
