import PlanSql.Proofs.Rule.Expansion

/-!
# The rules that come with the library

The rules for functions of one row expand for every call that expressions make and never call an
aggregate. Aggregates and window functions are renamed and nothing else, except that one dialect has
neither a sample standard deviation nor a sample variance.
-/
namespace PlanSql

/-- A dialect with the rules that come with the library. -/
def Target.builtin (d : Dialect) : Target := ⟨d, .builtin⟩

/-- The name of an aggregate in all dialects. -/
def AggregateFunction.sqlName : AggregateFunction → String
  | .count => "COUNT"
  | .sum => "SUM"
  | .mean => "AVG"
  | .min => "MIN"
  | .max => "MAX"
  | .stdDev => "STDDEV_SAMP"
  | .variance => "VAR_SAMP"

/-- The name of a window function in all dialects. -/
def WindowFunction.sqlName : WindowFunction → String
  | .rowNumber => "ROW_NUMBER"
  | .rank => "RANK"
  | .denseRank => "DENSE_RANK"
  | .lag => "LAG"
  | .lead => "LEAD"
  | .aggregate f => f.sqlName

/-- The dialect has no such aggregate, over groups or over windows. -/
def Dialect.lacksAggregate (d : Dialect) (f : AggregateFunction) : Bool :=
  d = .sqlite && (f = .stdDev || f = .variance)

theorem AggregateFunction.sqlName_mem (f : AggregateFunction) :
    f.sqlName ∈ Sql.Expr.aggregateNames := by
  cases f <;> decide

namespace RuleTable

/-- Whether a function has a template that expands with `n` arguments and calls no aggregate. -/
def isPlain (table : RuleTable) (function : String) (d : Dialect) (n : Nat) : Bool :=
  match table.resolve function d with
  | .ok (.template T) =>
    T.fits n && T.callNames.all fun name => !Sql.Expr.aggregateNames.contains name
  | _ => false

/-- Whether a function is written as a call of another name with the same arguments. -/
def isRenamed (table : RuleTable) (function : String) (d : Dialect) (name : String) : Bool :=
  match table.resolve function d with
  | .ok (.template (.call n [.args])) => n = name
  | _ => false

/-- Whether the rule of a function says that it is not supported. -/
def isUnsupported (table : RuleTable) (function : String) (d : Dialect) : Bool :=
  match table.resolve function d with
  | .ok (.unsupported _) => true
  | _ => false

/-- The functions of one row, each with the fewest arguments it is called with. -/
def rowFunctions : List (String × Nat) := [
  ("year", 1), ("quarter", 1), ("month", 1), ("week_of_year", 1), ("day_of_year", 1), ("day", 1),
  ("hour", 1), ("minute", 1), ("second", 1),
  ("to_timestamp_s", 1), ("to_timestamp_ms", 1), ("to_timestamp_us", 1),
  ("abs", 1), ("ceil", 1), ("floor", 1), ("round", 1), ("round_digits", 2), ("lower", 1),
  ("upper", 1), ("length", 1), ("substr", 1), ("coalesce", 1)]

/-- The aggregates. -/
def aggregateFunctions : List AggregateFunction :=
  [.count, .sum, .mean, .min, .max, .stdDev, .variance]

/-- The functions that exist over windows only. -/
def rankingFunctions : List WindowFunction := [.rowNumber, .rank, .denseRank, .lag, .lead]

theorem isPlain_builtin :
    ∀ d ∈ Dialect.all, ∀ c ∈ rowFunctions, builtin.isPlain c.1 d c.2 = true := by
  decide +kernel

theorem isRenamed_aggregate : ∀ d ∈ Dialect.all, ∀ f ∈ aggregateFunctions,
    builtin.isRenamed f.ruleName d f.sqlName = !d.lacksAggregate f ∧
      builtin.isUnsupported f.ruleName d = d.lacksAggregate f := by
  decide +kernel

theorem isRenamed_ranking : ∀ d ∈ Dialect.all, ∀ f ∈ rankingFunctions,
    builtin.isRenamed f.ruleName d f.sqlName = true := by
  decide +kernel

end RuleTable

theorem Dialect.mem_all (d : Dialect) : d ∈ all := by
  cases d <;> decide

namespace Template

mutual

theorem fits_mono {m n : Nat} (h : m ≤ n) : ∀ {T : Template}, T.fits m = true → T.fits n = true
  | .arg index, hT => by
    simp only [fits, decide_eq_true_eq] at hT ⊢
    omega
  | .args, hT => by simp [fits] at hT
  | .int _, _ | .number _, _ | .string _, _ => rfl
  | .call _ items, hT => show itemsFit n items = true from itemsFit_mono h hT
  | .extract _ operand, hT => fits_mono h (T := operand) hT
  | .cast operand _, hT => fits_mono h (T := operand) hT
  | .binary _ left right, hT => by
    simp only [fits, Bool.and_eq_true] at hT ⊢
    exact ⟨fits_mono h hT.1, fits_mono h hT.2⟩

theorem itemsFit_mono {m n : Nat} (h : m ≤ n) : ∀ {items : List Template},
    itemsFit m items = true → itemsFit n items = true
  | [], _ => rfl
  | item :: rest, hT => by
    obtain ⟨hi, hr⟩ := itemsFit_cons.mp hT
    exact itemsFit_cons.mpr ⟨hi.imp_right (fits_mono h), itemsFit_mono h hr⟩

end

end Template

namespace Target

/-- A function of one row has a template that expands with the arguments it is called with. -/
theorem resolve_row (d : Dialect) {function : String} {n m : Nat}
    (hc : (function, n) ∈ RuleTable.rowFunctions) (hm : n ≤ m) :
    ∃ T, RuleTable.builtin.resolve function d = .ok (.template T) ∧ T.fits m = true ∧
      ∀ name ∈ T.callNames, name ∉ Sql.Expr.aggregateNames := by
  have h := RuleTable.isPlain_builtin d d.mem_all _ hc
  unfold RuleTable.isPlain at h
  split at h
  · next T hT =>
    simp only [Bool.and_eq_true, List.all_eq_true, Bool.not_eq_true', List.contains_iff_mem,
      ← Bool.not_eq_true] at h
    exact ⟨T, hT, Template.fits_mono hm h.1, h.2⟩
  · simp at h

/-- A renamed function is a call of its new name with the same arguments. -/
theorem call_of_isRenamed {t : Target} {function name : String} {e : Expr}
    {args : List Sql.Expr} (h : t.rules.isRenamed function t.dialect name = true) :
    t.call e function args = .ok (.apply name args) := by
  unfold RuleTable.isRenamed at h
  unfold call
  split at h
  · next n hn =>
    obtain rfl : n = name := by simpa using h
    simp [hn, Template.expand, Template.expandItems]
  · simp at h

theorem call_aggregate {d : Dialect} {f : AggregateFunction} (hf : d.lacksAggregate f = false)
    (e : Expr) (args : List Sql.Expr) :
    (builtin d).call e f.ruleName args = .ok (.apply f.sqlName args) := by
  have hm : f ∈ RuleTable.aggregateFunctions := by cases f <;> decide
  refine call_of_isRenamed ((RuleTable.isRenamed_aggregate d d.mem_all f hm).1.trans ?_)
  rw [hf]
  rfl

theorem call_lacking {d : Dialect} {f : AggregateFunction} (hf : d.lacksAggregate f = true)
    (e : Expr) (args : List Sql.Expr) :
    ∃ reason, (builtin d).call e f.ruleName args = (builtin d).refuse e (.rule reason) := by
  have hm : f ∈ RuleTable.aggregateFunctions := by cases f <;> decide
  have h := (RuleTable.isRenamed_aggregate d d.mem_all f hm).2.trans hf
  unfold RuleTable.isUnsupported at h
  split at h
  · next reason hr =>
    refine ⟨reason, ?_⟩
    unfold call
    rw [show (builtin d).rules.resolve f.ruleName (builtin d).dialect = _ from hr]
  · simp at h

theorem call_ranking {d : Dialect} {f : WindowFunction} (hf : ∀ g, f ≠ .aggregate g)
    (e : Expr) (args : List Sql.Expr) :
    (builtin d).call e f.ruleName args = .ok (.apply f.sqlName args) := by
  have hm : f ∈ RuleTable.rankingFunctions := by
    cases f with
    | aggregate g => exact absurd rfl (hf g)
    | _ => decide
  exact call_of_isRenamed (RuleTable.isRenamed_ranking d d.mem_all f hm)

/-- A window function that has SQL is a call of its name. -/
theorem call_window {t : Target} (ht : t.rules = .builtin) {f : WindowFunction} {e : Expr}
    {args : List Sql.Expr} {s : Sql.Expr} (h : t.call e f.ruleName args = .ok s) :
    s = .apply f.sqlName args := by
  obtain ⟨d, rules⟩ := t
  obtain rfl : rules = .builtin := ht
  cases f with
  | aggregate g =>
    cases hl : d.lacksAggregate g with
    | false => exact Except.ok.inj (h.symm.trans (call_aggregate hl e args))
    | true =>
      obtain ⟨reason, hr⟩ := call_lacking hl e args
      exact absurd (h.symm.trans hr) (by simp [refuse])
  | _ => exact Except.ok.inj (h.symm.trans (call_ranking (by simp) e args))

end Target

end PlanSql
