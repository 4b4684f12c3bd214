import Mathlib.Algebra.BigOperators.Group.Multiset.Basic
import PlanSql.Proofs.Semantics.Induced

/-!
# Filtered aggregates

An aggregate with a condition has two forms: a FILTER clause, which selects rows, and a CASE, which
has no value in the other rows. Since an aggregate is a function of the values that are there, both
forms are worth the same. A count of rows has no argument to be absent; its CASE yields ones, so
that it counts the rows for which the condition is true.
-/
namespace PlanSql

variable {V ρ : Type} [DecidableEq V]

namespace Domain

variable {D : Domain V}

theorem collect_ones (hone : D.one ≠ D.null) (rows : Multiset ρ) :
    D.collect false (rows.map fun _ => D.one) = Multiset.replicate rows.card D.one := by
  have hkeep : ∀ v ∈ Multiset.replicate rows.card D.one, v ≠ D.null := by
    intro v hv
    rwa [Multiset.eq_of_mem_replicate hv]
  simp only [collect, Bool.false_eq_true, if_false, Multiset.map_const']
  exact Multiset.filter_eq_self.mpr hkeep

end Domain

namespace Target

/-- Under the rules of the library an aggregate that the dialect has is a call of its name. -/
theorem aggregate_of_not_lacking {d : Dialect} {f : AggregateFunction}
    (hf : d.lacksAggregate f = false) (e : Expr) (arg : Option Sql.Expr) (distinct : Bool)
    (condition : Option Sql.Expr) :
    (builtin d).aggregate e f arg distinct condition = .ok (.call f.sqlName
      [(builtin d).aggregateArg arg condition] distinct ((builtin d).aggregateFilter condition)
      none) := by
  rw [aggregate_eq, call_aggregate hf, ok_bind]
  by_cases hc : (distinct || ((builtin d).aggregateFilter condition).isSome) = true
  · rw [if_pos hc]
    rfl
  · rw [if_neg hc]
    simp only [Bool.or_eq_true, not_or, Bool.not_eq_true, Option.isSome_eq_false_iff,
      Option.isNone_iff_eq_none] at hc
    rw [hc.1, hc.2]
    rfl

/-- Only dialects that have all aggregates do without a FILTER clause. -/
theorem lacksAggregate_of_no_filter {d : Dialect} (hd : d.descriptor.supportsFilterClause = false)
    (f : AggregateFunction) : d.lacksAggregate f = false := by
  cases d <;> simp_all [Dialect.lacksAggregate, Dialect.descriptor]

end Target

namespace Sql.Expr

variable {M : Meaning V} {look : Reference → ρ → V} {frame : Multiset (Focus ρ)} {x : Focus ρ}
  {name : String} {a : Option Sql.Expr} {p : Sql.Expr} {distinct : Bool}

/-- The rows for which a condition is true. -/
def keptRows (M : Meaning V) (look : Reference → ρ → V) (frame : Multiset (Focus ρ))
    (p : Sql.Expr) (rows : Multiset ρ) : Multiset ρ :=
  rows.filter fun row => M.truth (p.eval M look frame (.single row)) = some true

/-- The values that a filtered aggregate is about: those that the argument has in the rows for which
the condition is true, each once if the aggregate is distinct. Rows themselves count as ones. -/
def keptValues (M : Meaning V) (look : Reference → ρ → V) (frame : Multiset (Focus ρ))
    (a : Option Sql.Expr) (distinct : Bool) (p : Sql.Expr) (rows : Multiset ρ) : Multiset V :=
  M.collect distinct
    ((keptRows M look frame p rows).map fun row => evalOr M look frame M.one a (.single row))

theorem keptRows_eq (p : Sql.Expr) (rows : Multiset ρ) : keptRows M look frame p rows =
    rows.filter fun row => M.holds (p.eval M look frame (.single row)) :=
  Multiset.filter_congr fun row _ => by simp [Domain.holds]

/-- With a FILTER clause an aggregate is about the rows for which the condition is true. -/
theorem eval_filter_clause (hn : name ∈ aggregateNames) :
    (call name [a.getD .star] distinct (some p) none).eval M look frame x =
      M.sql.aggregate name (keptValues M look frame a distinct p x.group) := by
  have harg : ∀ row, (a.getD .star).eval M look frame (.single row) =
      evalOr M look frame M.one a (.single row) := by
    intro row
    cases a <;> rfl
  rw [keptValues, keptRows_eq, eval, if_pos (List.contains_iff_mem.mpr hn)]
  simp only [evalOr, evalAll, List.headD_cons, harg]
  congr

/-- With a CASE for its argument an aggregate is about the same rows: in the others there is no
value. -/
theorem eval_guarded_argument (hn : name ∈ aggregateNames) :
    (call name [Target.guarded a p] distinct none none).eval M look frame x =
      M.sql.aggregate name (keptValues M look frame a distinct p x.group) := by
  have htrue : M.holds (M.bool true) = true := by simp [Domain.holds, M.truth_bool]
  have harg : ∀ row, (Target.guarded a p).eval M look frame (.single row) =
      if M.holds (p.eval M look frame (.single row)) then
        evalOr M look frame M.one a (.single row) else M.null := by
    intro row
    cases a <;> rfl
  rw [keptValues, keptRows_eq, eval, if_pos (List.contains_iff_mem.mpr hn)]
  simp only [evalOr, evalAll, List.headD_cons, harg, htrue, Multiset.filter_true]
  rw [PlanSql.Expr.collect_guarded]

/-- What is evaluated alike in all rows gives an aggregate the same values. -/
theorem keptValues_congr {N : Meaning V} {look' : Reference → ρ → V} {frame' : Multiset (Focus ρ)}
    {a' : Option Sql.Expr} {p' : Sql.Expr} {rows : Multiset ρ} (hD : M.toDomain = N.toDomain)
    (ha : ∀ row ∈ rows, evalOr M look frame M.one a (.single row) =
      evalOr N look' frame' N.one a' (.single row))
    (hp : ∀ row ∈ rows, p.eval M look frame (.single row) = p'.eval N look' frame' (.single row)) :
    keptValues M look frame a distinct p rows = keptValues N look' frame' a' distinct p' rows := by
  have hrows : keptRows M look frame p rows = keptRows N look' frame' p' rows :=
    Multiset.filter_congr fun row hrow => by rw [hp row hrow, hD]
  rw [hD] at ha
  unfold keptValues
  rw [hD, hrows]
  refine congrArg _ (Multiset.map_congr rfl fun row hrow => ?_)
  exact ha row (Multiset.mem_filter.mp hrow).1

end Sql.Expr

namespace Expr

variable {M : Meaning V} {S : Sql.Operations V} {d₁ d₂ : Dialect} {scope₁ scope₂ : Scope}
  {f : AggregateFunction} {arg : Option Expr} {distinct : Bool} {condition : Expr}
  {a₁ a₂ : Option Sql.Expr} {p₁ p₂ : Sql.Expr} {look₁ look₂ : Sql.Expr.Reference → ρ → V}
  {frame₁ frame₂ : Multiset (Focus ρ)} {x : Focus ρ}

theorem lower_filtered {d : Dialect} {scope : Scope} {a : Option Sql.Expr} {p : Sql.Expr}
    (hf : d.lacksAggregate f = false) (ha : lowerOption (.builtin d) scope arg = .ok a)
    (hp : condition.lower (.builtin d) scope = .ok p) :
    (aggregate f arg distinct (some condition)).lower (.builtin d) scope = .ok (.call f.sqlName
      [(Target.builtin d).aggregateArg a (some p)] distinct
      ((Target.builtin d).aggregateFilter (some p)) none) := by
  simp only [lower, ha, lowerOption, hp, ok_bind, pure_eq_ok]
  exact Target.aggregate_of_not_lacking hf _ _ _ _

/-- An aggregate with a condition, over any group: with a FILTER clause in the one dialect and with
a CASE in the other it is worth the same, namely what the aggregate makes of the values that the
argument has where the condition is true. Only the argument and the condition have to be worth the
same in both. A count of rows is the number of rows for which the condition is true. -/
theorem eval_filtered_aggregate (hm : (aggregate f arg distinct (some condition)).Made)
    (hd₁ : d₁.descriptor.supportsFilterClause = true)
    (hd₂ : d₂.descriptor.supportsFilterClause = false) (hf : d₁.lacksAggregate f = false)
    (ha₁ : lowerOption (.builtin d₁) scope₁ arg = .ok a₁)
    (hp₁ : condition.lower (.builtin d₁) scope₁ = .ok p₁)
    (ha₂ : lowerOption (.builtin d₂) scope₂ arg = .ok a₂)
    (hp₂ : condition.lower (.builtin d₂) scope₂ = .ok p₂)
    (hS : S.aggregate = M.sql.aggregate)
    (ha : ∀ row ∈ x.group, Sql.Expr.evalOr M look₁ frame₁ M.one a₁ (.single row) =
      Sql.Expr.evalOr { M with sql := S } look₂ frame₂ M.one a₂ (.single row))
    (hp : ∀ row ∈ x.group, p₁.eval M look₁ frame₁ (.single row) =
      p₂.eval { M with sql := S } look₂ frame₂ (.single row)) :
    ∃ s₁ s₂, (aggregate f arg distinct (some condition)).lower (.builtin d₁) scope₁ = .ok s₁ ∧
      (aggregate f arg distinct (some condition)).lower (.builtin d₂) scope₂ = .ok s₂ ∧
      s₁ = .call f.sqlName [a₁.getD .star] distinct (some p₁) none ∧
      s₂ = .call f.sqlName [.case [(p₂, a₂.getD (.int 1))] none] distinct none none ∧
      s₁.eval M look₁ frame₁ x =
        M.sql.aggregate f.sqlName
          (Sql.Expr.keptValues M look₁ frame₁ a₁ distinct p₁ x.group) ∧
      s₂.eval { M with sql := S } look₂ frame₂ x = s₁.eval M look₁ frame₁ x ∧
      (arg = none → M.one ≠ M.null →
        (∀ vs, M.sql.aggregate "COUNT" vs = M.constant (.int vs.card)) →
        s₁.eval M look₁ frame₁ x =
          M.constant (.int (Sql.Expr.keptRows M look₁ frame₁ p₁ x.group).card)) := by
  have hl₁ : (aggregate f arg distinct (some condition)).lower (.builtin d₁) scope₁ = _ :=
    lower_filtered hf ha₁ hp₁
  have hl₂ : (aggregate f arg distinct (some condition)).lower (.builtin d₂) scope₂ = _ :=
    lower_filtered (Target.lacksAggregate_of_no_filter hd₂ f) ha₂ hp₂
  have harg₁ : (Target.builtin d₁).aggregateArg a₁ (some p₁) = a₁.getD .star :=
    if_pos hd₁
  have hfilter₁ : (Target.builtin d₁).aggregateFilter (some p₁) = some p₁ := if_pos hd₁
  have harg₂ : (Target.builtin d₂).aggregateArg a₂ (some p₂) = Target.guarded a₂ p₂ :=
    if_neg (Bool.eq_false_iff.mp hd₂)
  have hfilter₂ : (Target.builtin d₂).aggregateFilter (some p₂) = none :=
    if_neg (Bool.eq_false_iff.mp hd₂)
  rw [harg₁, hfilter₁] at hl₁
  rw [harg₂, hfilter₂] at hl₂
  have hv₁ : (Sql.Expr.call f.sqlName [a₁.getD .star] distinct (some p₁) none).eval M look₁ frame₁
      x = _ := Sql.Expr.eval_filter_clause f.sqlName_mem
  have hv₂ : (Sql.Expr.call f.sqlName [Target.guarded a₂ p₂] distinct none none).eval
      { M with sql := S } look₂ frame₂ x = _ := Sql.Expr.eval_guarded_argument f.sqlName_mem
  have hsame : Sql.Expr.keptValues M look₁ frame₁ a₁ distinct p₁ x.group =
      Sql.Expr.keptValues { M with sql := S } look₂ frame₂ a₂ distinct p₂ x.group :=
    Sql.Expr.keptValues_congr rfl ha hp
  refine ⟨_, _, hl₁, hl₂, rfl, rfl, hv₁, ?_, ?_⟩
  · rw [hv₂, hv₁, hsame]
    exact congrFun (congrFun hS _) _
  · rintro rfl hone hcount
    obtain ⟨rfl, rfl⟩ := hm.formed.1 rfl
    obtain rfl : none = a₁ := by simpa [lowerOption] using ha₁
    rw [hv₁]
    simp only [Sql.Expr.keptValues, Sql.Expr.evalOr, M.toDomain.collect_ones hone]
    rw [show AggregateFunction.count.sqlName = "COUNT" from rfl, hcount, Multiset.card_replicate]

/-- SQL that counts values and adds up integers, exactly. -/
def exactSums : Meaning Value :=
  .ofSql .constants { Sql.Operations.comparing with
    aggregate := fun name vs =>
      if name = "COUNT" then .int vs.card
      else if name = "SUM" ∧ vs ≠ 0 then .int (vs.map fun v => match v with
        | .int i => i
        | _ => 0).sum
      else .null } .postgres

/-- Whether a purchase is paid, which may be unknown, and its amount, which may be absent. -/
def purchases : Multiset (Value × Value) :=
  {(.bool true, .int 3), (.bool true, .int 3), (.bool true, .int 7), (.bool true, .null),
    (.null, .int 5), (.bool false, .int 9)}

def purchaseColumn (ref : Sql.Expr.Reference) (row : Value × Value) : Value :=
  if ref.2 = "paid" then row.1 else row.2

/-- The different amounts that are paid, added up, and the number of paid purchases. -/
def paidTotals : List Expr := [
  .aggregate .sum (some (.column ⟨none, "amount"⟩ .int64)) true
    (some (.column ⟨none, "paid"⟩ .bool)),
  .aggregate .count none false (some (.column ⟨none, "paid"⟩ .bool))]

/-- Repeated, absent and unknown values among purchases. -/
theorem paidTotals_forms : ∃ s₁ s₂ r₁ r₂,
    paidTotals.map (lower (.builtin .postgres) .bare) = [.ok s₁, .ok r₁] ∧
    paidTotals.map (lower (.builtin .mysql) .bare) = [.ok s₂, .ok r₂] ∧
    s₁.eval exactSums purchaseColumn 0 ⟨(.null, .null), purchases⟩ = .int 10 ∧
    s₂.eval exactSums purchaseColumn 0 ⟨(.null, .null), purchases⟩ = .int 10 ∧
    r₁.eval exactSums purchaseColumn 0 ⟨(.null, .null), purchases⟩ = .int 4 ∧
    r₂.eval exactSums purchaseColumn 0 ⟨(.null, .null), purchases⟩ = .int 4 := by
  have hsum : applyAggregate .sum (.column ⟨none, "amount"⟩ .int64) true = .ok _ := rfl
  have hsumFilter : withFilter (.aggregate .sum (some (.column ⟨none, "amount"⟩ .int64)) true none)
      (.column ⟨none, "paid"⟩ .bool) = .ok _ := rfl
  have hcountFilter : withFilter countStar (.column ⟨none, "paid"⟩ .bool) = .ok _ := rfl
  obtain ⟨s₁, s₂, hs₁, hs₂, -, -, hsv, hse, -⟩ := @eval_filtered_aggregate _ _ _ exactSums
    exactSums.sql .postgres .mysql .bare .bare _ _ _ _ _ _ _ _ purchaseColumn purchaseColumn 0 0
    ⟨(.null, .null), purchases⟩ (.withFilter (.aggregate (.column _ _) hsum) (.column _ _) hsumFilter)
    rfl rfl rfl rfl rfl rfl rfl rfl (fun _ _ => rfl) (fun _ _ => rfl)
  obtain ⟨r₁, r₂, hr₁, hr₂, -, -, -, hre, hrv⟩ := @eval_filtered_aggregate _ _ _ exactSums
    exactSums.sql .postgres .mysql .bare .bare _ _ _ _ _ _ _ _ purchaseColumn purchaseColumn 0 0
    ⟨(.null, .null), purchases⟩ (.withFilter .countStar (.column _ _) hcountFilter)
    rfl rfl rfl rfl rfl rfl rfl rfl (fun _ _ => rfl) (fun _ _ => rfl)
  have hten : s₁.eval exactSums purchaseColumn 0 ⟨(.null, .null), purchases⟩ = .int 10 :=
    hsv.trans (by decide)
  have hfour : r₁.eval exactSums purchaseColumn 0 ⟨(.null, .null), purchases⟩ = .int 4 :=
    (hrv rfl (by decide) fun _ => rfl).trans (by decide)
  exact ⟨s₁, s₂, r₁, r₂, by simp [paidTotals, hs₁, hr₁], by simp [paidTotals, hs₂, hr₂], hten,
    hse.trans hten, hfour, hre.trans hfour⟩

end Expr

end PlanSql
