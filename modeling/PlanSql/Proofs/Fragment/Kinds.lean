import PlanSql.Proofs.Expr.Typing
import PlanSql.Proofs.Fragment.Lowering
import PlanSql.Proofs.Sql.Kinds

/-!
# The types of expressions and of their SQL

An expression has a type, and so has the SQL it becomes in a database. In the dialects where
integers are divided without a fraction the two agree on what is an integer, by induction on the
expression, but for two kinds of expressions: a quotient of integers that is always absent, and
numbers rounded by means of casts. What is combined with a fraction is one, whatever else is in it.
-/
namespace PlanSql

open Sql (Kind)

namespace DataType

/-- The types of numbers with a fraction. -/
def isFractional (t : DataType) : Bool := t.isFloating || t.isDecimal

theorem isNumber_iff (t : DataType) : t.isNumber = true ↔
    t.isInteger = true ∨ t.isFractional = true ∨ t.isNull = true := by
  simp only [isNumber, isNumeric, isFractional, Bool.or_eq_true]
  tauto

end DataType

/-- How many arguments, from the first on, a result takes its type from. -/
def ScalarFunction.carries : ScalarFunction → Nat → Nat
  | .abs, _ | .ceil, _ | .floor, _ | .round, _ => 1
  | .lower, _ | .upper, _ | .length, _ | .substr, _ => 0
  | .coalesce, n => n

def AggregateFunction.carries : AggregateFunction → Nat
  | .sum | .min | .max => 1
  | .count | .mean | .stdDev | .variance => 0

def WindowFunction.carries : WindowFunction → Nat
  | .rowNumber | .rank | .denseRank => 0
  | .lag | .lead => 1
  | .aggregate f => f.carries

namespace Sql.Kind

/-- SQL is an integer only if the expression is one, or a truth value. -/
def Fits (k : Kind) (t : DataType) : Prop :=
  (k = .integer → t.isInteger = true ∨ t = .bool) ∧
    (k = .absent → t = .null ∨ t.isInteger = true)

instance (k : Kind) (t : DataType) : Decidable (k.Fits t) := inferInstanceAs (Decidable (_ ∧ _))

theorem fits_other (t : DataType) : Fits .other t := ⟨nofun, nofun⟩

theorem joinAll_eq_other {ks : List Kind} (h : .other ∈ ks) : joinAll ks = .other := by
  have absorbed : ∀ ks : List Kind, ks.foldl join .other = .other := fun ks => by
    induction ks with
    | nil => rfl
    | cons k rest ih => rwa [List.foldl_cons, other_join]
  obtain ⟨before, after, rfl⟩ := List.append_of_mem h
  rw [joinAll, List.foldl_append, List.foldl_cons, join_other, absorbed]

theorem fits_of_isInteger {t : DataType} (k : Kind) (h : t.isInteger = true) : k.Fits t :=
  ⟨fun _ => .inl h, fun _ => .inr h⟩

theorem fits_ofTruth (d : Dialect) : (ofTruth d).Fits .bool := by
  unfold ofTruth
  split <;> decide

/-- The types of what may be an integer in SQL. -/
def plainTypes : List DataType := [.bool, .int8, .int16, .int32, .int64, .null]

theorem Fits.mem_plainTypes {k : Kind} {t : DataType} (h : k.Fits t) (hk : k ≠ .other) :
    t ∈ plainTypes := by
  have hint : t.isInteger = true → t ∈ plainTypes := by
    cases t <;> simp [DataType.isInteger, plainTypes]
  cases k with
  | integer => exact (h.1 rfl).elim hint (by rintro rfl; decide)
  | absent => exact (h.2 rfl).elim (by rintro rfl; decide) hint
  | other => exact absurd rfl hk

theorem fits_join_plain : ∀ s ∈ plainTypes, ∀ t ∈ plainTypes, ∀ j ∈ all, ∀ k ∈ all,
    j.Fits s → k.Fits t → ∀ u ∈ s.commonType t, (j.join k).Fits u := by
  decide

theorem Fits.join {j k : Kind} {s t u : DataType} (hj : j.Fits s) (hk : k.Fits t)
    (h : s.commonType t = some u) : (j.join k).Fits u := by
  by_cases hjo : j = .other
  · simpa [hjo] using fits_other u
  by_cases hko : k = .other
  · simpa [hko] using fits_other u
  exact fits_join_plain s (hj.mem_plainTypes hjo) t (hk.mem_plainTypes hko) j j.mem_all k k.mem_all
    hj hk u h

theorem join_eq_ok {context : String} {s t u : DataType} :
    s.join context t = .ok u ↔ s.commonType t = some u := by
  unfold DataType.join
  split <;> simp_all

theorem fits_foldl {context : String} {ks : List Kind} {ts : List DataType}
    (h : List.Forall₂ Fits ks ts) {k : Kind} {s t : DataType} (hk : k.Fits s)
    (ht : ts.foldlM (DataType.join context) s = .ok t) : (ks.foldl Kind.join k).Fits t := by
  induction h generalizing k s with
  | nil =>
    obtain rfl : s = t := by simpa using ht
    exact hk
  | cons hf _ ih =>
    rw [List.foldlM_cons] at ht
    obtain ⟨u, hu, ht⟩ := bind_eq_ok.mp ht
    exact ih (hk.join hf (join_eq_ok.mp hu)) ht

/-- A number with a fraction is no integer in SQL either. -/
theorem Fits.eq_other {k : Kind} {t : DataType} (h : k.Fits t) (ht : t.isFractional = true) :
    k = .other := by
  have hplain : ∀ u ∈ plainTypes, u.isFractional = false := by decide
  by_contra hk
  simp [hplain t (h.mem_plainTypes hk)] at ht

theorem Fits.isInteger {k : Kind} {t : DataType} (h : k.Fits t) (hk : k = .integer)
    (hn : t.isNumber = true) : t.isInteger = true := by
  refine (h.1 hk).resolve_right ?_
  rintro rfl
  simp [DataType.isNumber, DataType.isNumeric, DataType.isInteger, DataType.isFloating,
    DataType.isDecimal, DataType.isNull] at hn

/-- Rounding to an integer keeps the type of a number that is not floating, where it is not made of
casts. -/
theorem Fits.rounded {j k : Kind} {t : DataType} (hk : k.Fits t)
    (h : t.isInteger = true ∨ t.isFloating = true ∨ j = k) :
    j.Fits (if t.isFloating then .int64 else t) := by
  split
  · exact fits_of_isInteger j rfl
  · next hf =>
    rcases h with hi | hf' | rfl
    · exact fits_of_isInteger j hi
    · exact absurd hf' hf
    · exact hk

/-- Rounding to a number of digits keeps the type of a number. -/
theorem Fits.roundedTo {j k : Kind} {t : DataType} (hk : k.Fits t) (h : j = k ∨ j = .other) :
    j.Fits (if t.isFloating then .float64 else t) := by
  rcases h with rfl | rfl
  · split
    · next hf =>
      obtain rfl : j = .other := by
        cases t with
        | float32 | float64 => exact hk.eq_other rfl
        | _ => simp [DataType.isFloating] at hf
      exact fits_other _
    · exact hk
  · exact fits_other _

/-- An aggregate has a type in SQL that fits the type of the aggregate. -/
theorem Fits.aggregate {f : AggregateFunction} {k : Kind} {t u : DataType}
    (hk : f.carries = 1 → k.Fits t) (h : f.resultType t = .ok u) :
    (ofCall f.sqlName [k]).Fits u := by
  cases f with
  | count =>
    obtain rfl : _ = u := by simpa [AggregateFunction.resultType] using h
    exact fits_of_isInteger _ rfl
  | mean | stdDev | variance => exact fits_other u
  | min | max =>
    by_cases ht : t = .binary
    · simp [AggregateFunction.resultType, ht] at h
    · obtain rfl : t = u := by simpa [AggregateFunction.resultType, ht] using h
      exact hk rfl
  | sum =>
    replace hk := hk rfl
    change k.Fits u
    cases t with
    | decimal | float32 | float64 =>
      obtain rfl := hk.eq_other rfl
      exact fits_other u
    | int8 | int16 | int32 | int64 | null =>
      obtain rfl : _ = u := by
        simpa [AggregateFunction.resultType, DataType.isInteger, DataType.isNull] using h
      exact fits_of_isInteger _ rfl
    | _ =>
      simp [AggregateFunction.resultType, DataType.isInteger, DataType.isNull,
        DataType.isFloating] at h

theorem Fits.window {f : WindowFunction} {ks : List Kind} {ts : List DataType} {t : DataType}
    (hlen : ks.length = ts.length)
    (hk : List.Forall₂ Fits (ks.take f.carries) (ts.take f.carries)) (h : f.rootType ts = .ok t) :
    (ofCall f.sqlName ks).Fits t := by
  unfold WindowFunction.rootType at h
  split at h
  · obtain rfl : _ = t := by simpa using h
    exact fits_of_isInteger _ rfl
  · obtain rfl : _ = t := by simpa using h
    exact fits_of_isInteger _ rfl
  · obtain rfl : _ = t := by simpa using h
    exact fits_of_isInteger _ rfl
  · next u =>
    obtain rfl : u = t := by simpa using h
    obtain ⟨k, j, rfl⟩ := List.length_eq_two.mp hlen
    have hfirst : k.Fits u := by simpa [WindowFunction.carries] using hk
    exact hfirst
  · next u =>
    obtain rfl : u = t := by simpa using h
    obtain ⟨k, j, rfl⟩ := List.length_eq_two.mp hlen
    have hfirst : k.Fits u := by simpa [WindowFunction.carries] using hk
    exact hfirst
  · obtain rfl := AggregateFunction.rootType_none h
    exact fits_of_isInteger _ rfl
  · next f u =>
    obtain ⟨k, rfl⟩ := List.length_eq_one_iff.mp hlen
    refine Fits.aggregate (fun hc => ?_) h
    simpa [WindowFunction.carries, hc] using hk
  · simp at h

theorem castTypeName_not_integer : ∀ d ∈ Dialect.all, ∀ t ∈ DataType.plainNames.map (·.2),
    t.isInteger = false ∧ t ≠ .bool → ∀ name ∈ d.castTypeName? t, name ∉ integerTypes := by
  decide

/-- The target of a cast is an integer type in SQL only for integers and truth values. -/
theorem fits_castTypeName {d : Dialect} {t : DataType} {name : String}
    (h : d.castTypeName? t = some name) : (ofTypeName name).Fits t := by
  by_cases ht : t.isInteger = false ∧ t ≠ .bool
  · have hname : name ∉ integerTypes := by
      cases t with
      | decimal p s =>
        have hopen : '(' ∈ name.toList := by
          obtain rfl : _ = name := by
            simpa [Dialect.castTypeName?, Dialect.columnTypeName?, DataType.isInteger] using h
          simp
        have hall : ∀ n ∈ integerTypes, '(' ∉ n.toList := by decide
        exact fun hmem => hall name hmem hopen
      | _ => exact castTypeName_not_integer d d.mem_all _ (by decide) ht name h
    rw [ofTypeName, if_neg (by simpa using hname)]
    exact fits_other t
  · cases hi : t.isInteger with
    | true => exact fits_of_isInteger _ hi
    | false =>
      obtain rfl : t = .bool := by_contra fun hb => ht ⟨hi, hb⟩
      unfold ofTypeName
      split <;> decide

end Sql.Kind

open Sql.Kind (Fits fits_other fits_of_isInteger fits_ofTruth)

namespace RuleTable

theorem valueKind_of_isRenamed {table : RuleTable} {function name : String} {d : Dialect}
    {T : Template} {ks : List Kind} (h : table.isRenamed function d name = true)
    (hT : table.resolve function d = .ok (.template T)) : T.valueKind d ks = .ofCall name ks := by
  unfold isRenamed at h
  split at h
  · next n hn =>
    obtain rfl : n = name := by simpa using h
    obtain rfl : _ = T := by simpa [hn] using hT
    simp [Template.valueKind, Template.kinds]
  · simp at h

/-- The dialects in which a quotient of integers has no fraction. -/
def truncating : List Dialect := [.postgres, .flink, .sqlite]

theorem mem_truncating {d : Dialect} (h : d.descriptor.integerDivisionTruncates = true) :
    d ∈ truncating := by
  cases d <;> simp_all [Dialect.descriptor, truncating]

/-- Whether the SQL of a call has one of the given types, whatever it is applied to. -/
def givesKind (table : RuleTable) (function : String) (d : Dialect) (ks results : List Kind) :
    Bool :=
  match table.resolve function d with
  | .ok (.template T) => results.contains (T.valueKind d ks)
  | _ => false

theorem valueKind_of_givesKind {table : RuleTable} {function : String} {d : Dialect} {T : Template}
    {ks results : List Kind} (h : table.givesKind function d ks results = true)
    (hT : table.resolve function d = .ok (.template T)) : T.valueKind d ks ∈ results := by
  simpa [givesKind, hT] using h

theorem isRenamed_scalar : ∀ d ∈ truncating, ∀ f ∈ [("abs", "ABS"), ("lower", "LOWER"),
    ("upper", "UPPER"), ("coalesce", "COALESCE")], builtin.isRenamed f.1 d f.2 = true := by
  decide +kernel

theorem givesKind_rounding : ∀ d ∈ truncating, d ≠ .sqlite → ∀ f ∈ [.ceil, .floor],
    ∀ k ∈ Kind.all, builtin.givesKind (ScalarFunction.ruleName f 1) d [k] [k] = true := by
  decide +kernel

theorem isRenamed_substr : ∀ d ∈ truncating, builtin.isRenamed "substr" d "SUBSTR" = true ∨
    builtin.isRenamed "substr" d "SUBSTRING" = true := by
  decide +kernel

theorem givesKind_roundDigits : ∀ d ∈ truncating, ∀ k ∈ Kind.all, ∀ j ∈ Kind.all,
    builtin.givesKind "round_digits" d [k, j] [k, .other] = true := by
  decide +kernel

theorem givesKind_toTimestamp : ∀ d ∈ truncating, ∀ u ∈ TimeUnit.all, ∀ k ∈ Kind.all,
    builtin.givesKind u.ruleName d [k] [.other] = true := by
  decide +kernel

end RuleTable

/-- A function of one row has a type in SQL that fits the type of the function, unless numbers that
are neither integers nor floating are rounded by casts. -/
theorem fits_function {d : Dialect} (hd : d ∈ RuleTable.truncating) {f : ScalarFunction}
    {ks : List Kind} {ts : List DataType} {t : DataType} {T : Template}
    (hlen : ks.length = ts.length)
    (hk : List.Forall₂ Fits (ks.take (f.carries ts.length)) (ts.take (f.carries ts.length)))
    (ht : f.resultType ts = .ok t)
    (hT : RuleTable.builtin.resolve (f.ruleName ts.length) d = .ok (.template T))
    (hr : d = .sqlite → f = .ceil ∨ f = .floor →
      ∀ s ∈ ts, s.isInteger = true ∨ s.isFloating = true) : (T.valueKind d ks).Fits t := by
  obtain _ | ⟨s, rest⟩ := ts
  · simp [ScalarFunction.resultType] at ht
  obtain _ | ⟨k, krest⟩ := ks
  · simp at hlen
  have hrest : krest.length = rest.length := by simpa using hlen
  have hfirst : f.carries (s :: rest).length = 1 → k.Fits s := fun hc => by
    rw [hc] at hk
    simpa using hk
  have renamed : ∀ {function name : String}, f.ruleName (s :: rest).length = function →
      RuleTable.builtin.isRenamed function d name = true →
      T.valueKind d (k :: krest) = .ofCall name (k :: krest) := by
    rintro _ name rfl h
    exact RuleTable.valueKind_of_isRenamed h hT
  cases f with
  | abs =>
    obtain ⟨⟨⟩, -, ht⟩ := bind_eq_ok.mp ht
    obtain ⟨-, rfl⟩ : rest = [] ∧ s = t := by
      split at ht <;> simp_all
    rw [renamed rfl (RuleTable.isRenamed_scalar d hd ("abs", "ABS") (by simp))]
    exact hfirst rfl
  | ceil | floor =>
    obtain ⟨⟨⟩, -, ht⟩ := bind_eq_ok.mp ht
    obtain ⟨rfl, rfl⟩ : rest = [] ∧ (if s.isFloating then .int64 else s) = t := by
      split at ht <;> simp_all
    obtain rfl := List.length_eq_zero_iff.mp hrest
    refine (hfirst rfl).rounded ?_
    by_cases hq : d = .sqlite
    · exact (hr hq (by simp) s List.mem_cons_self).imp_right .inl
    · have hkind := RuleTable.valueKind_of_givesKind
        (RuleTable.givesKind_rounding d hd hq _ (by simp) k k.mem_all) hT
      exact .inr (.inr (by simpa using hkind))
  | round =>
    obtain ⟨⟨⟩, -, ht⟩ := bind_eq_ok.mp ht
    obtain _ | ⟨digits, _ | _⟩ := rest
    · obtain rfl : _ = t := by simpa using ht
      exact fits_of_isInteger _ rfl
    · obtain ⟨j, rfl⟩ := List.length_eq_one_iff.mp hrest
      obtain ⟨⟨⟩, -, ht⟩ := bind_eq_ok.mp ht
      obtain rfl : _ = t := by simpa using ht
      have hkind := RuleTable.valueKind_of_givesKind
        (RuleTable.givesKind_roundDigits d hd k k.mem_all j j.mem_all) hT
      exact (hfirst rfl).roundedTo (by simpa using hkind)
    · simp at ht
  | lower =>
    rw [renamed rfl (RuleTable.isRenamed_scalar d hd ("lower", "LOWER") (by simp))]
    exact fits_other _
  | upper =>
    rw [renamed rfl (RuleTable.isRenamed_scalar d hd ("upper", "UPPER") (by simp))]
    exact fits_other _
  | length =>
    unfold ScalarFunction.resultType at ht
    obtain ⟨-, ht⟩ := guard_eq_ok.mp ht
    obtain ⟨⟨⟩, -, ht⟩ := bind_eq_ok.mp ht
    obtain rfl : _ = t := by simpa using ht
    exact fits_of_isInteger _ rfl
  | substr =>
    rcases RuleTable.isRenamed_substr d hd with h | h
    · rw [renamed rfl h]
      exact fits_other _
    · rw [renamed rfl h]
      exact fits_other _
  | coalesce =>
    rw [renamed rfl (RuleTable.isRenamed_scalar d hd ("coalesce", "COALESCE") (by simp))]
    rw [ScalarFunction.carries, List.take_of_length_le (Nat.le_of_eq hlen), List.take_length] at hk
    exact Sql.Kind.fits_foldl hk (by decide : Fits .absent .null) ht

namespace BinaryOp

variable {op : BinaryOp} {l r t : DataType}

theorem isNumber_of_resultType (ha : op.isArithmetic = true) (h : op.resultType l r = .ok t) :
    l.isNumber = true ∧ r.isNumber = true := by
  simp only [resultType, ha, if_true, bind_eq_ok] at h
  obtain ⟨⟨⟩, hl, ⟨⟩, hr, -⟩ := h
  exact ⟨expect_eq_ok.mp hl, expect_eq_ok.mp hr⟩

theorem commonType_of_resultType (ha : op.isArithmetic = true) (hd : op ≠ .div)
    (h : op.resultType l r = .ok t) : l.commonType r = some t := by
  simp only [resultType, ha, if_true, bind_eq_ok] at h
  obtain ⟨-, -, -, -, h⟩ := h
  cases op with
  | div => exact absurd rfl hd
  | mod =>
    simp only [bind_eq_ok] at h
    obtain ⟨-, -, -, -, h⟩ := h
    exact Sql.Kind.join_eq_ok.mp h
  | add | sub | mul => exact Sql.Kind.join_eq_ok.mp h
  | _ => simp [isArithmetic] at ha

theorem eq_bool_of_resultType (ha : op.isArithmetic = false) (h : op.resultType l r = .ok t) :
    t = .bool := by
  simp only [resultType, ha, Bool.false_eq_true, if_false] at h
  split at h
  · obtain ⟨⟨⟩, -, h⟩ := bind_eq_ok.mp h
    exact (Except.ok.inj h).symm
  · split at h
    all_goals
      obtain ⟨⟨⟩, -, h⟩ := bind_eq_ok.mp h
      obtain ⟨⟨⟩, -, h⟩ := bind_eq_ok.mp h
      exact (Except.ok.inj h).symm

end BinaryOp

/-- A quotient is not of integers in SQL if an operand is a number with a fraction. -/
theorem join_eq_other {j k : Kind} {s t : DataType} (hj : j.Fits s) (hk : k.Fits t)
    (h : s.isFractional = true ∨ t.isFractional = true) : j.join k = .other := by
  rcases h with h | h
  · simp [hj.eq_other h]
  · simp [hk.eq_other h]

/-- A choice between results has a type in SQL that fits their common type. -/
theorem fits_case {ks : List Kind} {k : Kind} {branches : List (DataType × DataType)}
    {otherwise : Option DataType} {t : DataType}
    (hks : List.Forall₂ Fits ks (branches.map (·.2)))
    (hk : match otherwise with
      | none => k = .absent
      | some u => k.Fits u)
    (h : caseType branches otherwise = .ok t) : ((Sql.Kind.joinAll ks).join k).Fits t := by
  rw [caseType_eq (conditions_of_caseType h), List.foldlM_append] at h
  obtain ⟨common, hc, h⟩ := bind_eq_ok.mp h
  have hall : (Sql.Kind.joinAll ks).Fits common :=
    Sql.Kind.fits_foldl hks (by decide : Fits .absent .null) hc
  cases otherwise with
  | none =>
    obtain rfl : common = t := by simpa using h
    simpa [hk] using hall
  | some u =>
    simp only [Option.toList, List.foldlM_cons, List.foldlM_nil, bind_pure] at h
    exact hall.join hk (Sql.Kind.join_eq_ok.mp h)

/-- Whether a quotient truncates is told from the types of the operands, wherever the types of their
SQL fit. -/
theorem not_truncates {d : Dialect} (hd : d ∈ RuleTable.truncating) {l r : DataType}
    (h : (Target.builtin d).truncates .div l r = false) :
    ¬ (l.isInteger = true ∧ r.isInteger = true) := by
  have hdiv : ∀ d ∈ RuleTable.truncating, d.descriptor.integerDivisionTruncates = true := by decide
  rintro ⟨hl, hr⟩
  have htrue : (Target.builtin d).truncates .div l r = true := by
    simp [Target.truncates, Target.descriptor, Target.builtin, hdiv d hd, hl, hr]
  simp [htrue] at h

theorem ofTypeName_double {t : Target} {e : Expr} {name : String}
    (h : t.castType e .float64 = .ok name) : Sql.Kind.ofTypeName name = .other :=
  (Sql.Kind.fits_castTypeName (Target.castType_eq_ok h)).eq_other rfl

/-- The SQL of an arithmetic operation has the type that its operands have together, or is a quotient
made a number with a fraction. -/
theorem valueKind_arithmetic {d : Dialect} (column : Sql.Expr.Reference → Kind) {e : Expr}
    {op : BinaryOp} {lt rt : DataType} {l r s : Sql.Expr} (ha : op.isArithmetic = true)
    (h : (Target.builtin d).binary e op lt rt l r = .ok s) :
    s.valueKind d column = .other ∨ (Target.builtin d).truncates op lt rt = false ∧
      s.valueKind d column = (l.valueKind d column).join (r.valueKind d column) := by
  have hop : ∀ l r : Kind, op.sql.valueKind d l r = l.join r := fun l r => by
    cases op with
    | add | sub | mul | div | mod => rfl
    | _ => simp [BinaryOp.isArithmetic] at ha
  unfold Target.binary at h
  split at h
  · obtain ⟨double, hdouble, h⟩ := bind_eq_ok.mp h
    obtain rfl : _ = s := by simpa using h
    left
    rw [Sql.Expr.valueKind, Sql.Expr.valueKind, ofTypeName_double hdouble, hop, Sql.Kind.other_join]
  · next htr =>
    obtain rfl : _ = s := by simpa using h
    exact .inr ⟨by simpa using htr, by rw [Sql.Expr.valueKind, hop]⟩

/-- A binary operation has a type in SQL that fits the type of the operation; a quotient is none of
integers, unless it is always absent. -/
theorem fits_binary {d : Dialect} (hd : d ∈ RuleTable.truncating)
    {column : Sql.Expr.Reference → Kind} {e : Expr} {op : BinaryOp} {lt rt t : DataType}
    {l r s : Sql.Expr} (h : (Target.builtin d).binary e op lt rt l r = .ok s)
    (hl : op.isArithmetic = true → (l.valueKind d column).Fits lt)
    (hr : op.isArithmetic = true → (r.valueKind d column).Fits rt)
    (ht : op.resultType lt rt = .ok t)
    (hnull : op = .div → lt.isNull = true ∨ rt.isNull = true →
      lt.isFractional = true ∨ rt.isFractional = true) : (s.valueKind d column).Fits t := by
  cases ha : op.isArithmetic with
  | true =>
    obtain hs | ⟨htr, hs⟩ := valueKind_arithmetic column ha h
    · rw [hs]
      exact fits_other t
    rw [hs]
    by_cases hop : op = .div
    · subst hop
      have hint := not_truncates hd htr
      obtain ⟨hln, hrn⟩ := BinaryOp.isNumber_of_resultType rfl ht
      have hfraction : lt.isFractional = true ∨ rt.isFractional = true := by
        by_cases hn : lt.isNull = true ∨ rt.isNull = true
        · exact hnull rfl hn
        · rw [not_or] at hn
          rw [DataType.isNumber_iff] at hln hrn
          tauto
      rw [join_eq_other (hl rfl) (hr rfl) hfraction]
      exact fits_other t
    · exact (hl ha).join (hr ha) (BinaryOp.commonType_of_resultType ha hop ht)
  | false =>
    have hop : op ≠ .div := by
      rintro rfl
      simp [BinaryOp.isArithmetic] at ha
    obtain rfl : Sql.Expr.binary op.sql l r = s := by
      simpa [Target.binary, Target.truncates, hop] using h
    rw [BinaryOp.eq_bool_of_resultType ha ht]
    cases op with
    | add | sub | mul | div | mod => simp [BinaryOp.isArithmetic] at ha
    | _ => exact fits_ofTruth d

/-- The CASE of a filtered aggregate has the type of the argument. -/
theorem Target.valueKind_aggregateArg (t : Target) {d : Dialect}
    {column : Sql.Expr.Reference → Kind} (a : Sql.Expr) (c : Option Sql.Expr) :
    (t.aggregateArg (some a) c).valueKind d column = a.valueKind d column := by
  cases c with
  | none => rfl
  | some c =>
    by_cases hs : t.descriptor.supportsFilterClause = true
    · simp [aggregateArg, hs]
    · simp [aggregateArg, hs, guarded, Sql.Expr.valueKind, Sql.Expr.resultKinds, Sql.Expr.kindOr,
        Sql.Kind.joinAll]

namespace Expr

/-- The operands of which the result has the common type. -/
def joined : Expr → List Expr
  | .binary op left right => if op.isArithmetic then [left, right] else []
  | .function .coalesce args => args
  | .case branches otherwise => branches.map (·.2) ++ otherwise.toList
  | _ => []

/-- The operands that the type of the SQL comes from. -/
def carriers : Expr → List Expr
  | .unary .neg operand => [operand]
  | .function f args => args.take (f.carries args.length)
  | .aggregate f arg _ _ => arg.toList.take f.carries
  | .window f args _ _ => args.take f.carries
  | e => e.joined

theorem mem_children_of_mem_joined {e c : Expr} (h : c ∈ e.joined) : c ∈ e.children := by
  cases e with
  | binary op left right =>
    simp only [joined] at h
    split at h
    · exact h
    · simp at h
  | function f args => cases f <;> simp_all [joined, children]
  | case branches otherwise =>
    simp only [joined, List.mem_append, List.mem_map] at h
    simp only [children, List.mem_append, List.mem_flatMap]
    refine h.imp_left ?_
    rintro ⟨b, hb, rfl⟩
    exact ⟨b, hb, by simp⟩
  | _ => simp [joined] at h

theorem mem_children_of_mem_carriers {e c : Expr} (h : c ∈ e.carriers) : c ∈ e.children := by
  cases e with
  | unary op operand => cases op <;> simp_all [carriers, joined, children]
  | function f args => exact List.mem_of_mem_take h
  | aggregate f arg distinct filter => exact List.mem_append_left _ (List.mem_of_mem_take h)
  | window f args ps ks =>
    simp only [children, List.append_assoc]
    exact List.mem_append_left _ (List.mem_of_mem_take h)
  | _ => exact mem_children_of_mem_joined h

/-- The SQL may be an integer although the expression is none: a number that is neither an integer
nor floating, rounded by casts, or a quotient of integers that is always absent. -/
def hidesInteger (d : Dialect) : Expr → Bool
  | .function f args => d = .sqlite && (f = .ceil || f = .floor) &&
    args.any fun a => !a.dataType.isInteger && !a.dataType.isFloating
  | .binary .div left right => (left.dataType.isNull || right.dataType.isNull) &&
    !left.dataType.isFractional && !right.dataType.isFractional
  | _ => false

variable {d : Dialect} {scope : Scope} {column : Sql.Expr.Reference → Kind}

/-- What is asked of an expression for the type of its SQL to fit, unless it is an integer: its
columns stand for SQL that fits, and either it is combined with a fraction or neither it nor what it
has its type from hides an integer. -/
inductive KeepsKind (d : Dialect) (scope : Scope) (column : Sql.Expr.Reference → Kind) : Expr → Prop
  | integer {e : Expr} (h : e.dataType.isInteger = true) : KeepsKind d scope column e
  | column {ref : ColumnRef} {t : DataType}
      (h : ∀ c, scope.column ref = .ok c → (c.valueKind d column).Fits t) :
      KeepsKind d scope column (.column ref t)
  | fraction {e c : Expr} (hc : c ∈ e.joined) (hf : c.dataType.isFractional = true)
      (h : KeepsKind d scope column c) : KeepsKind d scope column e
  | carriers {e : Expr} (hn : e.column? = none) (he : e.hidesInteger d = false)
      (h : ∀ c ∈ e.carriers, KeepsKind d scope column c) : KeepsKind d scope column e

theorem Made.rootType {e : Expr} (h : e.Made) : e.rootType = .ok e.dataType := by
  obtain ⟨⟨t, ht⟩, -⟩ := h.computes
  exact rootType_eq_dataType ht

/-- What is combined with SQL that is no integer is none either. -/
theorem valueKind_of_joined {e c : Expr} {s : Sql.Expr} (hd : d ∈ RuleTable.truncating)
    (h : e.lower (Target.builtin d) scope = .ok s) (hc : c ∈ e.joined)
    (ho : ∀ s, c.lower (Target.builtin d) scope = .ok s → s.valueKind d column = .other) :
    s.valueKind d column = .other := by
  have h := lower_eq_ok.mp h
  cases e with
  | binary op left right =>
    obtain ⟨l, r, hl, hr, h⟩ := h
    cases ha : op.isArithmetic with
    | false => simp [joined, ha] at hc
    | true =>
      obtain hs | ⟨-, hs⟩ := valueKind_arithmetic column ha h
      · exact hs
      · rw [hs]
        obtain rfl | rfl : c = left ∨ c = right := by simpa [joined, ha] using hc
        · rw [ho l hl, Sql.Kind.other_join]
        · rw [ho r hr, Sql.Kind.join_other]
  | function f args =>
    obtain ⟨as, has, h⟩ := h
    obtain ⟨T, hT, hs⟩ := Target.call_eq_ok.mp h
    obtain rfl : f = .coalesce := by_contra fun hf => by cases f <;> simp_all [joined]
    obtain ⟨a, ha, hca⟩ := forall₂_mem_left has hc
    rw [Template.valueKind_expand hs, RuleTable.valueKind_of_isRenamed
      (RuleTable.isRenamed_scalar d hd ("coalesce", "COALESCE") (by simp)) hT]
    exact Sql.Kind.joinAll_eq_other (List.mem_map.mpr ⟨a, ha, ho a hca⟩)
  | case branches otherwise =>
    obtain ⟨bs, o, hbs, hor, rfl⟩ := h
    rw [Sql.Expr.valueKind, Sql.Expr.resultKinds_eq]
    rcases List.mem_append.mp hc with hc | hc
    · obtain ⟨b, hb, rfl⟩ := List.mem_map.mp hc
      obtain ⟨a, ha, -, hba⟩ := forall₂_mem_left hbs hb
      rw [Sql.Kind.joinAll_eq_other (List.mem_map.mpr ⟨a, ha, ho a.2 hba⟩), Sql.Kind.other_join]
    · obtain ⟨a, ha, hca⟩ := forall₂_mem_left hor hc
      obtain rfl := Option.mem_toList.mp ha
      rw [Sql.Expr.kindOr, ho a hca, Sql.Kind.join_other]
  | _ => simp [joined] at hc

/-- The type of the SQL of an expression fits the type of the expression if that is so of what the
type comes from, and no integer is hidden. -/
theorem fits_of_carriers {e : Expr} {s : Sql.Expr} (hd : d ∈ RuleTable.truncating) (hm : e.Made)
    (h : e.lower (Target.builtin d) scope = .ok s) (hn : e.column? = none)
    (he : e.hidesInteger d = false)
    (below : ∀ c ∈ e.carriers, ∀ s, c.lower (Target.builtin d) scope = .ok s →
      (s.valueKind d column).Fits c.dataType) : (s.valueKind d column).Fits e.dataType := by
  have belowAll : ∀ (es : List Expr) {ss : List Sql.Expr}, (∀ c ∈ es, c ∈ e.carriers) →
      List.Forall₂ (fun e s => e.lower (Target.builtin d) scope = .ok s) es ss →
      List.Forall₂ Fits (ss.map (Sql.Expr.valueKind d column)) (es.map dataType) := by
    intro es ss hes hf
    rw [List.forall₂_map_left_iff, List.forall₂_map_right_iff]
    exact (((List.forall₂_and_left es ss).mpr ⟨hes, hf⟩).imp fun c s hcs =>
      below c hcs.1 s hcs.2).flip
  have ht := hm.rootType
  have h := lower_eq_ok.mp h
  cases e with
  | column ref type => simp [column?] at hn
  | literal v =>
    obtain rfl := Target.constant_eq_ok h
    cases v with
    | null => exact (by decide : Fits .absent .null)
    | int i => exact fits_of_isInteger _ rfl
    | bool b => exact fits_ofTruth d
    | _ => exact fits_other _
  | unary op operand =>
    obtain ⟨a, ha, rfl⟩ := h
    cases op with
    | not =>
      obtain ⟨⟨⟩, -, ht⟩ := PlanSql.bind_eq_ok.mp ht
      rw [← Except.ok.inj ht]
      exact fits_ofTruth d
    | neg =>
      obtain ⟨⟨⟩, -, ht⟩ := PlanSql.bind_eq_ok.mp ht
      rw [← Except.ok.inj ht]
      exact below operand (by simp [carriers]) a ha
  | isNull operand negated =>
    obtain ⟨a, ha, rfl⟩ := h
    exact fits_ofTruth d
  | binary op left right =>
    obtain ⟨l, r, hl, hr, h⟩ := h
    refine fits_binary hd h (fun ha => below left (by simp [carriers, joined, ha]) l hl)
      (fun ha => below right (by simp [carriers, joined, ha]) r hr) ht ?_
    rintro rfl hnull
    simp only [hidesInteger, Bool.and_eq_false_iff, Bool.or_eq_false_iff,
      Bool.not_eq_false'] at he
    grind
  | function f args =>
    obtain ⟨as, has, h⟩ := h
    obtain ⟨T, hT, hs⟩ := Target.call_eq_ok.mp h
    have hlen : args.length = as.length := has.length_eq
    have hcarried := belowAll (args.take (f.carries args.length)) (fun c hc => hc)
      (List.forall₂_take _ has)
    rw [Template.valueKind_expand hs]
    refine fits_function hd (by simp [hlen]) (by simpa using hcarried) ht ?_ fun hq hf => ?_
    · rw [List.length_map]
      exact hT
    · have hround : (decide (f = .ceil) || decide (f = .floor)) = true := by simpa using hf
      simp only [hidesInteger, hq, hround, decide_true, Bool.true_and, List.any_eq_false,
        Bool.and_eq_true, Bool.not_eq_true', not_and, Bool.not_eq_false] at he
      rintro _ hmem
      obtain ⟨a, ha, rfl⟩ := List.mem_map.mp hmem
      exact or_iff_not_imp_left.mpr fun hi => he a ha (by simpa using hi)
  | extract part operand =>
    obtain ⟨a, ha, h⟩ := h
    exact fits_of_isInteger _ rfl
  | toTimestamp operand unit =>
    obtain ⟨a, ha, h⟩ := h
    obtain ⟨T, hT, hs⟩ := Target.call_eq_ok.mp h
    have hother := RuleTable.valueKind_of_givesKind (RuleTable.givesKind_toTimestamp d hd unit
      (by cases unit <;> decide) (a.valueKind d column) (Sql.Kind.mem_all _)) hT
    rw [Template.valueKind_expand hs, List.map_singleton, List.mem_singleton.mp hother]
    exact fits_other _
  | inList operand values negated =>
    cases values with
    | nil =>
      obtain rfl := h
      exact fits_ofTruth d
    | cons v vs =>
      obtain ⟨a, cs, -, -, rfl⟩ := h
      exact fits_ofTruth d
  | cast operand target =>
    obtain ⟨a, name, ha, hn, rfl⟩ := h
    exact Sql.Kind.fits_castTypeName (Target.castType_eq_ok hn)
  | case branches otherwise =>
    obtain ⟨bs, o, hbs, ho, rfl⟩ := h
    have hresults : List.Forall₂ (fun e s => e.lower (Target.builtin d) scope = .ok s)
        (branches.map (·.2)) (bs.map (·.2)) := by
      rw [List.forall₂_map_left_iff, List.forall₂_map_right_iff]
      exact hbs.imp fun _ _ hb => hb.2
    have hks := belowAll (branches.map (·.2)) (fun c hc => List.mem_append_left _ hc) hresults
    rw [Sql.Expr.valueKind, Sql.Expr.resultKinds_eq]
    refine fits_case (by simpa [Function.comp_def] using hks) ?_ ht
    cases otherwise with
    | none =>
      obtain rfl : o = none := by simpa using ho
      rfl
    | some x =>
      cases o with
      | none => simp at ho
      | some y => exact below x (by simp [carriers, joined]) y (by simpa using ho)
  | aggregate f arg distinct filter =>
    obtain ⟨a, c, ha, hc, h⟩ := h
    obtain rfl := Target.aggregate_builtin rfl h
    cases arg with
    | none =>
      rw [AggregateFunction.rootType_none ht]
      exact fits_of_isInteger _ rfl
    | some x =>
      cases a with
      | none => simp at ha
      | some y =>
        rw [Sql.Expr.valueKind, Sql.Expr.kindAll_eq, List.map_singleton,
          Target.valueKind_aggregateArg]
        refine Fits.aggregate (fun hf => ?_) ht
        exact below x (by simp [carriers, hf]) y (by simpa using ha)
  | window f args ps' ks' =>
    obtain ⟨as, call, ps, ks, -, has, hcall, -, -, hattach⟩ := h
    obtain rfl := Target.call_window rfl hcall
    obtain rfl : _ = s := by simpa [Target.attach, Sql.Expr.apply] using hattach
    rw [Sql.Expr.valueKind, Sql.Expr.kindAll_eq]
    by_cases hstar : f = .aggregate .count
    · subst hstar
      have hcount : (Expr.window (.aggregate .count) args ps' ks').dataType = .int64 := by
        cases args <;> rfl
      rw [hcount]
      exact fits_of_isInteger _ rfl
    · have hargs : Target.windowArgs f as = as := by simp [Target.windowArgs, hstar]
      have hcarried := belowAll (args.take f.carries) (fun c hc => hc) (List.forall₂_take _ has)
      rw [hargs]
      exact Fits.window (by simpa using has.length_eq.symm) (by simpa using hcarried) ht

/-- The type of the SQL of an expression fits the type of the expression. -/
theorem fits_lower (hd : d ∈ RuleTable.truncating) {e : Expr} {s : Sql.Expr} (hm : e.Made)
    (h : e.lower (Target.builtin d) scope = .ok s) (hk : KeepsKind d scope column e) :
    (s.valueKind d column).Fits e.dataType := by
  induction hk generalizing s with
  | integer hi => exact fits_of_isInteger _ hi
  | column hc => exact hc s (lower_eq_ok.mp h)
  | fraction hc hf _ ih =>
    have ho : s.valueKind d column = .other := valueKind_of_joined hd h hc fun s' hs' =>
      (ih (hm.child (mem_children_of_mem_joined hc)) hs').eq_other hf
    rw [ho]
    exact fits_other _
  | carriers hn he _ ih =>
    exact fits_of_carriers hd hm h hn he fun c hc s' hs' =>
      ih c hc (hm.child (mem_children_of_mem_carriers hc)) hs'

end Expr

end PlanSql
