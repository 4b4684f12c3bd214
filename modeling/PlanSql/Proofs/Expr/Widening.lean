import Mathlib.Algebra.Order.Field.Basic
import Mathlib.Data.Rat.Cast.Order
import Mathlib.Tactic.FieldSimp
import Mathlib.Tactic.NormNum
import Mathlib.Tactic.Positivity
import Mathlib.Tactic.Ring
import PlanSql.Proofs.Expr.Alternatives

/-!
# What common types hold

Integers and decimals are kept without rounding, and each of these types holds certain rational
numbers. A common type of integers holds what each of them holds. Once a decimal is among the types
the common type has the largest precision and the largest scale of the decimals. Digits after the
point are then never missing, but digits before it may be: precision counts both, so that a larger
scale takes from them, and integers are not counted at all. The common type holds a type exactly
when there is room for its digits before the point.
-/
namespace PlanSql
namespace DataType

/-- Whether numbers of the type are kept without rounding. -/
def isExact (t : DataType) : Bool := t.isInteger || t.isDecimal

/-- The integers that a type stores; a decimal stores the number without its point. -/
def Stores : DataType → ℤ → Prop
  | .int8, n => -2 ^ 7 ≤ n ∧ n < 2 ^ 7
  | .int16, n => -2 ^ 15 ≤ n ∧ n < 2 ^ 15
  | .int32, n => -2 ^ 31 ≤ n ∧ n < 2 ^ 31
  | .int64, n => -2 ^ 63 ≤ n ∧ n < 2 ^ 63
  | .decimal p _, n => |n| < 10 ^ p
  | _, _ => False

/-- The numbers that a type represents. -/
def Holds (t : DataType) (q : ℚ) : Prop := ∃ n : ℤ, t.Stores n ∧ q = n / 10 ^ t.scale

/-- The number of digits in which everything that the type stores can be written. -/
def digits : DataType → Nat
  | .int8 => 3
  | .int16 => 5
  | .int32 => 10
  | .int64 => 19
  | .decimal p _ => p
  | _ => 0

/-- The largest absolute value that the type stores. -/
def magnitude : DataType → Nat
  | .int8 => 2 ^ 7
  | .int16 => 2 ^ 15
  | .int32 => 2 ^ 31
  | .int64 => 2 ^ 63
  | .decimal p _ => 10 ^ p - 1
  | _ => 0

/-- The decimal type `t` has as many digits before the point as `a` has. A type without any digits
holds zero only. -/
def HasRoom (a t : DataType) : Prop := a.digits = 0 ∨ a.digits + t.scale ≤ t.precision + a.scale

theorem isNumeric_of_isExact {t : DataType} (h : t.isExact = true) : t.isNumeric = true := by
  grind [isExact, isNumeric]

theorem isFloating_of_isExact {t : DataType} (h : t.isExact = true) : t.isFloating = false := by
  cases t <;> simp_all [isExact, isInteger, isDecimal, isFloating]

theorem isFloating_or_of_isExact {s t : DataType} (hs : s.isExact = true)
    (ht : t.isExact = true) : (s.isFloating || t.isFloating) = false := by
  rw [isFloating_of_isExact hs, isFloating_of_isExact ht, Bool.or_self]

theorem isExact_promote {s t : DataType} (hs : s.isExact = true) (ht : t.isExact = true) :
    (s.promote t).isExact = true := by
  rw [promote_eq, if_neg (by simp [isFloating_or_of_isExact hs ht])]
  grind [isExact, isDecimal]

/-! What a decimal type has to have. -/

theorem Stores.natAbs_le {t : DataType} {n : ℤ} (h : t.Stores n) : n.natAbs ≤ t.magnitude := by
  cases t with
  | decimal p s =>
    have hn : (n.natAbs : ℤ) < 10 ^ p := by simpa [Stores] using h
    have hn : n.natAbs < 10 ^ p := by exact_mod_cast hn
    exact Nat.le_sub_one_of_lt hn
  | int8 | int16 | int32 | int64 =>
    simp only [Stores, magnitude] at h ⊢
    omega
  | _ => exact h.elim

theorem exists_stores {t : DataType} (h : t.isExact = true) :
    ∃ n : ℤ, t.Stores n ∧ n.natAbs = t.magnitude := by
  cases t with
  | decimal p s =>
    refine ⟨(10 ^ p - 1 : ℕ), ?_, Int.natAbs_natCast _⟩
    have : 0 < 10 ^ p := by positivity
    simp only [Stores, Nat.abs_cast]
    exact_mod_cast Nat.sub_one_lt_of_lt this
  | int8 => exact ⟨-2 ^ 7, by simp [Stores], rfl⟩
  | int16 => exact ⟨-2 ^ 15, by simp [Stores], rfl⟩
  | int32 => exact ⟨-2 ^ 31, by simp [Stores], rfl⟩
  | int64 => exact ⟨-2 ^ 63, by simp [Stores], rfl⟩
  | _ => simp [isExact, isInteger, isDecimal] at h

theorem magnitude_lt (t : DataType) : t.magnitude < 10 ^ t.digits := by
  cases t with
  | decimal p s => exact Nat.sub_one_lt (by simp)
  | _ => decide

theorem le_magnitude {t : DataType} (h : t.digits ≠ 0) : 10 ^ (t.digits - 1) ≤ t.magnitude := by
  cases t with
  | decimal p s =>
    have hp : 10 ^ (p - 1) < 10 ^ p := Nat.pow_lt_pow_right (by decide) (Nat.sub_one_lt h)
    exact Nat.le_sub_one_of_lt hp
  | _ => revert h; decide

/-- A decimal type holds a number with no more digits after the point if its digits go into what is
there without them. -/
theorem holds_decimal_div {p s scale : Nat} (hs : s ≤ scale) (n : ℤ) :
    (decimal p scale).Holds (n / 10 ^ s) ↔ n.natAbs * 10 ^ (scale - s) < 10 ^ p := by
  have hpow : (10 : ℚ) ^ scale = 10 ^ s * 10 ^ (scale - s) := by
    rw [← pow_add, Nat.add_sub_cancel' hs]
  have hstores (m : ℤ) : (decimal p scale).Stores m ↔ m.natAbs < 10 ^ p := by
    rw [Stores, Int.abs_eq_natAbs]
    exact_mod_cast Iff.rfl
  constructor
  · rintro ⟨m, hm, heq⟩
    rw [DataType.scale, hpow, div_eq_div_iff (by positivity) (by positivity)] at heq
    have hm' : (m : ℚ) = n * 10 ^ (scale - s) :=
      mul_right_cancel₀ (pow_ne_zero s (by norm_num : (10 : ℚ) ≠ 0)) (by rw [← heq]; ring)
    obtain rfl : m = n * 10 ^ (scale - s) := by exact_mod_cast hm'
    have hm := (hstores _).mp hm
    rwa [Int.natAbs_mul, Int.natAbs_pow] at hm
  · intro h
    refine ⟨n * 10 ^ (scale - s), (hstores _).mpr ?_, ?_⟩
    · rwa [Int.natAbs_mul, Int.natAbs_pow]
    · rw [DataType.scale, hpow]
      push_cast
      field_simp

/-- A decimal type holds all that a type with no more digits after the point holds, if it has room
for the digits before the point, and only then. -/
theorem holds_decimal_iff {a : DataType} (ha : a.isExact = true) {p scale : Nat}
    (hs : a.scale ≤ scale) :
    (∀ q, a.Holds q → (decimal p scale).Holds q) ↔ a.HasRoom (decimal p scale) := by
  -- the largest number decides
  have hlargest : (∀ q, a.Holds q → (decimal p scale).Holds q) ↔
      a.magnitude * 10 ^ (scale - a.scale) < 10 ^ p := by
    constructor
    · intro h
      obtain ⟨n, hn, habs⟩ := exists_stores ha
      rw [← habs]
      exact (holds_decimal_div hs n).mp (h _ ⟨n, hn, rfl⟩)
    · rintro h q ⟨n, hn, rfl⟩
      exact (holds_decimal_div hs n).mpr
        (lt_of_le_of_lt (Nat.mul_le_mul_right _ hn.natAbs_le) h)
  have hroom : a.HasRoom (decimal p scale) ↔
      a.digits = 0 ∨ a.digits + (scale - a.scale) ≤ p := by
    change (a.digits = 0 ∨ a.digits + scale ≤ p + a.scale) ↔ _
    omega
  rw [hlargest, hroom]
  constructor
  · intro h
    by_contra hno
    obtain ⟨hd, hp⟩ := not_or.mp hno
    have hle : 10 ^ p ≤ 10 ^ (a.digits - 1) * 10 ^ (scale - a.scale) := by
      rw [← pow_add]
      exact Nat.pow_le_pow_right (by decide) (by omega)
    exact absurd h (not_lt.mpr (hle.trans (Nat.mul_le_mul_right _ (le_magnitude hd))))
  · rintro (hd | hp)
    · have hzero : a.magnitude = 0 := by
        have := magnitude_lt a
        rw [hd] at this
        omega
      rw [hzero, Nat.zero_mul]
      positivity
    · calc a.magnitude * 10 ^ (scale - a.scale)
          < 10 ^ a.digits * 10 ^ (scale - a.scale) :=
            Nat.mul_lt_mul_of_pos_right (magnitude_lt a) (by positivity)
        _ = 10 ^ (a.digits + (scale - a.scale)) := (pow_add ..).symm
        _ ≤ 10 ^ p := Nat.pow_le_pow_right (by decide) hp

theorem Stores.of_integerRank_le {a t : DataType} (ha : a.isInteger = true)
    (ht : t.isInteger = true) (h : a.integerRank ≤ t.integerRank) {n : ℤ} (hn : a.Stores n) :
    t.Stores n := by
  cases a <;> simp only [isInteger, Bool.false_eq_true] at ha <;>
    cases t <;> simp only [isInteger, Bool.false_eq_true] at ht <;>
    simp only [integerRank, Stores] at h hn ⊢ <;> omega

/-- A wider integer type holds what a narrower one holds. -/
theorem Holds.of_integerRank_le {a t : DataType} (ha : a.isInteger = true)
    (ht : t.isInteger = true) (h : a.integerRank ≤ t.integerRank) {q : ℚ} (hq : a.Holds q) :
    t.Holds q := by
  obtain ⟨n, hn, rfl⟩ := hq
  refine ⟨n, hn.of_integerRank_le ha ht h, ?_⟩
  rw [scale_eq_zero (isDecimal_of_isInteger ha), scale_eq_zero (isDecimal_of_isInteger ht)]

/-! Common types of integers and decimals. -/

theorem commonType_of_isNumeric {s t : DataType} (hs : s.isNumeric = true)
    (ht : t.isNumeric = true) : s.commonType t = some (s.promote t) := by
  have hnull {u : DataType} (h : u.isNumeric = true) : u.isNull = false := by
    rw [← Bool.not_eq_true, ← widest_eq_null, widest_eq_float64.mpr h]
    decide
  rw [commonType_eq (hnull hs) (hnull ht), widest_eq_float64.mpr hs, widest_eq_float64.mpr ht,
    if_pos rfl, within_of_isNumeric hs]

theorem common_pair (s t : DataType) : common [s, t] = s.commonType t := by
  simp [common]

theorem common_eq_foldl {a : DataType} {ts : List DataType}
    (h : ∀ t ∈ a :: ts, t.isExact = true) : common (a :: ts) = some (ts.foldl promote a) := by
  rw [common, List.foldlM_cons, commonType_null_left]
  change ts.foldlM commonType a = _
  induction ts generalizing a with
  | nil => rfl
  | cons t ts ih =>
    simp only [List.forall_mem_cons] at h
    obtain ⟨ha, ht, hts⟩ := h
    rw [List.foldlM_cons,
      commonType_of_isNumeric (isNumeric_of_isExact ha) (isNumeric_of_isExact ht)]
    exact ih (List.forall_mem_cons.mpr ⟨isExact_promote ha ht, hts⟩)

/-- A measure of types that promotion combines is combined over a list. -/
theorem foldl_promote {β : Type} {P : DataType → Prop} {f : DataType → β} {g : β → β → β}
    (hP : ∀ s t, P s → P t → P (s.promote t))
    (hf : ∀ s t, P s → P t → f (s.promote t) = g (f s) (f t)) {a : DataType} {ts : List DataType}
    (h : ∀ t ∈ a :: ts, P t) :
    P (ts.foldl promote a) ∧ f (ts.foldl promote a) = (ts.map f).foldl g (f a) := by
  induction ts generalizing a with
  | nil => exact ⟨h a List.mem_cons_self, rfl⟩
  | cons t ts ih =>
    simp only [List.forall_mem_cons] at h
    obtain ⟨ha, ht, hts⟩ := h
    rw [List.foldl_cons, List.map_cons, List.foldl_cons, ← hf a t ha ht]
    exact ih (List.forall_mem_cons.mpr ⟨hP a t ha ht, hts⟩)

/-- The type `t` is made of the largest precision and the largest scale of the decimals in `ts`, or
is the widest of the integers, if there is no decimal. -/
structure Merges (ts : List DataType) (t : DataType) : Prop where
  exact : t.isExact = true
  isDecimal : t.isDecimal = ts.any isDecimal
  precision : (ts.map precision).max? = some t.precision
  scale : (ts.map scale).max? = some t.scale
  integerRank : t.isDecimal = false → (ts.map integerRank).max? = some t.integerRank

theorem isDecimal_foldl_promote {a : DataType} {ts : List DataType}
    (h : ∀ t ∈ a :: ts, t.isExact = true) :
    (ts.foldl promote a).isDecimal = (a :: ts).any isDecimal := by
  induction ts generalizing a with
  | nil => simp
  | cons t ts ih =>
    simp only [List.forall_mem_cons] at h
    obtain ⟨ha, ht, hts⟩ := h
    rw [List.foldl_cons, ih (List.forall_mem_cons.mpr ⟨isExact_promote ha ht, hts⟩)]
    simp [isDecimal_promote (isFloating_or_of_isExact ha ht), Bool.or_assoc]

theorem merges_foldl {a : DataType} {ts : List DataType} (h : ∀ t ∈ a :: ts, t.isExact = true) :
    Merges (a :: ts) (ts.foldl promote a) := by
  have hprecision := foldl_promote (P := (isExact · = true)) (fun _ _ => isExact_promote)
    (fun _ _ hs ht => precision_promote (isFloating_or_of_isExact hs ht)) h
  have hscale := foldl_promote (P := (isExact · = true)) (fun _ _ => isExact_promote)
    (fun _ _ hs ht => scale_promote (isFloating_or_of_isExact hs ht)) h
  refine ⟨hprecision.1, isDecimal_foldl_promote h, ?_, ?_, fun hno => ?_⟩
  · rw [List.map_cons, List.max?_cons', hprecision.2]
  · rw [List.map_cons, List.max?_cons', hscale.2]
  · rw [isDecimal_foldl_promote h, List.any_eq_false] at hno
    have hinteger : ∀ t ∈ a :: ts, t.isInteger = true := fun t ht => by
      simpa [isExact, hno t ht] using h t ht
    rw [List.map_cons, List.max?_cons', (foldl_promote (fun _ _ => isInteger_promote)
      (fun _ _ => integerRank_promote) hinteger).2]

/-- A common type holds all that one of the types holds, if no decimal is among them or there is
room for its digits before the point, and only then. -/
theorem Merges.holds_iff {ts : List DataType} {t : DataType} (h : Merges ts t)
    (hts : ∀ a ∈ ts, a.isExact = true) {a : DataType} (ha : a ∈ ts) :
    (∀ q, a.Holds q → t.Holds q) ↔ (t.isDecimal = true → a.HasRoom t) := by
  cases hd : t.isDecimal with
  | true =>
    obtain ⟨p, s, rfl⟩ : ∃ p s, t = decimal p s := by
      cases t <;> simp_all [DataType.isDecimal]
    have hs : a.scale ≤ s := (List.max?_eq_some_iff.mp h.scale).2 _ (List.mem_map_of_mem ha)
    rw [holds_decimal_iff (hts a ha) hs]
    simp
  | false =>
    have hno := List.any_eq_false.mp (h.isDecimal.symm.trans hd)
    have hat : a.isInteger = true := by simpa [isExact, hno a ha] using hts a ha
    have htt : t.isInteger = true := by simpa [isExact, hd] using h.exact
    have hr := (List.max?_eq_some_iff.mp (h.integerRank hd)).2 _ (List.mem_map_of_mem ha)
    exact ⟨fun _ => by simp, fun _ q hq => hq.of_integerRank_le hat htt hr⟩

/-- The type `t` is made from `ts` in the way of `Merges`, and it holds all that one of them holds if
there is no decimal among them or there is room for the digits before the point, and only then. -/
structure Widens (ts : List DataType) (t : DataType) : Prop extends Merges ts t where
  holds_iff : ∀ a ∈ ts, (∀ q, a.Holds q → t.Holds q) ↔ (t.isDecimal = true → a.HasRoom t)

theorem widens_common {ts : List DataType} (hne : ts ≠ []) (h : ∀ t ∈ ts, t.isExact = true) :
    ∃ t, common ts = some t ∧ Widens ts t := by
  obtain ⟨a, rest, rfl⟩ := List.exists_cons_of_ne_nil hne
  have hm := merges_foldl h
  exact ⟨_, common_eq_foldl h, hm, fun b hb => hm.holds_iff h hb⟩

end DataType

namespace Expr

theorem verdict_eq_typed {x : Except PlanError Expr} {t : DataType} (h : verdict x = .typed t) :
    ∃ e, x = .ok e ∧ e.dataType = t := by
  cases x with
  | ok e => exact ⟨e, rfl, Verdict.typed.inj h⟩
  | error err => cases err <;> simp [verdict, Verdict.of] at h

/-- A choice between integers and decimals has a type, to which its alternatives widen. -/
theorem widens_of_verdict {x : Except PlanError Expr} {args : List Expr} (hne : args ≠ [])
    (h : ∀ a ∈ args, a.dataType.isExact = true)
    (hx : verdict x = .ofCommon (DataType.common (args.map dataType))) :
    ∃ e, x = .ok e ∧ DataType.Widens (args.map dataType) e.dataType := by
  obtain ⟨t, ht, hw⟩ := DataType.widens_common (List.map_eq_nil_iff.not.mpr hne)
    (List.forall_mem_map.mpr h)
  obtain ⟨e, he, rfl⟩ := verdict_eq_typed (hx.trans (congrArg Verdict.ofCommon ht))
  exact ⟨e, he, hw⟩

/-- Integers and decimals always have a common type, two by two and as the alternatives of a choice.
It holds what each of them holds, if they are integers. If there is a decimal among them, it holds
what those hold that it has room for, and not all that any other holds. -/
theorem choice_widens (a b : DataType) (branches : List (Expr × Expr)) (otherwise : Option Expr)
    (args : List Expr) :
    (a.isExact = true → b.isExact = true →
      ∃ t, a.commonType b = some t ∧ DataType.Widens [a, b] t) ∧
    (branches ≠ [] → (∀ branch ∈ branches, branch.1.dataType.isCondition = true) →
      (∀ e ∈ alternatives branches otherwise, e.dataType.isExact = true) →
      ∃ e, applyCase branches otherwise = .ok e ∧
        DataType.Widens ((alternatives branches otherwise).map dataType) e.dataType) ∧
    (args ≠ [] → (∀ e ∈ args, e.dataType.isExact = true) →
      ∃ e, applyFunction .coalesce args = .ok e ∧
        DataType.Widens (args.map dataType) e.dataType) := by
  refine ⟨fun ha hb => ?_, fun hne hc h => ?_, fun hne h => ?_⟩
  · obtain ⟨t, ht, hw⟩ := DataType.widens_common (List.cons_ne_nil a [b]) (by simp [ha, hb])
    rw [DataType.common_pair] at ht
    exact ⟨t, ht, hw⟩
  · refine widens_of_verdict ?_ h (verdict_applyCase hne hc)
    simp [alternatives, hne]
  · exact widens_of_verdict hne h (verdict_coalesce hne)

/-- A decimal number and an integer as the results of a choice. -/
theorem choice_widens_price :
    let always := Expr.literal (.bool true)
    let price := Expr.cast (.int 1) (.decimal 10 2)
    (∀ b ∈ [(always, price)], b.1.dataType.isCondition = true) ∧
    (∀ a ∈ alternatives [(always, price)] (some (.int 2)), a.dataType.isExact = true) ∧
    ∃ e, applyCase [(always, price)] (some (.int 2)) = .ok e ∧
      DataType.Widens [.decimal 10 2, .int64] e.dataType := by
  intro always price
  have hc : ∀ b ∈ [(always, price)], b.1.dataType.isCondition = true := by
    simp [always, dataType, Value.dataType, DataType.isCondition]
  have hexact : ∀ a ∈ alternatives [(always, price)] (some (.int 2)),
      a.dataType.isExact = true := by
    simp [alternatives, price, int, dataType, Value.dataType, DataType.isExact, DataType.isDecimal,
      DataType.isInteger]
  have h := choice_widens .int64 price.dataType [(always, price)] (some (.int 2)) [price]
  exact ⟨hc, hexact, h.2.1 (List.cons_ne_nil _ _) hc hexact⟩

/-- The common type of an integer type and a decimal type, and of two decimal types, that does not
hold what one of them holds: large integers go beyond a decimal of ten digits, and if eight of the
ten stand after the point, so does a number with eight digits before it. -/
theorem commonType_not_wide :
    DataType.int64.commonType (.decimal 10 2) = some (.decimal 10 2) ∧
    DataType.int64.Holds (2 ^ 62) ∧ ¬ (DataType.decimal 10 2).Holds (2 ^ 62) ∧
    (DataType.decimal 10 2).commonType (.decimal 10 8) = some (.decimal 10 8) ∧
    (DataType.decimal 10 2).Holds (10 ^ 7) ∧ ¬ (DataType.decimal 10 8).Holds (10 ^ 7) := by
  have hlarge : ¬ (DataType.decimal 10 2).Holds ((2 ^ 62 : ℤ) / 10 ^ 0) := by
    rw [DataType.holds_decimal_div (Nat.zero_le 2)]
    decide
  have hprice : ¬ (DataType.decimal 10 8).Holds ((10 ^ 9 : ℤ) / 10 ^ 2) := by
    rw [DataType.holds_decimal_div (by decide)]
    decide
  refine ⟨rfl, ⟨2 ^ 62, by norm_num [DataType.Stores], by norm_num [DataType.scale]⟩, ?_, rfl,
    ⟨10 ^ 9, by norm_num [DataType.Stores], by norm_num [DataType.scale]⟩, ?_⟩
  · norm_num at hlarge ⊢
    exact hlarge
  · norm_num at hprice ⊢
    exact hprice

end Expr
end PlanSql
