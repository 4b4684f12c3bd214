import Mathlib.Algebra.Order.Floor.Ring
import Mathlib.Algebra.Order.Ring.Rat
import Mathlib.Data.List.TakeWhile
import Mathlib.Data.Rat.Floor
import Mathlib.Tactic.Linarith
import PlanSql.Proofs.Calendar.Weeks
import PlanSql.Proofs.Semantics.Induced
import PlanSql.Proofs.Text.Digits

/-!
# What the rules of SQLite compute

SQLite has no functions for rounding up and down or for quarters and weeks. Its rules make them from
what there is: casts that cut off fractions, comparisons that count as numbers, divisions of
integers that truncate, fields of dates by format letters, and dates moved to a weekday. Where these
do what the manual of SQLite says, the rules compute the ceiling and the floor of a number, and the
quarter and the ISO week of a date.
-/
namespace PlanSql

/-- A number without its fraction. -/
def truncate (q : ℚ) : ℤ := q.num.tdiv q.den

/-- What is taken for granted of SQLite, given which values are numbers and which are dates: the
operations that the rules are made of do as documented. Numbers may be of any size. -/
structure IsSqlite {V : Type} (D : Domain V) (S : Sql.Operations V) (IsNumber : V → ℚ → Prop)
    (IsDay : V → Day → Prop) : Prop where
  cast_number {v : V} {q : ℚ} (h : IsNumber v q) :
    S.cast "INTEGER" v = D.constant (.int (truncate q))
  cast_digits {s : String} (h : ∀ c ∈ s.toList, c.isDigit = true) :
    S.cast "INTEGER" (D.constant (.text s)) = D.constant (.int (Text.digitsValue s.toList))
  greater {v : V} {q : ℚ} (h : IsNumber v q) (n : ℤ) :
    S.binary .gt v (D.constant (.int n)) = D.constant (.int (if (n : ℚ) < q then 1 else 0))
  less {v : V} {q : ℚ} (h : IsNumber v q) (n : ℤ) :
    S.binary .lt v (D.constant (.int n)) = D.constant (.int (if q < n then 1 else 0))
  plus (m n : ℤ) :
    S.binary .plus (D.constant (.int m)) (D.constant (.int n)) = D.constant (.int (m + n))
  minus (m n : ℤ) :
    S.binary .minus (D.constant (.int m)) (D.constant (.int n)) = D.constant (.int (m - n))
  divide (m : ℤ) {n : ℤ} (h : n ≠ 0) :
    S.binary .divide (D.constant (.int m)) (D.constant (.int n)) = D.constant (.int (m.tdiv n))
  month {v : V} {d : Day} (h : IsDay v d) :
    S.call "STRFTIME" [D.constant (.text "%m"), v] =
      D.constant (.text (Text.padded 10 2 d.month))
  dayOfYear {v : V} {d : Day} (h : IsDay v d) :
    S.call "STRFTIME" [D.constant (.text "%j"), v] =
      D.constant (.text (Text.padded 10 3 d.dayOfYear))
  /-- The weekday is searched from three days before the date, that day included. -/
  weekday {v : V} {d : Day} (h : IsDay v d) :
    IsDay (S.call "DATE" [v, D.constant (.text "-3 days"), D.constant (.text "weekday 4")])
      ((Day.previous^[3] d).onOrAfter 4)

/-! Rounding. -/

theorem truncate_of_nonneg {q : ℚ} (h : 0 ≤ q) : truncate q = ⌊q⌋ := by
  rw [truncate, Int.tdiv_eq_ediv_of_nonneg (Rat.num_nonneg.mpr h), Rat.floor_def']

theorem truncate_neg (q : ℚ) : truncate (-q) = -truncate q := by
  rw [truncate, truncate, Rat.num_neg_eq_neg_num, Rat.den_neg_eq_den, Int.neg_tdiv]

theorem truncate_of_nonpos {q : ℚ} (h : q ≤ 0) : truncate q = ⌈q⌉ := by
  rw [← neg_neg q, truncate_neg, truncate_of_nonneg (neg_nonneg.mpr h), Int.ceil_neg]

theorem truncate_add_eq_ceil (q : ℚ) :
    truncate q + (if (truncate q : ℚ) < q then 1 else 0) = ⌈q⌉ := by
  rcases le_total 0 q with h | h
  · have hle := Int.floor_le q
    have hlt := Int.lt_floor_add_one q
    rw [truncate_of_nonneg h, eq_comm, Int.ceil_eq_iff]
    split
    · push_cast
      constructor <;> linarith
    · push_cast
      constructor <;> linarith
  · rw [truncate_of_nonpos h, if_neg (not_lt.mpr (Int.le_ceil q)), add_zero]

theorem truncate_sub_eq_floor (q : ℚ) :
    truncate q - (if q < (truncate q : ℚ) then 1 else 0) = ⌊q⌋ := by
  have hneg := truncate_add_eq_ceil (-q)
  rw [truncate_neg, Int.ceil_neg, Int.cast_neg] at hneg
  simp only [neg_lt_neg_iff] at hneg
  linarith

variable {V : Type}

namespace IsSqlite

variable {D : Domain V} {S : Sql.Operations V} {IsNumber : V → ℚ → Prop} {IsDay : V → Day → Prop}
  (h : IsSqlite D S IsNumber IsDay)

include h

/-- A field of a date as a number, however it is padded. -/
theorem cast_padded (width n : Nat) :
    S.cast "INTEGER" (D.constant (.text (Text.padded 10 width n))) = D.constant (.int n) := by
  rw [h.cast_digits (Text.isDigit_padded width n), Text.digitsValue_padded]

theorem value_ceil {v : V} {q : ℚ} (hv : IsNumber v q) :
    (Template.binary .plus Rule.truncated (.binary .gt (.arg 0) Rule.truncated)).value D S [v] =
      D.constant (.int ⌈q⌉) := by
  change S.binary .plus (S.cast "INTEGER" v) (S.binary .gt v (S.cast "INTEGER" v)) = _
  rw [h.cast_number hv, h.greater hv, h.plus, truncate_add_eq_ceil]

theorem value_floor {v : V} {q : ℚ} (hv : IsNumber v q) :
    (Template.binary .minus Rule.truncated (.binary .lt (.arg 0) Rule.truncated)).value D S [v] =
      D.constant (.int ⌊q⌋) := by
  change S.binary .minus (S.cast "INTEGER" v) (S.binary .lt v (S.cast "INTEGER" v)) = _
  rw [h.cast_number hv, h.less hv, h.minus, truncate_sub_eq_floor]

theorem value_quarter {v : V} {d : Day} (hv : IsDay v d) :
    (Template.binary .divide (.binary .plus (Rule.strftime "%m" (.arg 0)) (.int 2))
      (.int 3)).value D S [v] = D.constant (.int d.quarter) := by
  change S.binary .divide (S.binary .plus
    (S.cast "INTEGER" (S.call "STRFTIME" [D.constant (.text "%m"), v])) (D.constant (.int 2)))
    (D.constant (.int 3)) = _
  rw [h.month hv, h.cast_padded, h.plus, h.divide _ (by decide)]
  have hquarter : ((d.month : ℤ) + 2).tdiv 3 = d.quarter := by
    have := d.isMonth
    rw [Int.tdiv_eq_ediv_of_nonneg (by omega), Day.quarter]
    omega
  rw [hquarter]

theorem value_week {v : V} {d : Day} (hv : IsDay v d) :
    (Template.binary .plus (.binary .divide
      (.binary .minus (Rule.strftime "%j" Rule.isoThursday) (.int 1)) (.int 7))
      (.int 1)).value D S [v] =
      D.constant (.int ((d.thursday.dayOfYear - 1) / 7 + 1 : ℕ)) := by
  change S.binary .plus (S.binary .divide (S.binary .minus
    (S.cast "INTEGER" (S.call "STRFTIME" [D.constant (.text "%j"),
      S.call "DATE" [v, D.constant (.text "-3 days"), D.constant (.text "weekday 4")]]))
    (D.constant (.int 1))) (D.constant (.int 7))) (D.constant (.int 1)) = _
  rw [h.dayOfYear (h.weekday hv), h.cast_padded, h.minus, h.divide _ (by decide), h.plus]
  have hweek : ((d.thursday.dayOfYear : ℤ) - 1).tdiv 7 + 1 =
      ((d.thursday.dayOfYear - 1) / 7 + 1 : ℕ) := by
    have := d.thursday.one_le_dayOfYear
    rw [Int.tdiv_eq_ediv_of_nonneg (by omega)]
    omega
  exact congrArg (D.constant ∘ Value.int) hweek

end IsSqlite

section

variable [DecidableEq V] {M : Meaning V} {IsNumber : V → ℚ → Prop} {IsDay : V → Day → Prop}
  {σ : Type} {look : Sql.Expr.Reference → σ → V} {frame : Multiset (Focus σ)} {x : Focus σ}
  {d : Dialect} {scope : Scope} {e : Expr} {s c : Sql.Expr} {T : Template} {v : V}

/-- A function of one argument is worth what the template of its rule is worth. -/
theorem exists_function_eval {f : ScalarFunction}
    (hs : e.lower (Target.builtin d) scope = .ok s)
    (hT : RuleTable.builtin.resolve (f.ruleName 1) d = .ok (.template T))
    (hc : T.expand [s] = .ok c) (hn : ∀ n ∈ T.callNames, n ∉ Sql.Expr.aggregateNames)
    (hv : T.value M.toDomain M.sql [s.eval M look frame x] = v) :
    ∃ c, (Expr.function f [e]).lower (Target.builtin d) scope = .ok c ∧
      c.eval M look frame x = v :=
  ⟨c, Expr.lower_eq_ok.mpr ⟨[s], .cons hs .nil, Target.call_eq_ok.mpr ⟨T, hT, hc⟩⟩,
    (Template.eval_expand hc hn).trans hv⟩

/-- A field of a date is worth what the template of its rule is worth. -/
theorem exists_extract_eval {part : DatePart} (hs : e.lower (Target.builtin d) scope = .ok s)
    (hT : RuleTable.builtin.resolve part.ruleName d = .ok (.template T))
    (hc : T.expand [s] = .ok c) (hn : ∀ n ∈ T.callNames, n ∉ Sql.Expr.aggregateNames)
    (hv : T.value M.toDomain M.sql [s.eval M look frame x] = v) :
    ∃ c, (Expr.extract part e).lower (Target.builtin d) scope = .ok c ∧
      c.eval M look frame x = v :=
  ⟨c, Expr.lower_eq_ok.mpr ⟨s, hs, Target.call_eq_ok.mpr ⟨T, hT, hc⟩⟩,
    (Template.eval_expand hc hn).trans hv⟩

/-- In SQLite the rules of CEIL and FLOOR compute the ceiling and the floor of any number, and those
of the quarter and the week of the year the quarter and the ISO week of any date. -/
theorem sqlite_computes (h : IsSqlite M.toDomain M.sql IsNumber IsDay)
    (hs : e.lower (Target.builtin .sqlite) scope = .ok s)
    (look : Sql.Expr.Reference → σ → V) (frame : Multiset (Focus σ)) (x : Focus σ) :
    (∀ q, IsNumber (s.eval M look frame x) q →
      (∃ c, (Expr.function .ceil [e]).lower (Target.builtin .sqlite) scope = .ok c ∧
        c.eval M look frame x = M.constant (.int ⌈q⌉)) ∧
      ∃ c, (Expr.function .floor [e]).lower (Target.builtin .sqlite) scope = .ok c ∧
        c.eval M look frame x = M.constant (.int ⌊q⌋)) ∧
    ∀ day, IsDay (s.eval M look frame x) day →
      (∃ c, (Expr.extract .quarter e).lower (Target.builtin .sqlite) scope = .ok c ∧
        c.eval M look frame x = M.constant (.int day.quarter)) ∧
      ∃ year week, day.InWeek year week ∧
        ∃ c, (Expr.extract .weekOfYear e).lower (Target.builtin .sqlite) scope = .ok c ∧
          c.eval M look frame x = M.constant (.int (week : ℕ)) := by
  refine ⟨fun q hq => ⟨?_, ?_⟩, fun day hd => ⟨?_, _, _, day.inWeek_thursday, ?_⟩⟩
  · exact exists_function_eval hs rfl rfl (by decide) (h.value_ceil hq)
  · exact exists_function_eval hs rfl rfl (by decide) (h.value_floor hq)
  · exact exists_extract_eval hs rfl rfl (by decide) (h.value_quarter hd)
  · exact exists_extract_eval hs rfl rfl (by decide) (h.value_week hd)

end

/-! A part of SQLite in which all that is taken for granted holds. -/

/-- Integers, numbers with a fraction, texts and dates. -/
inductive Datum where
  | null
  | integer (n : ℤ)
  | real (q : ℚ)
  | text (s : String)
  | date (d : Day)
  deriving DecidableEq

namespace Datum

def number? : Datum → Option ℚ
  | .integer n => some n
  | .real q => some q
  | _ => none

def date? : Datum → Option Day
  | .date d => some d
  | _ => none

def ofBool (b : Bool) : Datum := .integer (if b then 1 else 0)

/-- A comparison of numbers; other values are not compared here. -/
def compare (holds : ℚ → ℚ → Bool) (v w : Datum) : Datum :=
  match v.number?, w.number? with
  | some p, some q => .ofBool (holds p q)
  | _, _ => .null

/-- An operation on numbers, which gives an integer for two integers. -/
def combine (onIntegers : ℤ → ℤ → Datum) (onNumbers : ℚ → ℚ → ℚ) (v w : Datum) : Datum :=
  match v, w with
  | .integer m, .integer n => onIntegers m n
  | v, w =>
    match v.number?, w.number? with
    | some p, some q => .real (onNumbers p q)
    | _, _ => .null

/-- Truth is a number other than zero; floating-point constants and timestamps are left out. -/
def domain : Domain Datum where
  null := .null
  bool := .ofBool
  truth v := v.number?.map fun q => q ≠ 0
  constant
    | .bool b => .ofBool b
    | .int n => .integer n
    | .text s => .text s
    | .date d => .date d.toDay
    | _ => .null
  equal v w := if v = .null ∨ w = .null then none else some (v = w)
  truth_null := rfl
  truth_bool b := by cases b <;> rfl

/-- The operations that the rules for numbers and dates are made of. -/
def sqlite : Sql.Operations Datum where
  number _ := .null
  minus v := combine (fun m n => .integer (m - n)) (· - ·) (.integer 0) v
  binary op :=
    match op with
    | .plus => combine (fun m n => .integer (m + n)) (· + ·)
    | .minus => combine (fun m n => .integer (m - n)) (· - ·)
    | .divide => combine (fun m n => if n = 0 then .null else .integer (m.tdiv n)) (· / ·)
    | .gt => compare fun p q => q < p
    | .lt => compare fun p q => p < q
    | _ => fun _ _ => .null
  call name args :=
    match name, args with
    | "STRFTIME", [.text "%m", .date d] => .text (Text.padded 10 2 d.month)
    | "STRFTIME", [.text "%j", .date d] => .text (Text.padded 10 3 d.dayOfYear)
    | "DATE", [.date d, .text "-3 days", .text "weekday 4"] =>
      .date ((Day.previous^[3] d).onOrAfter 4)
    | _, _ => .null
  extract _ _ := .null
  cast name v :=
    match name, v with
    | "INTEGER", .integer n => .integer n
    | "INTEGER", .real q => .integer (truncate q)
    | "INTEGER", .text s => .integer (Text.digitsValue (s.toList.takeWhile Char.isDigit))
    | "REAL", v => (v.number?.map real).getD .null
    | _, _ => .null
  aggregate _ _ := .null
  window _ _ _ := .null

theorem truncate_intCast (n : ℤ) : truncate n = n := by
  simp [truncate]

theorem date?_eq_some {v : Datum} {d : Day} (h : v.date? = some d) : v = .date d := by
  cases v <;> simp_all [date?]

theorem compare_integer (holds : ℚ → ℚ → Bool) {v : Datum} {q : ℚ} (h : v.number? = some q)
    (n : ℤ) : compare holds v (.integer n) = ofBool (holds q n) := by
  rw [compare, h]
  rfl

theorem isSqlite : IsSqlite domain sqlite (fun v q => v.number? = some q)
    (fun v d => v.date? = some d) where
  cast_number {v q} h := by
    cases v with
    | integer n =>
      obtain rfl : (n : ℚ) = q := Option.some.inj h
      exact congrArg integer (truncate_intCast n).symm
    | real r =>
      obtain rfl : r = q := Option.some.inj h
      rfl
    | null | text s | date d => simp [number?] at h
  cast_digits h :=
    congrArg (fun ds => integer (Text.digitsValue ds)) (List.takeWhile_eq_self_iff.mpr h)
  greater h n := (compare_integer _ h n).trans (by simp [ofBool, domain])
  less h n := (compare_integer _ h n).trans (by simp [ofBool, domain])
  plus m n := rfl
  minus m n := rfl
  divide m n h := if_neg h
  month h := by rw [date?_eq_some h]; rfl
  dayOfYear h := by rw [date?_eq_some h]; rfl
  weekday h := by rw [date?_eq_some h]; rfl

end Datum

/-- In SQLite −5/2 is rounded to −2 and −3, and New Year of 2021 is in the first quarter and in the
last week of 2020. -/
theorem sqlite_computes_datum :
    let M : Meaning Datum := Meaning.ofSql Datum.domain Datum.sqlite .sqlite
    let look (_ : Sql.Expr.Reference) (row : Datum) := row
    let column := Expr.column ⟨none, "x"⟩ .float64
    let number := Datum.real (-5 / 2)
    let newYear : Day := ⟨2021, 1, 1, by decide, by decide⟩
    (IsSqlite M.toDomain M.sql (fun v q => v.number? = some q) fun v d => v.date? = some d) ∧
    column.lower (Target.builtin .sqlite) .bare = .ok (.column none "x") ∧
    (∃ c, (Expr.function .ceil [column]).lower (Target.builtin .sqlite) .bare = .ok c ∧
      c.eval M look 0 (.single number) = .integer (-2)) ∧
    (∃ c, (Expr.function .floor [column]).lower (Target.builtin .sqlite) .bare = .ok c ∧
      c.eval M look 0 (.single number) = .integer (-3)) ∧
    (∃ c, (Expr.extract .quarter column).lower (Target.builtin .sqlite) .bare = .ok c ∧
      c.eval M look 0 (.single (.date newYear)) = .integer 1) ∧
    ∃ c, (Expr.extract .weekOfYear column).lower (Target.builtin .sqlite) .bare = .ok c ∧
      c.eval M look 0 (.single (.date newYear)) = .integer 53 := by
  intro M look column number newYear
  have hs : column.lower (Target.builtin .sqlite) .bare = .ok (.column none "x") := rfl
  have hM : IsSqlite M.toDomain M.sql (fun v q => v.number? = some q)
      fun v d => v.date? = some d := Datum.isSqlite
  obtain ⟨hceil, hfloor⟩ := (sqlite_computes hM hs look 0 (.single number)).1 _ rfl
  obtain ⟨hquarter, year, week, hin, hweek⟩ :=
    (sqlite_computes hM hs look 0 (.single (.date newYear))).2 newYear rfl
  have hlast : newYear.InWeek 2020 53 := ⟨by decide +kernel, by decide, by decide +kernel⟩
  obtain ⟨-, rfl⟩ := hin.unique hlast
  rw [show ⌈(-5 / 2 : ℚ)⌉ = -2 by decide +kernel] at hceil
  rw [show ⌊(-5 / 2 : ℚ)⌋ = -3 by decide +kernel] at hfloor
  rw [show newYear.quarter = 1 by decide +kernel] at hquarter
  exact ⟨hM, hs, hceil, hfloor, hquarter, hweek⟩

end PlanSql
