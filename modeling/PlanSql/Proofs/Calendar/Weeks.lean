import Mathlib.Logic.Function.Iterate
import Mathlib.Order.Monotone.Basic
import PlanSql.Calendar.Date

/-!
# Weeks of the calendar

Days of the proleptic Gregorian calendar in the order in which they follow each other. ISO 8601
counts weeks from Monday, and the first week of a year is the one with 4 January. So a week near the
turn of the year may belong to the year before or after, and the Thursday of a week decides: it lies
in the year that the week belongs to, and its day of the year tells the number of the week.
-/
namespace PlanSql

/-- A day of the proleptic Gregorian calendar, of any year. -/
structure Day where
  year : Int
  month : Nat
  day : Nat
  isMonth : 1 ≤ month ∧ month ≤ 12
  isDay : 1 ≤ day ∧ day ≤ daysInMonth year month
  deriving DecidableEq, Repr

def Date.toDay (d : Date) : Day := ⟨d.year, d.month, d.day, d.isDate.2.1, d.isDate.2.2⟩

def daysInYear (year : Int) : Nat := if isLeapYear year then 366 else 365

/-- The days of the months of a year before the given one. -/
def daysBeforeMonth (year : Int) : Nat → Nat
  | 0 | 1 => 0
  | m + 2 => daysBeforeMonth year (m + 1) + daysInMonth year (m + 1)

/-- The days of the years before the given one, counted from the year 1. -/
def daysBeforeYear (year : Int) : Int :=
  365 * (year - 1) + (year - 1) / 4 - (year - 1) / 100 + (year - 1) / 400

theorem one_le_daysInMonth (year : Int) (month : Nat) : 1 ≤ daysInMonth year month := by
  unfold daysInMonth
  split_ifs <;> decide

theorem daysBeforeMonth_succ (year : Int) {month : Nat} (h : 1 ≤ month) :
    daysBeforeMonth year (month + 1) = daysBeforeMonth year month + daysInMonth year month := by
  obtain ⟨m, rfl⟩ := Nat.exists_eq_add_of_le' h
  rfl

theorem daysBeforeMonth_thirteen (year : Int) : daysBeforeMonth year 13 = daysInYear year := by
  simp only [daysBeforeMonth, daysInMonth, daysInYear]
  cases isLeapYear year <;> rfl

theorem daysBeforeYear_succ (year : Int) :
    daysBeforeYear (year + 1) = daysBeforeYear year + daysInYear year := by
  have hleap : isLeapYear year = true ↔ year % 4 = 0 ∧ (¬ year % 100 = 0 ∨ year % 400 = 0) := by
    simp [isLeapYear]
  unfold daysBeforeYear daysInYear
  split
  · next h =>
    have := hleap.mp h
    omega
  · next h =>
    have := mt hleap.mpr h
    omega

namespace Day

/-- The place of a day in its year, from 1. -/
def dayOfYear (d : Day) : Nat := daysBeforeMonth d.year d.month + d.day

/-- The place of a day in the calendar; 1 January of the year 1 is in the first place. -/
def ordinal (d : Day) : Int := daysBeforeYear d.year + d.dayOfYear

/-- The day of the week, from Sunday as 0. The calendar began with a Monday. -/
def weekday (d : Day) : Int := d.ordinal % 7

def quarter (d : Day) : Nat := (d.month - 1) / 3 + 1

/-- The day after. -/
def next (d : Day) : Day :=
  if hd : d.day < daysInMonth d.year d.month then
    ⟨d.year, d.month, d.day + 1, d.isMonth, by omega⟩
  else if hm : d.month < 12 then
    ⟨d.year, d.month + 1, 1, by omega, ⟨le_rfl, one_le_daysInMonth ..⟩⟩
  else ⟨d.year + 1, 1, 1, by decide, ⟨le_rfl, one_le_daysInMonth ..⟩⟩

/-- The day before. -/
def previous (d : Day) : Day :=
  if hd : 1 < d.day then
    ⟨d.year, d.month, d.day - 1, d.isMonth, by have := d.isDay; omega⟩
  else if hm : 1 < d.month then
    ⟨d.year, d.month - 1, daysInMonth d.year (d.month - 1), by have := d.isMonth; omega,
      ⟨one_le_daysInMonth .., le_rfl⟩⟩
  else ⟨d.year - 1, 12, 31, by decide, ⟨by decide, Nat.le_refl 31⟩⟩

theorem ordinal_next (d : Day) : d.next.ordinal = d.ordinal + 1 := by
  obtain ⟨year, month, day, ⟨hm₁, hm₁₂⟩, hd⟩ := d
  unfold next
  split_ifs with hday hmonth
  · simp only [ordinal, dayOfYear]
    omega
  · -- the last day of a month
    simp only [ordinal, dayOfYear, daysBeforeMonth_succ year hm₁] at hday ⊢
    omega
  · -- the last day of a year
    obtain rfl : month = 12 := le_antisymm hm₁₂ (not_lt.mp hmonth)
    have hlast := daysBeforeMonth_succ year (by decide : 1 ≤ 12)
    have hfirst : daysBeforeMonth (year + 1) 1 = 0 := rfl
    simp only [ordinal, dayOfYear, daysBeforeYear_succ, hfirst, ← daysBeforeMonth_thirteen, hlast]
      at hday ⊢
    omega

theorem ordinal_previous (d : Day) : d.previous.ordinal = d.ordinal - 1 := by
  obtain ⟨year, month, day, ⟨hm₁, hm₁₂⟩, hd⟩ := d
  unfold previous
  split_ifs with hday hmonth
  · simp only [ordinal, dayOfYear]
    omega
  · -- the first day of a month
    obtain ⟨m, rfl⟩ : ∃ m, month = m + 1 := ⟨month - 1, by omega⟩
    have hsucc := daysBeforeMonth_succ year (Nat.lt_succ_iff.mp hmonth)
    simp only [ordinal, dayOfYear, Nat.add_sub_cancel] at hday ⊢
    omega
  · -- the first day of a year
    obtain rfl : month = 1 := le_antisymm (not_lt.mp hmonth) hm₁
    have hlast := daysBeforeMonth_succ (year - 1) (by decide : 1 ≤ 12)
    have hfirst : daysBeforeMonth year 1 = 0 := rfl
    have hyear := daysBeforeYear_succ (year - 1)
    rw [Int.sub_add_cancel, ← daysBeforeMonth_thirteen, hlast] at hyear
    have hdays : daysInMonth (year - 1) 12 = 31 := rfl
    simp only [ordinal, dayOfYear, hfirst, hyear, hdays] at hday ⊢
    omega

theorem ordinal_iterate_next (d : Day) (n : Nat) : (next^[n] d).ordinal = d.ordinal + n := by
  induction n with
  | zero => simp
  | succ n ih =>
    rw [Function.iterate_succ_apply', ordinal_next, ih]
    omega

theorem ordinal_iterate_previous (d : Day) (n : Nat) :
    (previous^[n] d).ordinal = d.ordinal - n := by
  induction n with
  | zero => simp
  | succ n ih =>
    rw [Function.iterate_succ_apply', ordinal_previous, ih]
    omega

theorem one_le_dayOfYear (d : Day) : 1 ≤ d.dayOfYear :=
  Nat.le_add_left_of_le d.isDay.1

theorem dayOfYear_le (d : Day) : d.dayOfYear ≤ daysInYear d.year := by
  have hmonth : d.dayOfYear ≤ daysBeforeMonth d.year (d.month + 1) := by
    rw [daysBeforeMonth_succ d.year d.isMonth.1]
    exact Nat.add_le_add_left d.isDay.2 _
  have hmono : Monotone (daysBeforeMonth d.year) := by
    refine monotone_nat_of_le_succ fun m => ?_
    cases m with
    | zero => exact le_rfl
    | succ m => exact Nat.le_add_right _ _
  rw [← daysBeforeMonth_thirteen]
  exact hmonth.trans (hmono (Nat.succ_le_succ d.isMonth.2))

/-- The first day on or after the given one that has the given weekday. -/
def onOrAfter (weekday : Int) (d : Day) : Day := next^[((weekday - d.weekday) % 7).toNat] d

theorem ordinal_onOrAfter (weekday : Int) (d : Day) :
    (d.onOrAfter weekday).ordinal = d.ordinal + (weekday - d.weekday) % 7 := by
  rw [onOrAfter, ordinal_iterate_next, Int.toNat_of_nonneg (Int.emod_nonneg _ (by decide))]

/-- The Thursday of the week of the day: the first one on or after the day three days before. -/
def thursday (d : Day) : Day := (previous^[3] d).onOrAfter 4

end Day

/-- The Monday of the week of a day, by their places in the calendar. -/
def mondayOf (ordinal : Int) : Int := ordinal - (ordinal - 1) % 7

/-- The Monday with which the weeks of a year begin: that of the week with 4 January. -/
def firstMonday (year : Int) : Int := mondayOf (daysBeforeYear year + 4)

theorem firstMonday_lt_succ (year : Int) : firstMonday year < firstMonday (year + 1) := by
  have hdays : 365 ≤ daysInYear year := by
    unfold daysInYear
    split <;> decide
  unfold firstMonday mondayOf
  rw [daysBeforeYear_succ]
  omega

theorem firstMonday_mono {year year' : Int} (h : year ≤ year') :
    firstMonday year ≤ firstMonday year' :=
  monotone_int_of_le_succ (fun y => (firstMonday_lt_succ y).le) h

namespace Day

/-- The day belongs to a week of a year by ISO 8601: weeks go from Monday to Sunday, and a year has
all weeks from its first Monday to that of the year after, numbered from 1. -/
structure InWeek (d : Day) (year : Int) (week : Nat) : Prop where
  number : mondayOf d.ordinal = firstMonday year + 7 * (week - 1)
  isPositive : 1 ≤ week
  before : d.ordinal < firstMonday (year + 1)

theorem InWeek.firstMonday_le {d : Day} {year : Int} {week : Nat} (h : d.InWeek year week) :
    firstMonday year ≤ d.ordinal := by
  obtain ⟨hnumber, hpos, -⟩ := h
  unfold mondayOf at hnumber
  omega

/-- No day belongs to two weeks. -/
theorem InWeek.unique {d : Day} {year year' : Int} {week week' : Nat} (h : d.InWeek year week)
    (h' : d.InWeek year' week') : year = year' ∧ week = week' := by
  have hyear : year = year' := by
    by_contra hne
    rcases lt_or_gt_of_ne hne with hlt | hgt
    · have := firstMonday_mono (Int.add_one_le_of_lt hlt)
      exact absurd h.before (not_lt.mpr (this.trans h'.firstMonday_le))
    · have := firstMonday_mono (Int.add_one_le_of_lt hgt)
      exact absurd h'.before (not_lt.mpr (this.trans h.firstMonday_le))
  subst hyear
  have := h.number.symm.trans h'.number
  omega

theorem ordinal_thursday (d : Day) : d.thursday.ordinal = mondayOf d.ordinal + 3 := by
  rw [thursday, ordinal_onOrAfter, weekday, ordinal_iterate_previous, mondayOf]
  omega

/-- The year of the Thursday and the whole weeks of that year before it tell the week of a day. -/
theorem inWeek_thursday (d : Day) :
    d.InWeek d.thursday.year ((d.thursday.dayOfYear - 1) / 7 + 1) := by
  have hthursday := ordinal_thursday d
  rw [ordinal] at hthursday
  have hpos := d.thursday.one_le_dayOfYear
  have hlast := d.thursday.dayOfYear_le
  -- both Mondays are known up to the six days in which 4 January and the Thursday may move
  refine ⟨?_, Nat.le_add_left 1 _, ?_⟩
  · unfold firstMonday mondayOf at *
    omega
  · unfold firstMonday mondayOf at *
    rw [daysBeforeYear_succ]
    omega

end Day
end PlanSql
