import PlanSql.Number.Binary64

/-!
# Shortest decimals that read back

The fewest decimal digits that read back. Every number strictly nearer to a finite `x` than to its
neighbours reads as `x`, and so do the two midpoints when the significand of `x` is even. On each
decimal grid, from coarse to fine, the grid points just below and just above `x` are tried; the
first grid with a point that reads as `x` has the fewest digits, and of two such points the nearer
is taken, the even one when both are equally near.
-/
namespace PlanSql.Binary64

/-- A decimal numeral without sign: its value is `digits * 10 ^ exponent`. -/
structure Decimal where
  digits : Nat
  exponent : Int
  deriving DecidableEq, Repr

/-- The rational numbers that read as one binary number, as numerators over a common denominator. -/
structure Interval where
  low : Nat
  value : Nat
  high : Nat
  denominator : Nat
  closed : Bool

/-- The numbers that read as `x`, for a finite `x` other than zero. -/
def interval (x : Binary64) : Interval :=
  let m := x.significand
  let e := x.exponent - 2
  let scale := if 0 ≤ e then pow2 e.toNat else 1
  let below := if m = pow2 52 ∧ -1074 < x.exponent then 1 else 2
  { low := (4 * m - below) * scale
    value := 4 * m * scale
    high := (4 * m + 2) * scale
    denominator := if 0 ≤ e then 1 else pow2 (-e).toNat
    closed := m % 2 == 0 }

def Interval.holds (i : Interval) (num den : Nat) : Bool :=
  let n := num * i.denominator
  if i.closed then i.low * den ≤ n && n ≤ i.high * den else i.low * den < n && n < i.high * den

/-- The grid point `digits * 10 ^ exponent` as a fraction. -/
def gridPoint (digits : Nat) (exponent : Int) : Nat × Nat :=
  if 0 ≤ exponent then (digits * pow10 exponent.toNat, 1) else (digits, pow10 (-exponent).toNat)

/-- The nearest point of one decimal grid that reads as the number, if there is one. -/
def Interval.onGrid (i : Interval) (exponent : Int) : Option Decimal :=
  let unit := gridPoint 1 exponent
  let num := i.value * unit.2
  let den := i.denominator * unit.1
  let below := num / den
  let up := below + 1
  let okBelow := i.holds (gridPoint below exponent).1 unit.2
  let okUp := i.holds (gridPoint up exponent).1 unit.2
  let rest := 2 * (num % den)
  if okBelow && (!okUp || rest < den || (rest == den && below % 2 == 0)) then
    some ⟨below, exponent⟩
  else if okUp then some ⟨up, exponent⟩
  else none

/-- The exponent of the leading decimal digit of `num / den`, for a quotient that is not zero. -/
def leadingExponent (num den : Nat) : Int :=
  if den ≤ num then ((Nat.toDigits 10 (num / den)).length : Int) - 1
  else -((Nat.toDigits 10 (den / num)).length : Int)

/-- The first hit among `count` grids, each ten times finer than the one before. -/
def Interval.search (i : Interval) : Nat → Int → Option Decimal
  | 0, _ => none
  | count + 1, exponent => i.onGrid exponent <|> i.search count (exponent - 1)

/-- Trailing zeros of the digits moved into the exponent, at most `count` of them. -/
def Decimal.trim (d : Decimal) : Nat → Decimal
  | 0 => d
  | count + 1 =>
    if d.digits % 10 = 0 ∧ d.digits ≠ 0 then
      Decimal.trim ⟨d.digits / 10, d.exponent + 1⟩ count
    else d

/-- The shortest decimal that reads as the finite number `x`, without regard to its sign.
Seventeen digits always suffice, so the search finds one. -/
def shortest (x : Binary64) : Decimal :=
  if x.isZero then ⟨0, 0⟩
  else
    let i := x.interval
    let top := leadingExponent i.value i.denominator
    ((i.search 18 top).getD ⟨0, 0⟩).trim 18

end PlanSql.Binary64
