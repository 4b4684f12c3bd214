import PlanSql.Number.Binary64
import PlanSql.Text.Digits

/-!
# Reading decimal numerals

A numeral is split into sign, digits and exponent; its value is then taken in one of two ways.
`nearest` rounds the exact value. `scaled` keeps as many leading digits as fit in 64 bits and
multiplies or divides by a power of ten in floating-point arithmetic, which is exact for short
numerals, may be off in the last place for long ones, and refuses what is too large.
-/
namespace PlanSql

/-- A decimal numeral: `whole . fraction` times ten to the `exponent`. -/
structure Numeral where
  negative : Bool
  whole : List Char
  fraction : List Char
  exponent : Int
  deriving Repr

namespace Numeral

/-- The numeral's value rounded to the nearest number. -/
def nearest (n : Numeral) : Binary64 :=
  let digits := n.whole ++ n.fraction
  let d := Text.digitsValue digits
  let e := n.exponent - n.fraction.length
  if d = 0 then .zero n.negative
  else if 400 < e then .infinity n.negative
  else if e + digits.length < -400 then .zero n.negative
  else if 0 ≤ e then .ofRatio n.negative (d * pow10 e.toNat) 1
  else .ofRatio n.negative d (pow10 (-e).toNat)

/-- Leading digits that fit in 64 bits, and how many digits were left. -/
def leading : Nat → List Char → Nat × List Char
  | kept, [] => (kept, [])
  | kept, c :: rest =>
    let next := 10 * kept + (c.toNat - '0'.toNat)
    if next < pow2 64 then leading next rest else (kept, c :: rest)

/-- A power of ten, rounded to the nearest number. -/
def powerOfTen (e : Nat) : Binary64 := .ofNat (pow10 e)

/-- The number divided by `10 ^ e`, at most `10 ^ 308` at a time. Three such steps bring every
64-bit number to zero. -/
def scaleDown (x : Binary64) (e : Nat) : Nat → Binary64
  | 0 => x.div (powerOfTen (min e 308))
  | steps + 1 =>
    if e ≤ 308 ∨ x.isZero then x.div (powerOfTen (min e 308))
    else scaleDown (x.div (powerOfTen 308)) (e - 308) steps

/-- `x * 10 ^ e` in floating-point steps, unless the result is too large. -/
def scale (x : Binary64) (e : Int) : Option Binary64 :=
  if x.isZero then some x
  else if e < 0 then some (scaleDown x e.natAbs 3)
  else if 308 < e then none
  else
    let y := x.mul (powerOfTen e.toNat)
    if y.isInfinite then none else some y

/-- The numeral's value by its leading digits and one scaling, unless it is too large. -/
def scaled (n : Numeral) : Option Binary64 :=
  let (significand, restWhole) := leading 0 n.whole
  let (significand, restFraction) := leading significand n.fraction
  let e := n.exponent + restWhole.length - (n.fraction.length - restFraction.length : Nat)
  (scale (.ofNat significand) e).map fun x => if n.negative then x.neg else x

/-- A numeral's exponent with its sign; digits have to follow. -/
def readExponent (cs : List Char) : Option (Int × List Char) :=
  let (negative, cs) := match cs with
    | '+' :: rest => (false, rest)
    | '-' :: rest => (true, rest)
    | cs => (false, cs)
  let ds := cs.takeWhile Char.isDigit
  if ds.isEmpty then none
  else
    let e : Int := Text.digitsValue ds
    some (if negative then -e else e, cs.dropWhile Char.isDigit)

end Numeral

/-- The number a text names: an optional sign, then digits with an optional point and exponent, or
the name of an infinity or of no number, in any case of letters. -/
def Binary64.ofText? (text : String) : Option Binary64 :=
  let (negative, cs) := match text.toList with
    | '+' :: rest => (false, rest)
    | '-' :: rest => (true, rest)
    | cs => (false, cs)
  match String.ofList (cs.map Char.toLower) with
  | "inf" | "infinity" => some (.infinity negative)
  | "nan" => some (if negative then Binary64.nan.neg else Binary64.nan)
  | _ =>
    let whole := cs.takeWhile Char.isDigit
    let rest := cs.dropWhile Char.isDigit
    let (fraction, rest) := match rest with
      | '.' :: r => (r.takeWhile Char.isDigit, r.dropWhile Char.isDigit)
      | r => ([], r)
    if whole.isEmpty && fraction.isEmpty then none
    else match rest with
      | [] => some (Numeral.nearest ⟨negative, whole, fraction, 0⟩)
      | c :: r =>
        if c = 'e' ∨ c = 'E' then
          match Numeral.readExponent r with
          | some (e, []) => some (Numeral.nearest ⟨negative, whole, fraction, e⟩)
          | _ => none
        else none

end PlanSql
