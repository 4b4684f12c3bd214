import PlanSql.Number.Power

/-!
# Binary numbers of 64 bits

Binary floating-point numbers of 64 bits, held as their bit patterns so that equality is decidable
and everything about them is exact integer arithmetic. A finite number is a significand times a
power of two; `ofRatio` rounds a non-negative rational to the nearest such number, ties going to the
even significand, and the arithmetic that follows is "exact result, then `ofRatio`".
-/
namespace PlanSql

/-- A binary floating-point number, by its bit pattern. -/
structure Binary64 where
  bits : UInt64
  deriving DecidableEq, Repr, Inhabited

namespace Binary64

/-- The number with the given sign and the given 63 remaining bits. -/
def ofMagnitude (negative : Bool) (magnitude : Nat) : Binary64 :=
  ⟨UInt64.ofNat (if negative then pow2 63 + magnitude else magnitude)⟩

/-- The 63 bits below the sign. -/
def magnitude (x : Binary64) : Nat := x.bits.toNat % pow2 63

/-- The sign bit. -/
def negative (x : Binary64) : Bool := pow2 63 ≤ x.bits.toNat

/-- The magnitude bits of an infinity. -/
def infiniteMagnitude : Nat := 2047 * pow2 52

def infinity (negative : Bool) : Binary64 := ofMagnitude negative infiniteMagnitude

def nan : Binary64 := ofMagnitude false (infiniteMagnitude + pow2 51)

def zero (negative : Bool) : Binary64 := ofMagnitude negative 0

def isNaN (x : Binary64) : Bool := infiniteMagnitude < x.magnitude

def isInfinite (x : Binary64) : Bool := x.magnitude = infiniteMagnitude

def isFinite (x : Binary64) : Bool := x.magnitude < infiniteMagnitude

def isZero (x : Binary64) : Bool := x.magnitude = 0

/-- The significand of a finite number; the value is `significand * 2 ^ exponent`. -/
def significand (x : Binary64) : Nat :=
  if x.magnitude < pow2 52 then x.magnitude else pow2 52 + x.magnitude % pow2 52

/-- The exponent of a finite number; the value is `significand * 2 ^ exponent`. -/
def exponent (x : Binary64) : Int :=
  (max (x.magnitude / pow2 52) 1 : Nat) - 1075

/-- The absolute value of a finite number as numerator and denominator. -/
def ratio (x : Binary64) : Nat × Nat :=
  if 0 ≤ x.exponent then (x.significand * pow2 x.exponent.toNat, 1)
  else (x.significand, pow2 (-x.exponent).toNat)

/-- A quotient rounded to the nearest integer, a half to the even one. -/
def roundDiv (num den : Nat) : Nat :=
  let q := num / den
  let r := num % den
  if den < 2 * r || (den == 2 * r && q % 2 == 1) then q + 1 else q

/-- The exponent of two at which `num / den` has 53 significant bits, or the least exponent. -/
def gridExponent (num den : Nat) : Int :=
  let low : Int := (num.log2 : Int) - den.log2 - 53
  let fits : Bool :=
    if 0 ≤ low then num < den * pow2 low.toNat * pow2 53
    else num * pow2 (-low).toNat < den * pow2 53
  max (if fits then low else low + 1) (-1074)

/-- The number nearest to `num / den`, ties to even; what lies too far out becomes infinite. -/
def ofRatio (negative : Bool) (num den : Nat) : Binary64 :=
  if num = 0 then zero negative
  else
    let e := gridExponent num den
    let q := if 0 ≤ e then roundDiv num (den * pow2 e.toNat)
      else roundDiv (num * pow2 (-e).toNat) den
    ofMagnitude negative (min ((e + 1074).toNat * pow2 52 + q) infiniteMagnitude)

def ofNat (n : Nat) : Binary64 := ofRatio false n 1

def ofInt (i : Int) : Binary64 := ofRatio (i < 0) i.natAbs 1

def neg (x : Binary64) : Binary64 := ofMagnitude (!x.negative) x.magnitude

/-- The rounded product of two finite numbers. -/
def mul (x y : Binary64) : Binary64 :=
  ofRatio (x.negative != y.negative) (x.ratio.1 * y.ratio.1) (x.ratio.2 * y.ratio.2)

/-- The rounded quotient of two finite numbers, the second not zero. -/
def div (x y : Binary64) : Binary64 :=
  ofRatio (x.negative != y.negative) (x.ratio.1 * y.ratio.2) (x.ratio.2 * y.ratio.1)

/-- Numerical equality: both zeros are equal, and a NaN equals nothing. -/
def same (x y : Binary64) : Bool :=
  !x.isNaN && (x = y || (x.isZero && y.isZero))

end Binary64

end PlanSql
