import PlanSql.Number.Shortest

/-!
# Layouts of decimal numbers

How numbers are written. Plain layout is positional, however large or small the number; data layout
turns to an exponent outside a fixed range and always shows that the number is fractional. Both
write the fewest digits that read back.
-/
namespace PlanSql.Binary64

/-- The digits of a numeral. -/
def Decimal.digitText (d : Decimal) : List Char := Nat.toDigits 10 d.digits

/-- The exponent of the leading digit, that of a scientific notation. -/
def Decimal.leading (d : Decimal) : Int := d.exponent + d.digitText.length - 1

/-- Positional notation, with a point only where a fraction follows. -/
def Decimal.positional (d : Decimal) : List Char :=
  let ds := d.digitText
  if 0 ≤ d.exponent then
    if d.digits = 0 then ['0'] else ds ++ List.replicate d.exponent.toNat '0'
  else
    let places := (-d.exponent).toNat
    if places < ds.length then
      ds.take (ds.length - places) ++ '.' :: ds.drop (ds.length - places)
    else '0' :: '.' :: List.replicate (places - ds.length) '0' ++ ds

/-- One digit, the rest as a fraction, and an exponent that always has its sign. -/
def Decimal.scientific (d : Decimal) : List Char :=
  let fraction := match d.digitText with
    | [] => []
    | [c] => [c]
    | c :: rest => c :: '.' :: rest
  let e := d.leading
  fraction ++ 'e' :: (if e < 0 then '-' else '+') :: Nat.toDigits 10 e.natAbs

def signed (negative : Bool) (text : List Char) : String :=
  String.ofList (if negative then '-' :: text else text)

/-- Plain layout: never an exponent, no point in whole numbers. -/
def plain (x : Binary64) : String :=
  if x.isNaN then "NaN"
  else if x.isInfinite then signed x.negative ['i', 'n', 'f']
  else signed x.negative x.shortest.positional

/-- The exponents of the leading digit for which data layout is positional. -/
def positionalLeading (e : Int) : Bool := -5 ≤ e && e < 16

/-- Data layout of a finite number: positional with at least one fractional digit where the leading
exponent allows it, else scientific. -/
def data (x : Binary64) : String :=
  let d := x.shortest
  if x.isZero then signed x.negative ['0', '.', '0']
  else if positionalLeading d.leading then
    signed x.negative (if 0 ≤ d.exponent then d.positional ++ ['.', '0'] else d.positional)
  else signed x.negative d.scientific

end PlanSql.Binary64
