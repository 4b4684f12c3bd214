/-!
# Runs of digits

The number a run of decimal digits denotes, and numbers written in at least a given number of
digits.
-/
namespace PlanSql.Text

/-- The value of a run of decimal digits. -/
def digitsValue (ds : List Char) : Nat :=
  ds.foldl (fun n c => 10 * n + (c.toNat - '0'.toNat)) 0

/-- A number in the given base, padded with zeros to at least `width` digits. -/
def padded (base width n : Nat) : String :=
  let ds := Nat.toDigits base n
  String.ofList (List.replicate (width - ds.length) '0' ++ ds)

end PlanSql.Text
