/-!
# Powers of two and of ten

Powers of the two bases of numbers: words and binary places count in powers of two, decimal places
in powers of ten.
-/
namespace PlanSql

/-- The `n`-th power of two. -/
abbrev pow2 (n : Nat) : Nat := Nat.pow 2 n

/-- The `n`-th power of ten. -/
abbrev pow10 (n : Nat) : Nat := Nat.pow 10 n

end PlanSql
