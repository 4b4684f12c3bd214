import PlanSql.Text.CodePointRange

/-!
# White space

The characters with the Unicode property White_Space.
-/
namespace PlanSql.Text

/-- White-space code points, in ascending order. -/
def blankRanges : List CodePointRange := [
  (0x9, 0xD), (0x20, 0x20), (0x85, 0x85), (0xA0, 0xA0), (0x1680, 0x1680), (0x2000, 0x200A),
  (0x2028, 0x2029), (0x202F, 0x202F), (0x205F, 0x205F), (0x3000, 0x3000)]

/-- A white-space character. -/
def isBlank (c : Char) : Bool := CodePointRange.covers blankRanges c.toNat

end PlanSql.Text
