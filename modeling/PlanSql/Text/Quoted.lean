import PlanSql.Text.Extending
import PlanSql.Text.Unprintable

/-!
# Quoted text

A quoted text stands between double quotes; quotes and backslashes are escaped, four control
characters have names of their own, and every other character that would not show is written by its
code point.
-/
namespace PlanSql.Text

/-- A character by its code point, in lower-case hexadecimal without leading zeros. -/
def codePointEscape (c : Char) : String :=
  "\\u\x7b" ++ String.ofList (Nat.toDigits 16 c.toNat) ++ "\x7d"

/-- One character inside quoted text. -/
def quotedChar (c : Char) : String :=
  match c with
  | '\x00' => "\\0"
  | '\t' => "\\t"
  | '\r' => "\\r"
  | '\n' => "\\n"
  | '\\' => "\\\\"
  | '"' => "\\\""
  | c => if isExtending c || isUnprintable c then codePointEscape c else c.toString

/-- Text between double quotes with everything invisible escaped. -/
def quoted (s : String) : String :=
  "\"" ++ String.join (s.toList.map quotedChar) ++ "\""

/-- A bracketed list of quoted texts. -/
def quotedList (items : List String) : String :=
  "[" ++ String.intercalate ", " (items.map quoted) ++ "]"

end PlanSql.Text
