import PlanSql.Json.Basic
import PlanSql.Number.Layout
import PlanSql.Text.Digits

/-!
# JSON values as compact text

Compact text has no white space. Members stand in the order they have, and characters outside ASCII
as they are; the control characters with a short escape use it and the others are written by their
code point.
-/
namespace PlanSql.Json

/-- One character inside a JSON string. -/
def charText (c : Char) : String :=
  match c with
  | '"' => "\\\""
  | '\\' => "\\\\"
  | '\n' => "\\n"
  | '\r' => "\\r"
  | '\t' => "\\t"
  | '\x08' => "\\b"
  | '\x0c' => "\\f"
  | c => if c.toNat < 32 then "\\u" ++ Text.padded 16 4 c.toNat else c.toString

def stringText (s : String) : String := "\"" ++ String.join (s.toList.map charText) ++ "\""

def Number.text : Number → String
  | .int i => toString i
  | .float x => x.data

mutual

/-- The compact text of a value. -/
def text : Json → String
  | .null => "null"
  | .bool true => "true"
  | .bool false => "false"
  | .number n => n.text
  | .string s => stringText s
  | .array items => "[" ++ itemsText items ++ "]"
  | .object members => "\x7b" ++ membersText members ++ "\x7d"

def itemsText : List Json → String
  | [] => ""
  | [item] => item.text
  | item :: rest => item.text ++ "," ++ itemsText rest

def membersText : List (String × Json) → String
  | [] => ""
  | [(key, value)] => stringText key ++ ":" ++ value.text
  | (key, value) :: rest => stringText key ++ ":" ++ value.text ++ "," ++ membersText rest

end

end PlanSql.Json
