import PlanSql.Calendar.Text
import PlanSql.DataType
import PlanSql.Number.Layout

/-!
# Constants of queries

Constants as they stand in expressions. Each has a type; floating-point constants are compared as
numbers, so that two zeros of different sign are the same and an undefined number is not the same as
itself.
-/
namespace PlanSql

/-- A constant; `null` stands for absence. -/
inductive Value where
  | null
  | bool (value : Bool)
  | int (value : Int)
  | float (value : Binary64)
  | text (value : String)
  | date (value : Date)
  | timestamp (value : Timestamp)
  deriving DecidableEq, Repr

namespace Value

def dataType : Value → DataType
  | .null => .null
  | .bool _ => .bool
  | .int _ => .int64
  | .float _ => .float64
  | .text _ => .string
  | .date _ => .date
  | .timestamp _ => .timestamp

/-- The same constant, numbers being compared as numbers. -/
def same : Value → Value → Bool
  | .float x, .float y => x.same y
  | v, w => v = w

end Value

/-- The same constants in the same order. -/
def sameValues : List Value → List Value → Bool
  | [], [] => true
  | v :: vs, w :: ws => v.same w && sameValues vs ws
  | _, _ => false

end PlanSql
