import PlanSql.PlanError
import PlanSql.Value

/-!
# Operators and functions of expressions

The operators and functions of expressions, what they are called, and the types they take and give.
Display names stand in messages and in the names of unnamed outputs, rule names look up how a
dialect writes a function.
-/
namespace PlanSql

inductive BinaryOp where
  | add
  | sub
  | mul
  | div
  | mod
  | eq
  | notEq
  | lt
  | ltEq
  | gt
  | gtEq
  | and
  | or
  | like
  deriving DecidableEq, Repr, Inhabited

namespace BinaryOp

def isArithmetic : BinaryOp → Bool
  | .add | .sub | .mul | .div | .mod => true
  | _ => false

def isComparison : BinaryOp → Bool
  | .eq | .notEq | .lt | .ltEq | .gt | .gtEq => true
  | _ => false

def isLogical : BinaryOp → Bool
  | .and | .or => true
  | _ => false

def displayName : BinaryOp → String
  | .add => "Add"
  | .sub => "Subtract"
  | .mul => "Multiply"
  | .div => "Divide"
  | .mod => "Modulus"
  | .eq => "Equals"
  | .notEq => "NotEquals"
  | .lt => "Less"
  | .ltEq => "LessEqual"
  | .gt => "Greater"
  | .gtEq => "GreaterEqual"
  | .and => "And"
  | .or => "Or"
  | .like => "Like"

/-- The operators by their names in documents. -/
def choices : List (String × BinaryOp) := [
  ("add", .add), ("sub", .sub), ("mul", .mul), ("div", .div), ("mod", .mod), ("eq", .eq),
  ("not_eq", .notEq), ("lt", .lt), ("lt_eq", .ltEq), ("gt", .gt), ("gt_eq", .gtEq), ("and", .and),
  ("or", .or), ("like", .like)]

end BinaryOp

inductive UnaryOp where
  | neg
  | not
  deriving DecidableEq, Repr, Inhabited

namespace UnaryOp

def displayName : UnaryOp → String
  | .neg => "Negate"
  | .not => "Not"

def choices : List (String × UnaryOp) := [("neg", .neg), ("not", .not)]

end UnaryOp

/-- A function of the values of one row. -/
inductive ScalarFunction where
  | abs
  | ceil
  | floor
  | round
  | lower
  | upper
  | length
  | substr
  | coalesce
  deriving DecidableEq, Repr, Inhabited

namespace ScalarFunction

/-- The rule for a call with the given number of arguments. -/
def ruleName (f : ScalarFunction) (arity : Nat) : String :=
  match f with
  | .abs => "abs"
  | .ceil => "ceil"
  | .floor => "floor"
  | .round => if 1 < arity then "round_digits" else "round"
  | .lower => "lower"
  | .upper => "upper"
  | .length => "length"
  | .substr => "substr"
  | .coalesce => "coalesce"

def displayName : ScalarFunction → String
  | .abs => "Abs"
  | .ceil => "Ceil"
  | .floor => "Floor"
  | .round => "Round"
  | .lower => "Lowercase"
  | .upper => "Uppercase"
  | .length => "StringLength"
  | .substr => "Substring"
  | .coalesce => "Coalesce"

def choices : List (String × ScalarFunction) := [
  ("abs", .abs), ("ceil", .ceil), ("floor", .floor), ("round", .round), ("lower", .lower),
  ("upper", .upper), ("length", .length), ("substr", .substr), ("coalesce", .coalesce)]

end ScalarFunction

/-- A field of a date or time. -/
inductive DatePart where
  | year
  | quarter
  | month
  | weekOfYear
  | dayOfYear
  | day
  | hour
  | minute
  | second
  deriving DecidableEq, Repr, Inhabited

namespace DatePart

def ruleName : DatePart → String
  | .year => "year"
  | .quarter => "quarter"
  | .month => "month"
  | .weekOfYear => "week_of_year"
  | .dayOfYear => "day_of_year"
  | .day => "day"
  | .hour => "hour"
  | .minute => "minute"
  | .second => "second"

def isTimeOfDay : DatePart → Bool
  | .hour | .minute | .second => true
  | _ => false

def displayName : DatePart → String
  | .year => "ExtractYear"
  | .quarter => "ExtractQuarter"
  | .month => "ExtractMonth"
  | .weekOfYear => "ExtractWeekOfYear"
  | .dayOfYear => "ExtractDayOfYear"
  | .day => "ExtractDay"
  | .hour => "ExtractHour"
  | .minute => "ExtractMinute"
  | .second => "ExtractSecond"

def all : List DatePart :=
  [.year, .quarter, .month, .weekOfYear, .dayOfYear, .day, .hour, .minute, .second]

/-- The fields by their names in documents, which are the names of their rules. -/
def choices : List (String × DatePart) := all.map fun p => (p.ruleName, p)

end DatePart

/-- The unit in which a number counts time since the epoch. -/
inductive TimeUnit where
  | seconds
  | milliseconds
  | microseconds
  deriving DecidableEq, Repr, Inhabited

namespace TimeUnit

/-- The short name of a unit. -/
def symbol : TimeUnit → String
  | .seconds => "s"
  | .milliseconds => "ms"
  | .microseconds => "us"

def name : TimeUnit → String
  | .seconds => "seconds"
  | .milliseconds => "milliseconds"
  | .microseconds => "microseconds"

def all : List TimeUnit := [.seconds, .milliseconds, .microseconds]

/-- The units by their long and their short names. -/
def choices : List (String × TimeUnit) :=
  all.map (fun u => (u.name, u)) ++ all.map (fun u => (u.symbol, u))

def ruleName (u : TimeUnit) : String := "to_timestamp_" ++ u.symbol

end TimeUnit

/-- A function of the values of a group of rows. -/
inductive AggregateFunction where
  | count
  | sum
  | mean
  | min
  | max
  | stdDev
  | variance
  deriving DecidableEq, Repr, Inhabited

namespace AggregateFunction

def ruleName : AggregateFunction → String
  | .count => "count"
  | .sum => "sum"
  | .mean => "mean"
  | .min => "min"
  | .max => "max"
  | .stdDev => "stddev"
  | .variance => "variance"

def displayName : AggregateFunction → String
  | .count => "Count"
  | .sum => "Sum"
  | .mean => "Mean"
  | .min => "Min"
  | .max => "Max"
  | .stdDev => "StandardDev"
  | .variance => "Variance"

end AggregateFunction

/-- A function of a row and the rows around it. -/
inductive WindowFunction where
  | rowNumber
  | rank
  | denseRank
  | lag
  | lead
  | aggregate (f : AggregateFunction)
  deriving DecidableEq, Repr, Inhabited

namespace WindowFunction

def ruleName : WindowFunction → String
  | .rowNumber => "row_number"
  | .rank => "rank"
  | .denseRank => "dense_rank"
  | .lag => "lag"
  | .lead => "lead"
  | .aggregate f => f.ruleName

def displayName : WindowFunction → String
  | .rowNumber => "RowNumber"
  | .rank => "MinRank"
  | .denseRank => "DenseRank"
  | .lag => "Lag"
  | .lead => "Lead"
  | .aggregate f => f.displayName

end WindowFunction

/-! Result types. Each function below checks the types of the operands and gives the type of the
result; the first fault found is the one reported. -/

/-- Refuses an operand whose type does not satisfy the condition. -/
def DataType.expect (context : String) (expected : Expected) (ok : DataType → Bool) (t : DataType) :
    Except PlanError Unit :=
  if ok t then .ok () else .error (.typeMismatch context expected t)

/-- A number or always absent. -/
def DataType.isNumber (t : DataType) : Bool := t.isNumeric || t.isNull

/-- The common type of two types. -/
def DataType.join (context : String) (s t : DataType) : Except PlanError DataType :=
  match s.commonType t with
  | some common => .ok common
  | none => .error (.typeMismatch context (.like s) t)

namespace BinaryOp

/-- The type of the result, the operands having types `l` and `r`. -/
def resultType (op : BinaryOp) (l r : DataType) : Except PlanError DataType := do
  let context := op.displayName
  if op.isArithmetic then
    l.expect context .numeric DataType.isNumber
    r.expect context .numeric DataType.isNumber
    match op with
    | .div => return .float64
    | .mod =>
      l.expect context .integer fun t => t.isInteger || t.isNull
      r.expect context .integer fun t => t.isInteger || t.isNull
      l.join context r
    | _ => l.join context r
  else if op.isComparison then
    r.expect context (.like l) l.comparable
    return .bool
  else if op.isLogical then
    l.expect context .boolean DataType.isCondition
    r.expect context .boolean DataType.isCondition
    return .bool
  else
    l.expect context .string DataType.isText
    r.expect context .string DataType.isText
    return .bool

end BinaryOp

namespace UnaryOp

def resultType (op : UnaryOp) (t : DataType) : Except PlanError DataType :=
  match op with
  | .neg => do
    t.expect op.displayName .numeric DataType.isNumber
    return t
  | .not => do
    t.expect op.displayName .boolean DataType.isCondition
    return .bool

end UnaryOp

namespace ScalarFunction

/-- The type of the result, the arguments having the given types. -/
def resultType (f : ScalarFunction) (args : List DataType) : Except PlanError DataType :=
  let context := f.displayName
  let wrongArity : PlanError := .invalidPlan (.wrongArity context args.length)
  match args with
  | [] => .error wrongArity
  | first :: rest =>
    match f with
    | .abs => do
      first.expect context .numeric DataType.isNumber
      if rest.isEmpty then return first else .error wrongArity
    | .ceil | .floor => do
      first.expect context .numeric DataType.isNumber
      if rest.isEmpty then return (if first.isFloating then .int64 else first)
      else .error wrongArity
    | .round => do
      first.expect context .numeric DataType.isNumber
      match rest with
      | [] => return .int64
      | [digits] =>
        digits.expect context .integer DataType.isInteger
        return (if first.isFloating then .float64 else first)
      | _ => .error wrongArity
    | .lower | .upper => do
      if !rest.isEmpty then .error wrongArity
      first.expect context .string DataType.isText
      return .string
    | .length => do
      if !rest.isEmpty then .error wrongArity
      first.expect context .string DataType.isText
      return .int32
    | .substr => do
      if rest.isEmpty || 2 < rest.length then .error wrongArity
      first.expect context .string DataType.isText
      rest.forM fun t => t.expect context .integer DataType.isInteger
      return .string
    | .coalesce => args.foldlM (DataType.join context) .null

end ScalarFunction

/-- The type of a field taken from a value of type `t`. -/
def DatePart.resultType (p : DatePart) (t : DataType) : Except PlanError DataType := do
  t.expect p.displayName .temporal fun t =>
    t = .timestamp || t = (if p.isTimeOfDay then .time else .date)
  return .int32

/-- The type of a timestamp made from a number of type `t`. -/
def TimeUnit.resultType (t : DataType) : Except PlanError DataType := do
  t.expect "TimestampFromUNIX" .integer DataType.isInteger
  return .timestamp

/-- The type of an aggregate over values of type `t`. -/
def AggregateFunction.resultType (f : AggregateFunction) (t : DataType) :
    Except PlanError DataType :=
  let mismatch : Except PlanError DataType := .error (.typeMismatch f.displayName .numeric t)
  match f with
  | .count => .ok .int64
  | .sum =>
    match t with
    | .decimal _ scale => .ok (.decimal 38 scale)
    | t =>
      if t.isInteger || t.isNull then .ok .int64
      else if t.isFloating then .ok .float64
      else mismatch
  | .mean | .stdDev | .variance => if t.isNumber then .ok .float64 else mismatch
  | .min | .max => if t = .binary then mismatch else .ok t

/-- The type of a choice between results. Conditions and results are checked branch by branch. -/
def caseType (branches : List (DataType × DataType)) (otherwise : Option DataType) :
    Except PlanError DataType := do
  let context := "SearchedCase"
  let common ← branches.foldlM (fun common (condition, result) => do
    condition.expect context .boolean DataType.isCondition
    common.join context result) .null
  match otherwise with
  | none => return common
  | some t => common.join context t

/-- Whether every constant may be compared with a value of type `t`. -/
def membershipType (t : DataType) (values : List Value) : Except PlanError DataType := do
  values.forM fun v => v.dataType.expect "InValues" (.like t) t.comparable
  return .bool

end PlanSql
