import PlanSql.Calendar.Text
import PlanSql.DataType
import PlanSql.Json.Text
import PlanSql.Text.Quoted

/-!
# Faults of expressions and relations

What can be wrong with an expression or a relation, and the message for each fault.
-/
namespace PlanSql

/-- What an operand should have been. -/
inductive Expected where
  | numeric
  | integer
  | boolean
  | string
  | temporal
  /-- A type that goes with this one. -/
  | like (type : DataType)
  deriving DecidableEq, Repr

def Expected.text : Expected → String
  | .numeric => "numeric"
  | .integer => "integer"
  | .boolean => "boolean"
  | .string => "string"
  | .temporal => "temporal"
  | .like type => type.text

/-- A misplaced aggregate or window function. -/
inductive AggregationFault where
  | nestedAggregate (function : String)
  | windowInside (function : String)
  | filterNotRowLevel
  | secondFilter
  | filterOnOther
  | shiftNotRowLevel (function : String)
  | windowKeyNotRowLevel
  | qualifiedAggregateOver
  | overOnOther
  | unknownAggregate (name : String)
  | missingArgument (name : String)
  | aggregateInProjection (output : String)
  | aggregateInFilter
  | aggregateInSortKey
  | nothingToAggregate
  | keyNotRowLevel (output : String)
  | notAnAggregate (output : String)
  | ungroupedColumn (column output : String)
  | joinPredicateNotRowLevel
  | groupedAndWindowed (output : String)
  | windowInHaving
  deriving DecidableEq, Repr

def AggregationFault.message : AggregationFault → String
  | .nestedAggregate function => "nested aggregate inside " ++ function
  | .windowInside function => "window function inside " ++ function
  | .filterNotRowLevel => "aggregate filter must be a row-level predicate"
  | .secondFilter => "aggregate already has a filter"
  | .filterOnOther => "filters apply to aggregates only"
  | .shiftNotRowLevel function => function ++ " argument must be a row-level expression"
  | .windowKeyNotRowLevel => "window keys must be row-level expressions"
  | .qualifiedAggregateOver => "DISTINCT or filtered aggregates cannot be windowed"
  | .overOnOther => "OVER applies to window functions and aggregates only"
  | .unknownAggregate name => "unknown aggregate: " ++ name
  | .missingArgument name => name ++ " requires an argument"
  | .aggregateInProjection output => output ++ " is an aggregate; use aggregate() instead"
  | .aggregateInFilter => "aggregate in filter predicate; use having()"
  | .aggregateInSortKey => "aggregate in sort key"
  | .nothingToAggregate => "nothing to aggregate"
  | .keyNotRowLevel output => "grouping key " ++ output ++ " must be a row-level expression"
  | .notAnAggregate output => output ++ " is not an aggregate"
  | .ungroupedColumn column output =>
    "column " ++ column ++ " in " ++ output ++ " is neither grouped nor aggregated"
  | .joinPredicateNotRowLevel => "join predicates must be row-level"
  | .groupedAndWindowed output => output ++ " mixes grouped and windowed aggregation"
  | .windowInHaving => "window function in having predicate"

/-- Any other fault in the shape of a plan. -/
inductive PlanFault where
  | emptyCase
  | wrongArity (function : String) (count : Nat)
  | emptyProjection
  | emptyLimit
  | crossJoinPredicates
  | missingPredicates (join : String)
  | notAJoin (node : String)
  | notAWindow (output : String)
  | unsupportedLiteral (value : Json)
  | invalidDate (text : String) (fault : CalendarFault)
  | invalidTimestamp (text : String)
  | unknownFunction (name : String)
  | missingArgument (name : String)
  | offsetNotLiteral (name : String)
  | unknownWindowFunction (name : String)
  deriving Repr

def PlanFault.message : PlanFault → String
  | .emptyCase => "CASE requires at least one branch"
  | .wrongArity function count => function ++ " called with " ++ toString count ++ " arguments"
  | .emptyProjection => "projection needs at least one column"
  | .emptyLimit => "limit without a count or offset"
  | .crossJoinPredicates => "cross join takes no predicates"
  | .missingPredicates join => join ++ " join requires at least one predicate"
  | .notAJoin node => node ++ " is not a join"
  | .notAWindow output => output ++ " is not a window expression"
  | .unsupportedLiteral value => "unsupported literal: " ++ value.text
  | .invalidDate text fault => "invalid date literal " ++ Text.quoted text ++ ": " ++ fault.message
  | .invalidTimestamp text => "invalid timestamp literal " ++ Text.quoted text
  | .unknownFunction name => "unknown function: " ++ name
  | .missingArgument name => name ++ " requires an argument"
  | .offsetNotLiteral name => name ++ " offset must be an integer literal"
  | .unknownWindowFunction name => "unknown window function: " ++ name

/-- Why an expression or a relation does not exist. -/
inductive PlanError where
  | typeMismatch (context : String) (expected : Expected) (actual : DataType)
  | columnNotFound (column : String) (available : List String)
  | ambiguousColumn (column : String) (candidates : List String)
  | duplicateColumn (name : String)
  | invalidAggregation (fault : AggregationFault)
  | tableNotFound (name : String)
  | invalidPlan (fault : PlanFault)
  deriving Repr

def PlanError.message : PlanError → String
  | .typeMismatch context expected actual =>
    "Type mismatch in " ++ context ++ ": expected " ++ expected.text ++ ", got " ++ actual.text
  | .columnNotFound column available =>
    "Column not found: " ++ column ++ ". Available columns: " ++ Text.quotedList available
  | .ambiguousColumn column candidates =>
    "Ambiguous column reference: " ++ column ++ ". Candidates: " ++ Text.quotedList candidates
  | .duplicateColumn name => "Duplicate output column: " ++ name
  | .invalidAggregation fault => "Invalid aggregation: " ++ fault.message
  | .tableNotFound name => "Table not found: " ++ name
  | .invalidPlan fault => "Invalid plan: " ++ fault.message

end PlanSql
