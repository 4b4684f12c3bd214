import PlanSql.PlanError
import PlanSql.Rule.RuleTable

/-!
# Faults of compilation

Why a plan or a statement has no SQL in a dialect.
-/
namespace PlanSql

/-- What a dialect lacks for an operator or a statement. -/
inductive OperatorLimit where
  | having
  | outerJoin (kind : String)
  | noColumns
  | tableProperties
  | noColumnType (type : DataType)
  | temporaryViews
  | replacedViews
  | databaseCreation
  | databaseRemoval
  | databaseIfNotExists
  | databaseLocations
  | cascade
  | analyzeTable
  deriving DecidableEq, Repr

def OperatorLimit.message : OperatorLimit → String
  | .having => "HAVING is not available"
  | .outerJoin kind => kind ++ " outer join is not available"
  | .noColumns => "a table needs at least one column"
  | .tableProperties => "table properties are not available"
  | .noColumnType type => "no column type for " ++ type.text
  | .temporaryViews => "temporary views are not available"
  | .replacedViews => "CREATE OR REPLACE VIEW is not available"
  | .databaseCreation => "databases cannot be created"
  | .databaseRemoval => "databases cannot be dropped"
  | .databaseIfNotExists => "IF NOT EXISTS is not available for databases"
  | .databaseLocations => "database locations are not available"
  | .cascade => "CASCADE is not available"
  | .analyzeTable => "ANALYZE TABLE is not available"

/-- What a dialect or its rules lack for an expression. -/
inductive ExpressionLimit where
  | nonFinite (value : Binary64)
  | noCastTarget (type : DataType)
  | noPlainAggregate
  | windowFunctions
  | windowWithoutOrder
  | noPlainWindow
  | rule (reason : String)
  | noRule (function : String)
  | missingArgument (index count : Nat)
  | argumentsOutsideCall
  deriving DecidableEq, Repr

def ExpressionLimit.message : ExpressionLimit → String
  | .nonFinite value => "non-finite float literal " ++ value.plain
  | .noCastTarget type => "no cast target for " ++ type.text
  | .noPlainAggregate => "DISTINCT or FILTER requires a plain aggregate call"
  | .windowFunctions => "window functions are not available"
  | .windowWithoutOrder => "window requires an ORDER BY"
  | .noPlainWindow => "OVER requires a plain function call"
  | .rule reason => reason
  | .noRule function => "no rendering rule for " ++ function
  | .missingArgument index count =>
    "rule reads argument " ++ toString index ++ " of " ++ toString count
  | .argumentsOutsideCall => "argument list used outside a call"

/-- Why there is no SQL. -/
inductive CompileError where
  | unsupportedOperator (operator : String) (dialect : Dialect) (limit : OperatorLimit)
  | unsupportedExpression (expression : String) (dialect : Dialect) (limit : ExpressionLimit)
  | plan (error : PlanError)
  | registry (error : RegistryError)
  deriving Repr

namespace CompileError

/-- The short name that the error is counted under. -/
def label : CompileError → String
  | .unsupportedOperator _ _ _ => "unsupported_operator"
  | .unsupportedExpression _ _ _ => "unsupported_expression"
  | .plan (.ambiguousColumn _ _) => "ambiguous_column"
  | .plan (.typeMismatch _ _ _) => "type_mismatch"
  | .plan (.columnNotFound _ _) => "column_not_found"
  | .plan _ => "invalid_plan"
  | .registry _ => "registry"

def message : CompileError → String
  | .unsupportedOperator operator dialect limit =>
    "Unsupported operator " ++ operator ++ " for dialect " ++ dialect.name ++ ": " ++ limit.message
  | .unsupportedExpression expression dialect limit =>
    "Unsupported expression " ++ expression ++ " for dialect " ++ dialect.name ++ ": "
      ++ limit.message
  | .plan error =>
    match error with
    | .ambiguousColumn _ _ | .typeMismatch _ _ _ | .columnNotFound _ _ => error.message
    | _ => "Invalid plan: " ++ error.message
  | .registry error => "Registry error: " ++ error.message

end CompileError

end PlanSql
