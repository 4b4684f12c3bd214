import PlanSql.DataType
import PlanSql.Dialect.Basic

/-!
# Type names by dialect

The names of column types in each dialect, for declaring columns and for casts. A type that a
dialect cannot express has no name.
-/
namespace PlanSql.Dialect

/-- The keyword of exact decimal numbers. -/
def decimalKeyword : Dialect → String
  | .postgres | .sqlite => "NUMERIC"
  | _ => "DECIMAL"

/-- The name of a type in column declarations. -/
def columnTypeName? (d : Dialect) (t : DataType) : Option String :=
  match t with
  | .null => none
  | .decimal p s => some (d.decimalKeyword ++ "(" ++ toString p ++ ", " ++ toString s ++ ")")
  | .bool => match d with
    | .sqlite => some "INTEGER"
    | _ => some "BOOLEAN"
  | .int8 => match d with
    | .sqlite => some "INTEGER"
    | .postgres => some "SMALLINT"
    | _ => some "TINYINT"
  | .int16 => match d with
    | .sqlite => some "INTEGER"
    | _ => some "SMALLINT"
  | .int32 => match d with
    | .flink | .spark | .mysql => some "INT"
    | _ => some "INTEGER"
  | .int64 => match d with
    | .sqlite => some "INTEGER"
    | _ => some "BIGINT"
  | .float32 => match d with
    | .sqlite | .postgres => some "REAL"
    | _ => some "FLOAT"
  | .float64 => match d with
    | .sqlite => some "REAL"
    | .postgres => some "DOUBLE PRECISION"
    | _ => some "DOUBLE"
  | .string => match d with
    | .postgres | .mysql | .sqlite => some "TEXT"
    | .duckdb => some "VARCHAR"
    | _ => some "STRING"
  | .binary => match d with
    | .postgres => some "BYTEA"
    | .duckdb | .sqlite => some "BLOB"
    | .flink => some "BYTES"
    | _ => some "BINARY"
  | .date => match d with
    | .sqlite => some "TEXT"
    | _ => some "DATE"
  | .time => match d with
    | .sqlite => some "TEXT"
    | .spark => none
    | _ => some "TIME"
  | .timestamp => match d with
    | .sqlite => some "TEXT"
    | .mysql => some "DATETIME"
    | _ => some "TIMESTAMP"
  | .interval => match d with
    | .postgres | .duckdb => some "INTERVAL"
    | _ => none

/-- The name of a type as the target of a cast. -/
def castTypeName? (d : Dialect) (t : DataType) : Option String :=
  if d = .mysql ∧ (t = .bool ∨ t.isInteger) then some "SIGNED"
  else if d = .mysql ∧ t = .string then some "CHAR"
  else d.columnTypeName? t

end PlanSql.Dialect
