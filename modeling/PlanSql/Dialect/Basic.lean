import PlanSql.Json.Record

/-!
# Dialects and their descriptors

The SQL dialects statements are written in, the names they go by, and a record for each of what its
syntax has and lacks.
-/
namespace PlanSql

/-- A supported SQL dialect. -/
inductive Dialect where
  | postgres
  | duckdb
  | flink
  | spark
  | mysql
  | sqlite
  deriving DecidableEq, Repr, Inhabited

/-- The character around identifiers; inside one it is doubled. -/
inductive QuoteStyle where
  | doubleQuote
  | backtick
  deriving DecidableEq, Repr

def QuoteStyle.mark : QuoteStyle → Char
  | .doubleQuote => '"'
  | .backtick => '\x60'

/-- How string literals escape: by doubling the quote, or with backslashes. -/
inductive StringEscape where
  | standard
  | backslash
  deriving DecidableEq, Repr

/-- How an offset is written without a row limit: alone, or after a limit that is never reached. -/
inductive OffsetStyle where
  | bare
  | limitSentinel (limit : String)
  deriving DecidableEq, Repr

/-- The DDL statements and clauses that a dialect accepts. -/
structure DdlSupport where
  /-- The keyword for namespaces, if they can be created. -/
  databaseKeyword : Option String
  databaseIfNotExists : Bool
  databaseLocation : Bool
  dropDatabaseCascade : Bool
  temporaryView : Bool
  orReplaceView : Bool
  tableProperties : Bool
  analyzeTable : Bool
  deriving DecidableEq, Repr

/-- What the syntax of a dialect has and lacks. -/
structure Descriptor where
  name : String
  quote : QuoteStyle
  stringEscape : StringEscape
  /-- Dates are written `DATE '…'` and not as bare strings. -/
  typedTemporalLiterals : Bool
  supportsHaving : Bool
  supportsQualify : Bool
  supportsFilterClause : Bool
  supportsWindowFunctions : Bool
  windowRequiresOrderBy : Bool
  /-- The quotient of two integers loses its fraction. -/
  integerDivisionTruncates : Bool
  supportsRightJoin : Bool
  supportsFullJoin : Bool
  offsetWithoutLimit : OffsetStyle
  ddl : DdlSupport
  deriving DecidableEq, Repr

namespace Dialect

/-- All dialects, in the order they are listed. -/
def all : List Dialect := [.postgres, .duckdb, .flink, .spark, .mysql, .sqlite]

def name : Dialect → String
  | .postgres => "postgres"
  | .duckdb => "duckdb"
  | .flink => "flink"
  | .spark => "spark"
  | .mysql => "mysql"
  | .sqlite => "sqlite"

/-- The names a dialect is asked for by, in lower case. -/
def aliases : List (String × Dialect) := [
  ("postgres", .postgres), ("postgresql", .postgres), ("pg", .postgres), ("duckdb", .duckdb),
  ("flink", .flink), ("spark", .spark), ("pyspark", .spark), ("sparksql", .spark),
  ("mysql", .mysql), ("sqlite", .sqlite)]

/-- The dialect a name stands for, whatever the case of its ASCII letters. -/
def ofName? (name : String) : Option Dialect := aliases.lookup name.toLower

/-- The dialects by their own names, as documents give them. -/
def choices : List (String × Dialect) := all.map fun d => (d.name, d)

def ddlSupport : Dialect → DdlSupport
  | .postgres => ⟨some "DATABASE", false, false, false, true, true, false, false⟩
  | .duckdb => ⟨some "SCHEMA", true, false, true, true, true, false, false⟩
  | .flink => ⟨some "DATABASE", true, false, true, true, false, true, false⟩
  | .spark => ⟨some "DATABASE", true, true, true, true, true, false, true⟩
  | .mysql => ⟨some "DATABASE", true, false, false, false, true, false, false⟩
  | .sqlite => ⟨none, false, false, false, true, false, false, false⟩

def descriptor (d : Dialect) : Descriptor where
  name := d.name
  quote := match d with
    | .postgres | .duckdb | .sqlite => .doubleQuote
    | .flink | .spark | .mysql => .backtick
  stringEscape := match d with
    | .spark | .mysql => .backslash
    | .postgres | .duckdb | .flink | .sqlite => .standard
  typedTemporalLiterals := d != .sqlite
  supportsHaving := true
  supportsQualify := d == .duckdb
  supportsFilterClause := d != .flink && d != .mysql
  supportsWindowFunctions := true
  windowRequiresOrderBy := d == .flink
  integerDivisionTruncates := d == .postgres || d == .flink || d == .sqlite
  supportsRightJoin := d != .sqlite
  supportsFullJoin := d != .mysql && d != .sqlite
  offsetWithoutLimit := match d with
    | .mysql => .limitSentinel "18446744073709551615"
    | .sqlite => .limitSentinel "-1"
    | .postgres | .duckdb | .flink | .spark => .bare
  ddl := d.ddlSupport

end Dialect

def QuoteStyle.toJson : QuoteStyle → Json
  | .doubleQuote => .string "double_quote"
  | .backtick => .string "backtick"

def StringEscape.toJson : StringEscape → Json
  | .standard => .string "standard"
  | .backslash => .string "backslash"

def OffsetStyle.toJson : OffsetStyle → Json
  | .bare => .object [("style", .string "bare")]
  | .limitSentinel limit => .object [("style", .string "limit_sentinel"), ("limit", .string limit)]

def DdlSupport.toJson (s : DdlSupport) : Json := .object [
  ("database_keyword", Json.optionalString s.databaseKeyword),
  ("database_if_not_exists", .bool s.databaseIfNotExists),
  ("database_location", .bool s.databaseLocation),
  ("drop_database_cascade", .bool s.dropDatabaseCascade),
  ("temporary_view", .bool s.temporaryView),
  ("or_replace_view", .bool s.orReplaceView),
  ("table_properties", .bool s.tableProperties),
  ("analyze_table", .bool s.analyzeTable)]

/-- The members of a descriptor's JSON form. -/
def Descriptor.members (d : Descriptor) : List (String × Json) := [
  ("name", .string d.name),
  ("quote", d.quote.toJson),
  ("string_escape", d.stringEscape.toJson),
  ("typed_temporal_literals", .bool d.typedTemporalLiterals),
  ("supports_having", .bool d.supportsHaving),
  ("supports_qualify", .bool d.supportsQualify),
  ("supports_filter_clause", .bool d.supportsFilterClause),
  ("supports_window_functions", .bool d.supportsWindowFunctions),
  ("window_requires_order_by", .bool d.windowRequiresOrderBy),
  ("integer_division_truncates", .bool d.integerDivisionTruncates),
  ("supports_right_join", .bool d.supportsRightJoin),
  ("supports_full_join", .bool d.supportsFullJoin),
  ("offset_without_limit", d.offsetWithoutLimit.toJson),
  ("ddl", d.ddl.toJson)]

end PlanSql
