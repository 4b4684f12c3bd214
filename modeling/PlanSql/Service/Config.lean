import PlanSql.Dialect.Basic
import PlanSql.DataType
import PlanSql.Yaml.Shape

/-!
# Configuration of the service

The configuration of the service. Every section and every field has a default; variables of the
environment take the place of what a file says.
-/
namespace PlanSql.Service

structure ServerConfig where
  host : String
  port : Nat
  deriving DecidableEq, Repr

structure LoggingConfig where
  level : String
  format : String
  output : String
  directory : String
  deriving DecidableEq, Repr

structure Config where
  server : ServerConfig
  /-- The dialect of requests that name none. -/
  defaultDialect : Dialect
  logging : LoggingConfig
  /-- The tables that plans may read. -/
  tables : List TableSchema
  deriving DecidableEq, Repr

/-- The greatest port number. -/
def maxPort : Nat := pow2 16 - 1

def ServerConfig.default : ServerConfig := ⟨"127.0.0.1", 8080⟩

def LoggingConfig.default : LoggingConfig := ⟨"info", "pretty", "stdout", "./logs"⟩

namespace Config

def default : Config := ⟨.default, .duckdb, .default, []⟩

def catalog (c : Config) : Catalog := .ofTables c.tables

section Reading

variable {δ : Type} (src : Source δ)

def readServer (d : δ) : Option ServerConfig := do
  let base := ServerConfig.default
  let fields ← src.fields? ["host", "port"] d
  let host ← fields.withDefault "host" base.host src.text?
  let port ← fields.withDefault "port" base.port (src.natUpTo? maxPort)
  some ⟨host, port⟩

def readCompiler (d : δ) : Option Dialect := do
  let fields ← src.fields? ["default_dialect"] d
  fields.withDefault "default_dialect" Config.default.defaultDialect (src.choice? Dialect.choices)

def readLogging (d : δ) : Option LoggingConfig := do
  let base := LoggingConfig.default
  let fields ← src.fields? ["level", "format", "output", "directory"] d
  let level ← fields.withDefault "level" base.level src.text?
  let format ← fields.withDefault "format" base.format src.text?
  let output ← fields.withDefault "output" base.output src.text?
  let directory ← fields.withDefault "directory" base.directory src.text?
  some ⟨level, format, output, directory⟩

def readTables (d : δ) : Option (List TableSchema) := do
  let fields ← src.fields? ["tables"] d
  fields.withDefault "tables" [] (src.list? (TableSchema.ofSource? src))

/-- The configuration that a document gives. -/
def ofSource? (d : δ) : Option Config := do
  let base := Config.default
  let fields ← src.fields? ["server", "compiler", "logging", "catalog"] d
  let server ← fields.withDefault "server" base.server (readServer src)
  let dialect ← fields.withDefault "compiler" base.defaultDialect (readCompiler src)
  let logging ← fields.withDefault "logging" base.logging (readLogging src)
  let tables ← fields.withDefault "catalog" base.tables (readTables src)
  some ⟨server, dialect, logging, tables⟩

end Reading

/-- What is read of the documents that give a column. -/
def columnShape : Yaml.Shape := .record [
  ("name", .leaf), ("data_type", .record [("precision", .leaf), ("scale", .leaf)]),
  ("nullable", .leaf)]

/-- What is read of the documents that give a configuration. -/
def shape : Yaml.Shape := .record [
  ("server", .record [("host", .leaf), ("port", .leaf)]),
  ("compiler", .record [("default_dialect", .leaf)]),
  ("logging", .record [
    ("level", .leaf), ("format", .leaf), ("output", .leaf), ("directory", .leaf)]),
  ("catalog", .record [
    ("tables", .list (.record [("name", .leaf), ("fields", .list columnShape)]))])]

def toJson (c : Config) : Json := .object [
  ("server", .object [("host", .string c.server.host), ("port", .nat c.server.port)]),
  ("compiler", .object [("default_dialect", .string c.defaultDialect.name)]),
  ("logging", .object [("level", .string c.logging.level), ("format", .string c.logging.format),
    ("output", .string c.logging.output), ("directory", .string c.logging.directory)]),
  ("catalog", .object [("tables", .array (c.tables.map TableSchema.toJson))])]

end Config

/-- Why there is no configuration. -/
inductive ConfigError where
  | unreadable
  | malformed
  | invalidValue (name value : String)
  deriving DecidableEq, Repr

/-- The message for a variable that has no meaning; the other faults are explained elsewhere. -/
def ConfigError.message? : ConfigError → Option String
  | .invalidValue name value => some ("Invalid value for " ++ name ++ ": " ++ value)
  | _ => none

/-- Variables of the environment. -/
abbrev Environment := String → Option String

/-- A port number as a variable gives it: digits, possibly after a plus sign. -/
def port? (text : String) : Option Nat :=
  let cs := match text.toList with
    | '+' :: rest => rest
    | cs => cs
  if cs.isEmpty || !cs.all Char.isDigit then none
  else (some (Text.digitsValue cs)).filter fun n => n ≤ maxPort

/-- The value of a variable, or `fallback` if it is not set. -/
def Environment.get {α : Type} (env : Environment) (name : String) (fallback : α)
    (read : String → Option α) : Except ConfigError α :=
  match env name with
  | none => .ok fallback
  | some value =>
    match read value with
    | some a => .ok a
    | none => .error (.invalidValue name value)

namespace Config

/-- The configuration with what the environment says. -/
def withEnvironment (c : Config) (env : Environment) : Except ConfigError Config := do
  let host ← env.get "RELC_SERVER_HOST" c.server.host some
  let port ← env.get "RELC_SERVER_PORT" c.server.port port?
  let dialect ← env.get "RELC_DEFAULT_DIALECT" c.defaultDialect Dialect.ofName?
  let level ← env.get "RUST_LOG" c.logging.level some
  let format ← env.get "LOG_FORMAT" c.logging.format some
  let output ← env.get "LOG_OUTPUT" c.logging.output some
  let directory ← env.get "LOG_DIR" c.logging.directory some
  return ⟨⟨host, port⟩, dialect, ⟨level, format, output, directory⟩, c.tables⟩

/-- The configuration of a file's text and the environment; `none` is a file that cannot be read. -/
def load (file : Option String) (env : Environment) : Except ConfigError Config :=
  match file with
  | none => .error .unreadable
  | some text =>
    match ((Yaml.Part.ofText? text).filter shape.admits).bind (ofSource? Yaml.source) with
    | none => .error .malformed
    | some c => c.withEnvironment env

end Config

end PlanSql.Service
