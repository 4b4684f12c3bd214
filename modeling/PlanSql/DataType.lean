import PlanSql.Source

/-!
# Column types and schemas

Semantic column types, when values of two types may be compared, and the narrowest type that both
convert to. `null` is the type of a value that is always absent; it converts to every type.
-/
namespace PlanSql

/-- A semantic column type. -/
inductive DataType where
  | bool
  | int8
  | int16
  | int32
  | int64
  | float32
  | float64
  | decimal (precision scale : Nat)
  | string
  | binary
  | date
  | time
  | timestamp
  | interval
  | null
  deriving DecidableEq, Repr, Inhabited

namespace DataType

def isInteger : DataType → Bool
  | .int8 | .int16 | .int32 | .int64 => true
  | _ => false

def isFloating : DataType → Bool
  | .float32 | .float64 => true
  | _ => false

def isDecimal : DataType → Bool
  | .decimal _ _ => true
  | _ => false

def isNumeric (t : DataType) : Bool := t.isInteger || t.isFloating || t.isDecimal

def isTemporal : DataType → Bool
  | .date | .time | .timestamp => true
  | _ => false

def isNull : DataType → Bool
  | .null => true
  | _ => false

/-- Boolean or always absent, as a condition has to be. -/
def isCondition (t : DataType) : Bool := t = .bool || t = .null

/-- Text or always absent. -/
def isText (t : DataType) : Bool := t = .string || t = .null

/-- Whether values of the two types may be compared without a conversion. -/
def comparable (s t : DataType) : Bool :=
  s.isNull || t.isNull || (s.isNumeric && t.isNumeric)
    || (s = .date && t = .timestamp) || (s = .timestamp && t = .date) || s = t

/-- The place of an integer type by width; zero for the other types. -/
def integerRank : DataType → Nat
  | .int8 => 1
  | .int16 => 2
  | .int32 => 3
  | .int64 => 4
  | _ => 0

/-- Whether single-precision numbers hold all values of the type exactly. -/
def fitsFloat32 : DataType → Bool
  | .int64 | .decimal _ _ => false
  | _ => true

/-- The common type of two numeric types. -/
def promote (s t : DataType) : DataType :=
  match s, t with
  | .float64, _ | _, .float64 => .float64
  | .float32, r | r, .float32 => if r.fitsFloat32 then .float32 else .float64
  | .decimal p₁ s₁, .decimal p₂ s₂ => .decimal (max p₁ p₂) (max s₁ s₂)
  | .decimal p s, _ | _, .decimal p s => .decimal p s
  | s, t => if t.integerRank ≤ s.integerRank then s else t

/-- The type that values of both types convert to, if there is one. -/
def commonType (s t : DataType) : Option DataType :=
  if s.isNull then some t
  else if t.isNull || s = t then some s
  else if s.isNumeric && t.isNumeric then some (promote s t)
  else if (s = .date && t = .timestamp) || (s = .timestamp && t = .date) then some .timestamp
  else none

/-- The type as it stands in messages and names. -/
def text : DataType → String
  | .bool => "boolean"
  | .int8 => "int8"
  | .int16 => "int16"
  | .int32 => "int32"
  | .int64 => "int64"
  | .float32 => "float32"
  | .float64 => "float64"
  | .decimal p s => "decimal(" ++ toString p ++ ", " ++ toString s ++ ")"
  | .string => "string"
  | .binary => "binary"
  | .date => "date"
  | .time => "time"
  | .timestamp => "timestamp"
  | .interval => "interval"
  | .null => "null"

/-- The types without parameters, by their names in documents. -/
def plainNames : List (String × DataType) := [
  ("bool", .bool), ("int8", .int8), ("int16", .int16), ("int32", .int32), ("int64", .int64),
  ("float32", .float32), ("float64", .float64), ("string", .string), ("binary", .binary),
  ("date", .date), ("time", .time), ("timestamp", .timestamp), ("interval", .interval),
  ("null", .null)]

def toJson : DataType → Json
  | .decimal p s => .object [("decimal", .object [("precision", .nat p), ("scale", .nat s)])]
  | .bool => .string "bool"
  | t => .string t.text

/-- A type read from a document; precision and scale go up to 255. -/
def ofSource? {δ : Type} (src : Source δ) (d : δ) : Option DataType :=
  match src.alternative? d with
  | some ("decimal", some content) => do
    let fields ← src.fields? ["precision", "scale"] content
    let precision ← fields.required "precision" (src.natUpTo? 255)
    let scale ← fields.required "scale" (src.natUpTo? 255)
    some (.decimal precision scale)
  | _ => src.choice? plainNames d

end DataType

/-- A named, typed column. -/
structure Field where
  name : String
  dataType : DataType
  nullable : Bool
  deriving DecidableEq, Repr, Inhabited

/-- An ordered list of columns. -/
abbrev Schema := List Field

namespace Field

/-- A column that may hold absent values. -/
def ofType (name : String) (dataType : DataType) : Field := ⟨name, dataType, true⟩

def toJson (f : Field) : Json :=
  .object [
    ("name", .string f.name), ("data_type", f.dataType.toJson), ("nullable", .bool f.nullable)]

/-- A column read from a document; it is nullable unless it says otherwise. -/
def ofSource? {δ : Type} (src : Source δ) (d : δ) : Option Field := do
  let fields ← src.fields? ["name", "data_type", "nullable"] d
  let name ← fields.required "name" src.text?
  let dataType ← fields.required "data_type" (DataType.ofSource? src)
  let nullable ← fields.withDefault "nullable" true src.bool?
  some ⟨name, dataType, nullable⟩

end Field

namespace Schema

def names (schema : Schema) : List String := schema.map (·.name)

def find? (schema : Schema) (name : String) : Option Field :=
  List.find? (fun f => f.name = name) schema

/-- The first column name that stands twice. -/
def repeatedName? (schema : Schema) : Option String := firstRepeated? schema.names

end Schema

structure TableSchema where
  name : String
  fields : Schema
  deriving DecidableEq, Repr, Inhabited

namespace TableSchema

def toJson (t : TableSchema) : Json :=
  .object [("name", .string t.name), ("fields", .array (t.fields.map Field.toJson))]

def ofSource? {δ : Type} (src : Source δ) (d : δ) : Option TableSchema := do
  let fields ← src.fields? ["name", "fields"] d
  let name ← fields.required "name" src.text?
  let columns ← fields.required "fields" (src.list? (Field.ofSource? src))
  some ⟨name, columns⟩

end TableSchema

/-- The tables that plans may read, each name once. -/
abbrev Catalog := List (String × Schema)

namespace Catalog

/-- The catalog with one more table, in the place of one of the same name. -/
def insert (catalog : Catalog) (table : TableSchema) : Catalog :=
  (table.name, table.fields) :: catalog.filter fun entry => entry.1 ≠ table.name

/-- The catalog of a list of tables; of two with the same name the later one counts. -/
def ofTables (tables : List TableSchema) : Catalog := tables.foldl insert []

def schema? (catalog : Catalog) (name : String) : Option Schema := List.lookup name catalog

/-- The table names in order. -/
def tableNames (catalog : Catalog) : List String :=
  (catalog.map (·.1)).mergeSort fun a b => a ≤ b

end Catalog

end PlanSql
