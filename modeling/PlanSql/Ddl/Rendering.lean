import PlanSql.Ddl.Basic
import PlanSql.Fragment.OfRelation
import PlanSql.Sql.Rendering

/-!
# Data definition statements as SQL

The pieces of SQL for each statement that the dialect has.
-/
namespace PlanSql.Ddl

open Sql Sql.Piece

/-- Keywords with a space after each. -/
def keywords (words : List String) : List Piece := words.flatMap fun w => [.word w, .space]

/-- Keywords that are there if the condition holds. -/
def keywordsIf (b : Bool) (words : List String) : List Piece := if b then keywords words else []

/-- The dialect does not have the statement. -/
def refuse {α : Type} (t : Target) (s : Ddl Relation) (limit : OperatorLimit) :
    Except CompileError α :=
  .error (.unsupportedOperator s.kindName t.dialect limit)

/-- Refuses the statement if the condition holds. -/
def refuseIf (t : Target) (s : Ddl Relation) (limit : OperatorLimit) (b : Bool) :
    Except CompileError Unit :=
  if b then s.refuse t limit else .ok ()

/-- The declaration of a column. -/
def columnPieces (t : Target) (s : Ddl Relation) (f : Field) : Except CompileError (List Piece) :=
  match t.dialect.columnTypeName? f.dataType with
  | none => s.refuse t (.noColumnType f.dataType)
  | some typeName => .ok ([.identifier f.name, .space, .word typeName]
      ++ if f.nullable then [] else [.space, .word "NOT", .space, .word "NULL"])

/-- A property and its value. -/
def propertyPieces (p : String × String) : List Piece :=
  [.string p.1, .space, .symbol "=", .space, .string p.2]

/-- The keyword for databases. -/
def databaseKeyword (t : Target) (s : Ddl Relation) (limit : OperatorLimit) :
    Except CompileError String :=
  match t.descriptor.ddl.databaseKeyword with
  | some keyword => .ok keyword
  | none => s.refuse t limit

/-- The pieces of a statement. -/
def pieces (t : Target) (s : Ddl Relation) : Except CompileError (List Piece) := do
  let ddl := t.descriptor.ddl
  match s with
  | .createTable name fields ifNotExists properties => do
    s.refuseIf t .noColumns fields.isEmpty
    s.refuseIf t .tableProperties (!properties.isEmpty && !ddl.tableProperties)
    let columns ← fields.mapM (s.columnPieces t)
    return keywords ["CREATE", "TABLE"] ++ keywordsIf ifNotExists ["IF", "NOT", "EXISTS"]
      ++ [.identifier name, .space] ++ parens (separated comma columns)
      ++ if properties.isEmpty then []
        else .space :: keywords ["WITH"] ++ parens (separated comma (properties.map propertyPieces))
  | .createView name query temporary orReplace => do
    s.refuseIf t .temporaryViews (temporary && !ddl.temporaryView)
    s.refuseIf t .replacedViews (orReplace && !ddl.orReplaceView)
    let select ← query.toSelect t
    return keywords ["CREATE"] ++ keywordsIf orReplace ["OR", "REPLACE"]
      ++ keywordsIf temporary ["TEMPORARY"] ++ keywords ["VIEW"] ++ [.identifier name]
      ++ around "AS" ++ Select.pieces t.descriptor select
  | .dropTable name ifExists =>
    return keywords ["DROP", "TABLE"] ++ keywordsIf ifExists ["IF", "EXISTS"] ++ [.identifier name]
  | .dropView name ifExists temporary => do
    s.refuseIf t .temporaryViews (temporary && !ddl.temporaryView)
    return keywords ["DROP"] ++ keywordsIf (temporary && t.dialect = .flink) ["TEMPORARY"]
      ++ keywords ["VIEW"] ++ keywordsIf ifExists ["IF", "EXISTS"] ++ [.identifier name]
  | .renameTable source target =>
    return keywords ["ALTER", "TABLE"] ++ [.identifier source, .space] ++ keywords ["RENAME", "TO"]
      ++ [.identifier target]
  | .createDatabase name ifNotExists location => do
    let keyword ← s.databaseKeyword t .databaseCreation
    s.refuseIf t .databaseIfNotExists (ifNotExists && !ddl.databaseIfNotExists)
    s.refuseIf t .databaseLocations (location.isSome && !ddl.databaseLocation)
    return keywords ["CREATE", keyword] ++ keywordsIf ifNotExists ["IF", "NOT", "EXISTS"]
      ++ [.identifier name] ++ match location with
        | none => []
        | some path => .space :: keywords ["LOCATION"] ++ [.string path]
  | .dropDatabase name ifExists cascade => do
    let keyword ← s.databaseKeyword t .databaseRemoval
    s.refuseIf t .cascade (cascade && !ddl.dropDatabaseCascade)
    return keywords ["DROP", keyword] ++ keywordsIf ifExists ["IF", "EXISTS"] ++ [.identifier name]
      ++ if cascade then [.space, .word "CASCADE"] else []
  | .analyzeTable name noScan => do
    s.refuseIf t .analyzeTable (!ddl.analyzeTable)
    return keywords ["ANALYZE", "TABLE"] ++ [.identifier name, .space, .word "COMPUTE", .space,
      .word "STATISTICS"] ++ if noScan then [.space, .word "NOSCAN"] else []

/-- The text of a statement. -/
def toSql (t : Target) (s : Ddl Relation) : Except CompileError String := do
  let ps ← s.pieces t
  return t.descriptor.text ps

end PlanSql.Ddl
