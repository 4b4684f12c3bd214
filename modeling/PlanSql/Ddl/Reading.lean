import PlanSql.Ddl.Basic
import PlanSql.Plan.Reading
import PlanSql.Plan.Resolution

/-!
# Data definition statements from JSON

Data definition statements from JSON, as records tagged by `kind`, and what they mean over a
catalog.
-/
namespace PlanSql

/-- A value of type `α` put into a list in key order, in the place of one with the same key. -/
def insertSorted {α : Type} (key : String) (value : α) : List (String × α) → List (String × α)
  | [] => [(key, value)]
  | (k, v) :: rest =>
    if key < k then (key, value) :: (k, v) :: rest
    else if key = k then (key, value) :: rest
    else (k, v) :: insertSorted key value rest

/-- A table of texts in key order, the last of equal keys being kept. -/
def Json.texts? : Json → Option (List (String × String))
  | .object members => do
    let texts ← members.mapM fun (key, value) => value.string?.map fun s => (key, s)
    some (texts.foldl (fun done (key, s) => insertSorted key s done) [])
  | _ => none

namespace Ddl

/-- The shapes of statements and their fields in order. -/
def shapes : Json.Shapes := [
  ("create_table", ["name", "fields", "if_not_exists", "properties"]),
  ("create_view", ["name", "query", "temporary", "or_replace"]),
  ("drop_table", ["name", "if_exists"]),
  ("drop_view", ["name", "if_exists", "temporary"]),
  ("rename_table", ["from", "to"]),
  ("create_database", ["name", "if_not_exists", "location"]),
  ("drop_database", ["name", "if_exists", "cascade"]),
  ("analyze_table", ["name", "noscan"])]

/-- A statement of the given shape. -/
def ofFields (shape : String) (fields : Fields Json) : Option (Ddl Plan) :=
  let name := fields.required "name" Json.string?
  let flag := Term.flag fields
  match shape with
  | "create_table" => do
    let name ← name
    let columns ← fields.required "fields" (Json.items? (Field.ofSource? Json.nested))
    let ifNotExists ← flag "if_not_exists"
    let properties ← fields.withDefault "properties" [] Json.texts?
    some (.createTable name columns ifNotExists properties)
  | "create_view" => do
    let name ← name
    let query ← fields.required "query" Plan.ofNested?
    let temporary ← flag "temporary"
    let orReplace ← flag "or_replace"
    some (.createView name query temporary orReplace)
  | "drop_table" => do
    let name ← name
    let ifExists ← flag "if_exists"
    some (.dropTable name ifExists)
  | "drop_view" => do
    let name ← name
    let ifExists ← flag "if_exists"
    let temporary ← flag "temporary"
    some (.dropView name ifExists temporary)
  | "rename_table" => do
    let source ← fields.required "from" Json.string?
    let target ← fields.required "to" Json.string?
    some (.renameTable source target)
  | "create_database" => do
    let name ← name
    let ifNotExists ← flag "if_not_exists"
    let location ← Term.optionalName fields "location"
    some (.createDatabase name ifNotExists location)
  | "drop_database" => do
    let name ← name
    let ifExists ← flag "if_exists"
    let cascade ← flag "cascade"
    some (.dropDatabase name ifExists cascade)
  | "analyze_table" => do
    let name ← name
    let noScan ← flag "noscan"
    some (.analyzeTable name noScan)
  | _ => none

/-- A statement from the value of a text. -/
def ofJson? (j : Json) : Option (Ddl Plan) :=
  match j.tagged? "kind" shapes false with
  | none => none
  | some (shape, fields) => ofFields shape fields

/-- The statement over the tables of a catalog. The columns of a table have different names. -/
def resolve (catalog : Catalog) : Ddl Plan → Except PlanError (Ddl Relation)
  | .createTable name fields ifNotExists properties => do
    fields.distinctNames
    return .createTable name fields ifNotExists properties
  | .createView name query temporary orReplace => do
    let query ← query.relation catalog
    return .createView name query temporary orReplace
  | .dropTable name ifExists => .ok (.dropTable name ifExists)
  | .dropView name ifExists temporary => .ok (.dropView name ifExists temporary)
  | .renameTable source target => .ok (.renameTable source target)
  | .createDatabase name ifNotExists location => .ok (.createDatabase name ifNotExists location)
  | .dropDatabase name ifExists cascade => .ok (.dropDatabase name ifExists cascade)
  | .analyzeTable name noScan => .ok (.analyzeTable name noScan)

end Ddl

end PlanSql
