import PlanSql.Relation.Construction

/-!
# Data definition statements

Statements that define tables, views and databases. The query of a view is of any type: a plan while
a statement is a document, a relation once its tables are known.
-/
namespace PlanSql

/-- A data definition statement whose views have queries of type `ρ`. -/
inductive Ddl (ρ : Type) where
  | createTable (name : String) (fields : Schema) (ifNotExists : Bool)
      (properties : List (String × String))
  | createView (name : String) (query : ρ) (temporary orReplace : Bool)
  | dropTable (name : String) (ifExists : Bool)
  | dropView (name : String) (ifExists temporary : Bool)
  | renameTable (source target : String)
  | createDatabase (name : String) (ifNotExists : Bool) (location : Option String)
  | dropDatabase (name : String) (ifExists cascade : Bool)
  | analyzeTable (name : String) (noScan : Bool)
  deriving Repr

namespace Ddl

variable {ρ : Type}

def kindName : Ddl ρ → String
  | .createTable _ _ _ _ => "CreateTable"
  | .createView _ _ _ _ => "CreateView"
  | .dropTable _ _ => "DropTable"
  | .dropView _ _ _ => "DropView"
  | .renameTable _ _ => "RenameTable"
  | .createDatabase _ _ _ => "CreateDatabase"
  | .dropDatabase _ _ _ => "DropDatabase"
  | .analyzeTable _ _ => "AnalyzeTable"

end Ddl

end PlanSql
