import PlanSql.Digest.Sha256
import PlanSql.Fragment.OfRelation
import PlanSql.Sql.Rendering

/-!
# Compiled queries

A compiled query is the text of a relation in a dialect, the columns of its result, and a
fingerprint that tells texts and dialects apart.
-/
namespace PlanSql

/-- A statement's text and the columns of its result. -/
structure CompiledQuery where
  sql : String
  schema : Schema
  dialect : Dialect
  deriving Repr

/-- The digest of the dialect's name and the text, set apart by a null character. -/
def CompiledQuery.fingerprint (q : CompiledQuery) : String :=
  Sha256.ofText (q.dialect.name ++ "\x00" ++ q.sql)

/-- A relation as a query of the target's dialect. -/
def Relation.compile (t : Target) (r : Relation) : Except CompileError CompiledQuery := do
  let select ← r.toSelect t
  return ⟨Sql.Select.text t.descriptor select, r.schema, t.dialect⟩

/-- The text and type of an expression, columns going by their names alone. -/
def Expr.compile (t : Target) (e : Expr) : Except CompileError (String × DataType) := do
  let sql ← e.lower t .bare
  return (sql.text t.descriptor, e.dataType)

end PlanSql
