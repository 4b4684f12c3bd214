import PlanSql.Ddl.Reading
import PlanSql.Json.Streaming

/-!
# Requests for SQL

A request says what is to be compiled and for which dialect. It is a record; keys that it does not
know are passed over, and the nesting of the record counts towards the limit on its parts.
-/
namespace PlanSql.Service

open Json Reading

/-- A request about a subject; without the name of a dialect it is for the default one. -/
structure Request (α : Type) where
  subject : α
  dialect : Option String
  deriving Repr

abbrev CompileRequest := Request Plan

abbrev DdlRequest := Request (Ddl Plan)

namespace Request

variable {α : Type}

/-- The parts of a request that have been read. -/
structure Parts (α : Type) where
  subject : Option α
  dialect : Option (Option String)

/-- One member of a request: its subject under `name`, or its dialect. -/
def member (name : String) (read : Reading α) (parts : Parts α) (key : String) :
    Reading (Parts α) := do
  if key = name then
    if parts.subject.isSome then throw .shape
    symbol ':'
    return { parts with subject := some (← read) }
  else if key = "dialect" then
    if parts.dialect.isSome then throw .shape
    symbol ':'
    return { parts with dialect := some (← optionalText) }
  else
    symbol ':'
    ignored
    return parts

/-- A request whose subject stands under `name` and is read by `read`. -/
def reading (name : String) (read : Reading α) : Reading (Request α) := do
  match ← peek with
  | some '\x7b' => do
    symbol '\x7b'
    let parts ← members (member name read) (← fuel) true ⟨none, none⟩
    let subject ← orShape parts.subject
    symbol '\x7d'
    return ⟨subject, parts.dialect.join⟩
  | some '[' => do
    symbol '['
    let some subject ← item? true read | throw .shape
    let dialect ← item? false optionalText
    symbol ']'
    return ⟨subject, dialect.join⟩
  | _ => noRecord

/-- How deeply the fields of a request's subject are nested. -/
def fieldDepth : Nat := maxDepth - 2

def plan : Reading Plan := do
  orShape (Plan.ofJson? (← tagged "op" Plan.shapes fieldDepth))

def statement : Reading (Ddl Plan) := do
  orShape (Ddl.ofJson? (← tagged "kind" Ddl.shapes fieldDepth))

end Request

/-- A request to compile a plan. -/
def CompileRequest.ofText (text : String) : Except Fault CompileRequest :=
  (Request.reading "plan" Request.plan).run text

/-- A request for a statement. -/
def DdlRequest.ofText (text : String) : Except Fault DdlRequest :=
  (Request.reading "statement" Request.statement).run text

end PlanSql.Service
