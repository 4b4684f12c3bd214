import PlanSql.Ddl.Rendering
import PlanSql.Plan.Writing
import PlanSql.Query
import PlanSql.Service.Config
import PlanSql.Service.Metrics
import PlanSql.Service.Request
import PlanSql.Service.Response

/-!
# Answers of the service

What the service answers to requests for SQL and for information about itself. The answer to a
request depends on the setup and on the request alone. A request whose dialect is known is counted
once, under that dialect and its outcome; no other request is counted.
-/
namespace PlanSql.Service

/-- What the service works with. -/
structure Setup where
  catalog : Catalog
  rules : RuleTable
  /-- The dialect of requests that name none. -/
  defaultDialect : Dialect

/-- What a request for SQL came to. -/
inductive Verdict (α : Type) where
  | unknownDialect (error : RegistryError)
  | settled (dialect : Dialect) (result : Except CompileError α)

/-- The status of a request that has no SQL: what a dialect lacks is no fault of the request. -/
def errorStatus : CompileError → Status
  | .unsupportedOperator _ _ _ | .unsupportedExpression _ _ _ => .unprocessable
  | _ => .badRequest

/-- The body that explains why there is no SQL. -/
def errorBody (id : Json) (code message : String) : Json :=
  .object [("code", .string code), ("message", .string message), ("request_id", id)]

namespace Verdict

variable {α : Type}

/-- The series that a request is counted in. -/
def series? : Verdict α → Option Series
  | .unknownDialect _ => none
  | .settled d (.ok _) => some ⟨d, "ok"⟩
  | .settled d (.error e) => some ⟨d, e.label⟩

/-- The response to the request that goes by `id`; `members` tells of a success. -/
def response (id : Json) (members : α → List (String × Json)) : Verdict α → Response
  | .unknownDialect e => .json .badRequest (errorBody id "unknown_dialect" e.message)
  | .settled _ (.error e) => .json (errorStatus e) (errorBody id e.label e.message)
  | .settled d (.ok a) =>
    .json .ok (.object ([("request_id", id), ("dialect", .string d.name)] ++ members a))

end Verdict

/-- A compiled plan: its query, and the digest of the plan itself. -/
structure CompiledPlan where
  query : CompiledQuery
  planFingerprint : String

/-- What a response tells of a compiled plan. -/
def CompiledPlan.members (c : CompiledPlan) : List (String × Json) := [
  ("sql", .string c.query.sql),
  ("schema", .object [("fields", .array (c.query.schema.map Field.toJson))]),
  ("fingerprint", .string c.query.fingerprint),
  ("plan_fingerprint", .string c.planFingerprint)]

namespace Setup

def ofConfig (c : Config) : Setup := ⟨c.catalog, .builtin, c.defaultDialect⟩

/-- The dialect of a request. -/
def dialect (s : Setup) : Option String → Except RegistryError Dialect
  | none => .ok s.defaultDialect
  | some name => Dialect.ofName name

/-- The verdict on a request whose subject is compiled by `compile`. -/
def judge {α β : Type} (s : Setup) (compile : Target → α → Except CompileError β) (r : Request α) :
    Verdict β :=
  match s.dialect r.dialect with
  | .error e => .unknownDialect e
  | .ok d => .settled d (compile ⟨d, s.rules⟩ r.subject)

/-- A plan over the tables of the catalog, compiled. -/
def compilePlan (s : Setup) (t : Target) (p : Plan) : Except CompileError CompiledPlan := do
  let r ← (p.relation s.catalog).mapError .plan
  let query ← r.compile t
  return ⟨query, p.fingerprint⟩

/-- A statement over the tables of the catalog, as text. -/
def renderStatement (s : Setup) (t : Target) (d : Ddl Plan) : Except CompileError String := do
  let statement ← (d.resolve s.catalog).mapError .plan
  statement.toSql t

def judgePlan (s : Setup) (r : CompileRequest) : Verdict CompiledPlan := s.judge s.compilePlan r

def judgeStatement (s : Setup) (r : DdlRequest) : Verdict String := s.judge s.renderStatement r

/-- The dialects that have rules, and what their syntax has and lacks. -/
def dialectList (s : Setup) : Json :=
  .array (s.rules.dialects.map fun d => .object
    ([("dialect", .string d.name), ("is_default", .bool (d = s.defaultDialect))]
      ++ d.descriptor.members))

end Setup

/-- The service: what it works with and what it has counted. -/
structure State where
  setup : Setup
  metrics : Metrics

namespace State

def start (c : Config) : State := ⟨.ofConfig c, .start⟩

/-- The response to a request to compile a plan, and the service after it. -/
def compile (id : Json) (s : State) (r : CompileRequest) : Response × State :=
  let verdict := s.setup.judgePlan r
  (verdict.response id CompiledPlan.members,
    { s with metrics := { s.metrics with
      compilations := s.metrics.compilations.record verdict.series? } })

/-- The response to a request for a statement, and the service after it. -/
def render (id : Json) (s : State) (r : DdlRequest) : Response × State :=
  let verdict := s.setup.judgeStatement r
  (verdict.response id fun sql => [("sql", .string sql)],
    { s with metrics := { s.metrics with
      statements := s.metrics.statements.record verdict.series? } })

/-- What the service has counted. -/
def report (s : State) : Response :=
  let lines := s.metrics.lines
  if lines.isEmpty then .bare .ok else ⟨.ok, .lines Metrics.contentType lines⟩

end State

/-- That the service is running. -/
def health : Response := .json .ok (.object [("status", .string "ok")])

end PlanSql.Service
