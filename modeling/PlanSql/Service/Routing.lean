import PlanSql.Service.Api
import PlanSql.Service.MediaType

/-!
# Routing of requests

How requests that arrive over HTTP reach the service. A request is refused for the first of these
reasons: nothing is at its path, what is there has no such method, its body is not declared to be
JSON, its body is too large, its body is no JSON, its body is JSON of another shape.
-/
namespace PlanSql.Service

structure HttpRequest where
  method : String
  /-- The path, with a query that does not matter. -/
  target : String
  contentType : Option String
  body : String
  deriving Repr

/-- What stands at the paths of the service. -/
inductive Route where
  | compile
  | ddl
  | dialects
  | health
  | metrics
  deriving DecidableEq, Repr

namespace Route

def paths : List (String × Route) := [
  ("/compile", .compile), ("/ddl", .ddl), ("/dialects", .dialects), ("/health", .health),
  ("/metrics", .metrics)]

/-- What stands at the path of a target. -/
def ofTarget? (target : String) : Option Route :=
  paths.lookup (.ofList (target.toList.takeWhile fun c => c != '?' && c != '#'))

/-- Whether a body is handed in there. -/
def takesBody : Route → Bool
  | .compile | .ddl => true
  | .dialects | .health | .metrics => false

/-- Whether the method may be used there. What can be got may also be asked for without its
content. -/
def allows (route : Route) (method : String) : Bool :=
  if route.takesBody then method = "POST" else method = "GET" || method = "HEAD"

end Route

/-- The greatest size of a body in bytes. -/
def maxBodySize : Nat := 2 * pow2 20

/-- The body of a request as a record, or why the request is refused. -/
def HttpRequest.decode {α : Type} (r : HttpRequest) (ofText : String → Except Json.Fault α) :
    Except Status α :=
  if !((r.contentType.bind MediaType.ofText?).map MediaType.isJson).getD false then
    .error .unsupportedMediaType
  else if maxBodySize < r.body.utf8ByteSize then .error .payloadTooLarge
  else
    match ofText r.body with
    | .ok a => .ok a
    | .error .text => .error .badRequest
    | .error .shape => .error .unprocessable

namespace State

/-- Hands the decoded body of a request to `serve`. -/
def submit {α : Type} (s : State) (r : HttpRequest) (ofText : String → Except Json.Fault α)
    (serve : State → α → Response × State) : Response × State :=
  match r.decode ofText with
  | .ok a => serve s a
  | .error status => (.bare status, s)

/-- The response to the request that goes by `id`, and the service after it. -/
def respond (id : Json) (s : State) (r : HttpRequest) : Response × State :=
  match Route.ofTarget? r.target with
  | none => (.bare .notFound, s)
  | some route =>
    let got (response : Response) : Response × State :=
      (if r.method = "HEAD" then .bare response.status else response, s)
    if !route.allows r.method then (.bare .methodNotAllowed, s)
    else
      match route with
      | .compile => s.submit r CompileRequest.ofText (compile id)
      | .ddl => s.submit r DdlRequest.ofText (render id)
      | .dialects => got (.json .ok s.setup.dialectList)
      | .health => got Service.health
      | .metrics => got s.report

end State

end PlanSql.Service
