import PlanSql.Json.Basic

/-!
# Responses of the service

A response is a status and what comes with it. The explanations that come with refused requests are
not kept.
-/
namespace PlanSql.Service

inductive Status where
  | ok
  | badRequest
  | notFound
  | methodNotAllowed
  | payloadTooLarge
  | unsupportedMediaType
  | unprocessable
  deriving DecidableEq, Repr

def Status.code : Status → Nat
  | .ok => 200
  | .badRequest => 400
  | .notFound => 404
  | .methodNotAllowed => 405
  | .payloadTooLarge => 413
  | .unsupportedMediaType => 415
  | .unprocessable => 422

/-- What comes with a status. -/
inductive Content where
  | nothing
  | json (value : Json)
  | lines (contentType : String) (lines : List String)

structure Response where
  status : Status
  content : Content

namespace Response

/-- A status that comes alone. -/
def bare (status : Status) : Response := ⟨status, .nothing⟩

def json (status : Status) (value : Json) : Response := ⟨status, .json value⟩

end Response

end PlanSql.Service
