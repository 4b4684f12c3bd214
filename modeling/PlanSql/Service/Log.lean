/-!
# Log formats and outputs

How the service logs. Names are taken in any case of ASCII letters; a name that is not known stands
for the first choice.
-/
namespace PlanSql.Service

inductive LogFormat where
  | pretty
  | json
  | compact
  deriving DecidableEq, Repr, Inhabited

def LogFormat.ofName (name : String) : LogFormat :=
  match name.toLower with
  | "json" => .json
  | "compact" => .compact
  | _ => .pretty

inductive LogOutput where
  | stdout
  | file
  | both
  deriving DecidableEq, Repr, Inhabited

def LogOutput.ofName (name : String) : LogOutput :=
  match name.toLower with
  | "file" => .file
  | "both" => .both
  | _ => .stdout

end PlanSql.Service
