/-!
# Media types of request bodies

A media type is a type, a subtype and parameters, none of which may be malformed; a body is JSON if
its subtype is or ends in JSON.
-/
namespace PlanSql.Service

/-- A media type in lower case, without its parameters. -/
structure MediaType where
  kind : String
  subtype : String
  /-- What follows the last plus sign of the subtype. -/
  suffix : Option String
  deriving DecidableEq, Repr

namespace MediaType

/-- The characters of names and of values without quotes. -/
def isToken (c : Char) : Bool := c.isAlphanum || "!#$%&'*+-.^_|~\x60".toList.contains c

/-- The characters of values in quotes. -/
def isQuotable (c : Char) : Bool := ' ' ≤ c && c ≤ '~'

/-- What follows a value in quotes, after the opening one. The value has at least one character,
which may be a quote. -/
def afterQuoted? : List Char → Option (List Char)
  | [] => none
  | c :: cs =>
    match cs.dropWhile fun c => isQuotable c && c != '"' with
    | '"' :: rest => if isQuotable c then some rest else none
    | _ => none

/-- Whether a text is a list of parameters separated by semicolons. The fuel bounds their number. -/
def areParameters : Nat → List Char → Bool
  | 0, _ => false
  | fuel + 1, cs =>
    let cs := cs.dropWhile (· = ' ')
    if cs.isEmpty then true
    else
      match cs.takeWhile isToken, cs.dropWhile isToken with
      | _ :: _, '=' :: '"' :: rest =>
        match (afterQuoted? rest).map (List.dropWhile (· = ' ')) with
        | some [] => true
        | some (';' :: rest) => areParameters fuel rest
        | _ => false
      | _ :: _, '=' :: rest =>
        match rest.takeWhile isToken, rest.dropWhile isToken with
        | _, [] => true
        | _ :: _, ';' :: rest => areParameters fuel rest
        | _, _ => false
      | _, _ => false

/-- A subtype divided at its last plus sign, unless that is its first character. -/
def divided (subtype : List Char) : List Char × Option (List Char) :=
  let reversed := subtype.reverse
  let suffix := (reversed.takeWhile (· != '+')).reverse
  match reversed.dropWhile (· != '+') with
  | '+' :: base@(_ :: _) => (base.reverse, some suffix)
  | _ => (subtype, none)

/-- The media type that a text names. -/
def ofText? (text : String) : Option MediaType :=
  let cs := text.toList.map Char.toLower
  match cs.takeWhile isToken, cs.dropWhile isToken with
  | kind@(_ :: _), '/' :: rest =>
    let (base, suffix) := divided (rest.takeWhile isToken)
    let found : MediaType := ⟨.ofList kind, .ofList base, suffix.map .ofList⟩
    match rest.takeWhile isToken, rest.dropWhile isToken with
    | _, [] => some found
    | _ :: _, ';' :: parameters =>
      if areParameters (parameters.length + 1) parameters then some found else none
    | _, _ => none
  | _, _ => none

def isJson (m : MediaType) : Bool :=
  m.kind = "application" && (m.subtype = "json" || m.suffix = some "json")

end MediaType

end PlanSql.Service
