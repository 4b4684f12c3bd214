import PlanSql.Json.Reader

/-!
# Values that are passed over

Passing over values that do not matter. Such a value has to be well formed, but it may be nested to
any depth, its numbers may be too large for binary ones, and its escapes may name unpaired
surrogates.
-/
namespace PlanSql.Json

/-- What follows the closing quote of a string. -/
def skipString : List Char → Option (List Char)
  | [] => none
  | '"' :: cs => some cs
  | '\\' :: 'u' :: a :: b :: c :: d :: cs =>
    if (codeUnit? a b c d).isSome then skipString cs else none
  | '\\' :: e :: cs => if (shortEscape? e).isSome then skipString cs else none
  | c :: cs => if c.toNat < 32 then none else skipString cs

/-- What follows a number. -/
def skipNumber (cs : List Char) : Option (List Char) := (readNumeral cs).map (·.2)

mutual

/-- What follows a value. The fuel bounds the steps taken; twice the length of the text is enough
for all of it. -/
def skipValue : Nat → List Char → Option (List Char)
  | 0, _ => none
  | fuel + 1, cs =>
    match skipSpace cs with
    | 'n' :: 'u' :: 'l' :: 'l' :: rest => some rest
    | 't' :: 'r' :: 'u' :: 'e' :: rest => some rest
    | 'f' :: 'a' :: 'l' :: 's' :: 'e' :: rest => some rest
    | '"' :: rest => skipString rest
    | '[' :: rest =>
      match skipSpace rest with
      | ']' :: rest => some rest
      | rest => skipItems fuel rest
    | '\x7b' :: rest =>
      match skipSpace rest with
      | '\x7d' :: rest => some rest
      | rest => skipMembers fuel rest
    | cs => skipNumber cs

/-- What follows the items of an array, at least one, and its closing bracket. -/
def skipItems : Nat → List Char → Option (List Char)
  | 0, _ => none
  | fuel + 1, cs =>
    match skipValue fuel cs with
    | none => none
    | some rest =>
      match skipSpace rest with
      | ']' :: rest => some rest
      | ',' :: rest => skipItems fuel rest
      | _ => none

/-- What follows the members of an object, at least one, and its closing brace. -/
def skipMembers : Nat → List Char → Option (List Char)
  | 0, _ => none
  | fuel + 1, cs =>
    match skipSpace cs with
    | '"' :: rest =>
      match skipString rest with
      | none => none
      | some rest =>
        match skipSpace rest with
        | ':' :: rest =>
          match skipValue fuel rest with
          | none => none
          | some rest =>
            match skipSpace rest with
            | '\x7d' :: rest => some rest
            | ',' :: rest => skipMembers fuel rest
            | _ => none
        | _ => none
    | _ => none

end

/-- What follows the value at the front of a text. -/
def skip (cs : List Char) : Option (List Char) := skipValue (2 * cs.length + 2) cs

end PlanSql.Json
