import PlanSql.Json.Record
import PlanSql.Json.Skipping

/-!
# Records read straight from JSON text

Records read straight from their text. Such a reader meets what is wrong in the order of the text,
and tells a text that is no JSON from JSON of another shape. A value that the record has no use for
is passed over.
-/
namespace PlanSql.Json

/-- What is wrong with the text of a record. -/
inductive Fault where
  /-- It is no JSON. -/
  | text
  /-- It is JSON of another shape. -/
  | shape
  deriving DecidableEq, Repr

/-- Readers that take their part from the front of the text. -/
abbrev Reading := StateT (List Char) (Except Fault)

namespace Reading

variable {α σ : Type}

/-- Takes what `read` finds. -/
def take (read : List Char → Option (α × List Char)) : Reading α := fun cs =>
  match read cs with
  | some r => .ok r
  | none => .error .text

/-- The value, if there is one; its absence means another shape. -/
def orShape : Option α → Reading α
  | some a => pure a
  | none => throw .shape

/-- Takes white space and shows the character after it. -/
def peek : Reading (Option Char) := fun cs =>
  let cs := skipSpace cs
  .ok (cs.head?, cs)

/-- Takes white space and the given character. -/
def symbol (c : Char) : Reading Unit := take fun cs =>
  match skipSpace cs with
  | d :: rest => if d = c then some ((), rest) else none
  | [] => none

/-- A value nested at most `limit` deep. -/
def value (limit : Nat) : Reading Json := take (read limit)

/-- A value that does not matter. -/
def ignored : Reading Unit := take fun cs => (skip cs).map fun rest => ((), rest)

/-- A value that is neither an array nor an object. -/
def scalar : Reading Json := do
  match ← peek with
  | some '[' | some '\x7b' => throw .shape
  | _ => value 0

def optionalText : Reading (Option String) := do orShape (orNull? string? (← scalar))

/-- A scalar where a record has to be. -/
def noRecord : Reading α := do
  let _ ← scalar
  throw .shape

/-- The next item of an array, if there is one. -/
def item? (isFirst : Bool) (read : Reading α) : Reading (Option α) := do
  match ← peek with
  | some ']' => return none
  | _ => do
    if !isFirst then symbol ','
    match ← peek with
    | some ']' => throw .text
    | _ => return some (← read)

/-- The items up to the closing bracket. The fuel bounds their number. -/
def items (read : Reading α) : Nat → Bool → Reading (List α)
  | 0, _ => throw .text
  | fuel + 1, isFirst => do
    match ← item? isFirst read with
    | none => return []
    | some a => return a :: (← items read fuel false)

/-- The members up to the closing brace. After a key, `member` takes the rest of the member. The
fuel bounds their number. -/
def members (member : σ → String → Reading σ) : Nat → Bool → σ → Reading σ
  | 0, _, _ => throw .text
  | fuel + 1, isFirst, s => do
    match ← peek with
    | some '\x7d' => return s
    | _ => do
      if !isFirst then symbol ','
      symbol '"'
      let key ← take readString
      let s ← member s key
      members member fuel false s

/-- More than the number of items or members that the text can hold. -/
def fuel : Reading Nat := do return (← get).length + 1

def tag (shapes : Shapes) : Reading Json := do
  let t ← scalar
  let _ ← orShape (shape? shapes false t)
  return t

/-- One member of a tagged record, put before those already read. -/
def taggedMember (name : String) (shapes : Shapes) (limit : Nat) (before : List (String × Json))
    (key : String) : Reading (List (String × Json)) := do
  if key = name then
    if before.any fun m => m.1 = name then throw .shape
    symbol ':'
    return (key, ← tag shapes) :: before
  else
    symbol ':'
    return (key, ← value limit) :: before

/-- A record tagged by `name` with one of the shapes, as a value; its fields are nested at most
`limit` deep. -/
def tagged (name : String) (shapes : Shapes) (limit : Nat) : Reading Json := do
  match ← peek with
  | some '\x7b' => do
    symbol '\x7b'
    let ms ← members (taggedMember name shapes limit) (← fuel) true []
    if !ms.any fun m => m.1 = name then throw .shape
    symbol '\x7d'
    return .object ms.reverse
  | some '[' => do
    symbol '['
    let some t ← item? true (tag shapes) | throw .shape
    let rest ← items (value limit) (← fuel) false
    symbol ']'
    return .array (t :: rest)
  | _ => noRecord

/-- The whole text as one record. -/
def run (read : Reading α) (text : String) : Except Fault α := do
  let (a, rest) ← StateT.run read text.toList
  if (skipSpace rest).isEmpty then return a else throw .text

end Reading

end PlanSql.Json
