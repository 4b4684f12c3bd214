import PlanSql.Json.Basic

/-!
# Records in JSON

A record is an object, whose unknown keys do not matter and whose known keys must not repeat, or an
array of its fields in their declared order, which may end early. A tagged record is one of several
shapes; the tag is a member of the object or the first item of the array, and names the shape. Where
a value has already been taken apart, a tag may also give the position of the shape.
-/
namespace PlanSql

/-- The first name that is among the seen ones or stands in the list for the second time. -/
def firstSeen? (seen : List String) : List String → Option String
  | [] => none
  | name :: rest => if seen.contains name then some name else firstSeen? (name :: seen) rest

/-- The first name that stands in the list for the second time. -/
def firstRepeated? (names : List String) : Option String := firstSeen? [] names

abbrev Fields (δ : Type) := List (String × δ)

namespace Fields

variable {δ : Type}

/-- The members that a record with these field names knows, unless one is repeated. -/
def ofMembers? (names : List String) (members : List (String × δ)) : Option (Fields δ) :=
  let known := members.filter fun m => names.contains m.1
  if (firstRepeated? (known.map (·.1))).isSome then none else some known

/-- The items of an array as fields in the order of their names. -/
def ofItems? (names : List String) (items : List δ) : Option (Fields δ) :=
  if items.length ≤ names.length then some (names.zip items) else none

/-- The value of a field, if it is there. -/
def get? (fields : Fields δ) (name : String) : Option δ := fields.lookup name

/-- A field that has to be there. -/
def required {α : Type} (fields : Fields δ) (name : String) (read : δ → Option α) : Option α :=
  (fields.get? name).bind read

/-- A field that takes a given value in its absence. -/
def withDefault {α : Type} (fields : Fields δ) (name : String) (default : α) (read : δ → Option α) :
    Option α :=
  match fields.get? name with
  | none => some default
  | some v => read v

end Fields

namespace Json

def string? : Json → Option String
  | .string s => some s
  | _ => none

def bool? : Json → Option Bool
  | .bool b => some b
  | _ => none

/-- A whole number from zero to `most`. -/
def natUpTo? (most : Nat) : Json → Option Nat
  | .number (.int i) => if 0 ≤ i ∧ i ≤ most then some i.toNat else none
  | _ => none

/-- `null` as absence. -/
def orNull? {α : Type} (read : Json → Option α) : Json → Option (Option α)
  | .null => some none
  | j => (read j).map some

/-- The items of an array, each of them read. -/
def items? {α : Type} (read : Json → Option α) : Json → Option (List α)
  | .array items => items.mapM read
  | _ => none

/-- A field that may be missing or `null`. -/
def optionalField {α : Type} (fields : Fields Json) (name : String) (read : Json → Option α) :
    Option (Option α) :=
  fields.withDefault name none (orNull? read)

def fields? (names : List String) : Json → Option (Fields Json)
  | .object members => Fields.ofMembers? names members
  | .array items => Fields.ofItems? names items
  | _ => none

/-- The shapes of a tagged record: each has a name and the names of its fields in order. -/
abbrev Shapes := List (String × List String)

/-- The shape a tag stands for. -/
def shape? (shapes : Shapes) (byPosition : Bool) : Json → Option (String × List String)
  | .string name => (shapes.lookup name).map fun names => (name, names)
  | .number (.int i) => if byPosition && 0 ≤ i then shapes[i.toNat]? else none
  | _ => none

/-- The shape and the fields of a tagged record. -/
def tagged? (tag : String) (shapes : Shapes) (byPosition : Bool) :
    Json → Option (String × Fields Json)
  | .object members =>
    match members.filter fun m => m.1 = tag with
    | [(_, t)] => do
      let (name, names) ← shape? shapes byPosition t
      some (name, ← Fields.ofMembers? names (members.filter fun m => m.1 ≠ tag))
    | _ => none
  | .array (t :: items) => do
    let (name, names) ← shape? shapes byPosition t
    some (name, ← Fields.ofItems? names items)
  | _ => none

/-- The name of an alternative and its content: a text names an alternative without content, an
object with one member an alternative with it. -/
def alternative? : Json → Option (String × Option Json)
  | .string name => some (name, none)
  | .object [(name, content)] => some (name, some content)
  | _ => none

/-- Whether a value may stand for the missing content of an alternative: `null`, and also an empty
object where the value has already been taken apart. -/
def isUnit (takenApart : Bool) : Json → Bool
  | .null => true
  | .object [] => takenApart
  | _ => false

end Json

end PlanSql
