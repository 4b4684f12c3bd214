import PlanSql.Json.Record

/-!
# Documents as sources of records

Documents that records are read from. A source says how one kind of document presents records,
lists, texts, numbers, truth values and alternatives; a reader written against it reads every kind.
-/
namespace PlanSql

/-- The views of a document of type `δ`. -/
structure Source (δ : Type) where
  /-- The fields of a record with the given field names. -/
  fields? : List String → δ → Option (Fields δ)
  items? : δ → Option (List δ)
  text? : δ → Option String
  natUpTo? : Nat → δ → Option Nat
  bool? : δ → Option Bool
  /-- The name of an alternative and its content. -/
  alternative? : δ → Option (String × Option δ)
  /-- Whether a document may stand for the missing content of an alternative. -/
  isUnit : δ → Bool

namespace Source

variable {δ : Type} (src : Source δ)

/-- The name of an alternative that has no content. -/
def name? (d : δ) : Option String :=
  match src.alternative? d with
  | some (name, none) => some name
  | some (name, some content) => if src.isUnit content then some name else none
  | none => none

/-- The value of one of the named choices. -/
def choice? {α : Type} (choices : List (String × α)) (d : δ) : Option α :=
  (src.name? d).bind fun name => choices.lookup name

def list? {α : Type} (read : δ → Option α) (d : δ) : Option (List α) :=
  (src.items? d).bind fun items => items.mapM read

end Source

/-- JSON as a source. Values that have already been taken apart accept an empty object as no
content. -/
def Json.source (takenApart : Bool) : Source Json where
  fields? := Json.fields?
  items? := Json.items? some
  text? := Json.string?
  natUpTo? := Json.natUpTo?
  bool? := Json.bool?
  alternative? := Json.alternative?
  isUnit := Json.isUnit takenApart

end PlanSql
