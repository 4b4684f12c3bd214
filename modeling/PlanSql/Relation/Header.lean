import PlanSql.Expr.Basic

/-!
# Headers of relations

A header lists the columns, and for each column where it was taken from. A reference without a
relation is looked up among the column names, one with a relation among the origins, so that a
column taken from one side of a join is found again above the join even if the join renamed it. A
reference to a relation that is not known is never bound by its name alone.
-/
namespace PlanSql

/-- The relation and the column that an output column was taken from. -/
structure Origin where
  relation : String
  name : String
  deriving DecidableEq, Repr, Inhabited

def Origin.text (o : Origin) : String := o.relation ++ "." ++ o.name

/-- The columns of a relation. -/
structure Header where
  /-- The name that all columns go under, unless the relation is made from several. -/
  qualifier : Option String
  fields : Schema
  /-- One entry for each field; a computed column may have none. -/
  origins : List (Option Origin)
  deriving DecidableEq, Repr, Inhabited

/-- What a look-up of a reference finds. -/
inductive Lookup where
  | missing
  | found (index : Nat)
  | ambiguous (indices : List Nat)
  deriving DecidableEq, Repr

/-- The positions of the elements that satisfy a condition. -/
def positions {α : Type} (p : α → Bool) (xs : List α) : List Nat :=
  (xs.zipIdx.filter fun x => p x.1).map (·.2)

namespace Header

/-- The header of a relation made from one input: under a qualifier all columns belong to it,
otherwise they keep the origins they inherit. -/
def make (qualifier : Option String) (fields : Schema) (inherited : List (Option Origin)) :
    Header where
  qualifier := qualifier
  fields := fields
  origins := match qualifier with
    | some q => fields.map fun f => some ⟨q, f.name⟩
    | none => inherited

/-- The positions of the columns that a reference could mean. -/
def hits (h : Header) (ref : ColumnRef) : List Nat :=
  match ref.relation with
  | none => positions (fun f => f.name = ref.name) h.fields
  | some relation => positions (fun o => o = some ⟨relation, ref.name⟩) h.origins

def lookup (h : Header) (ref : ColumnRef) : Lookup :=
  match h.hits ref with
  | [] => .missing
  | [index] => .found index
  | indices => .ambiguous indices

/-- A column as messages list it: by its origin, where that is known. -/
def describe (h : Header) (index : Nat) : String :=
  match (h.origins[index]?).join with
  | some origin => origin.text
  | none => ((h.fields[index]?).map (·.name)).getD ""

/-- The columns a look-up found, as messages list them. -/
def candidates (h : Header) : Lookup → List String
  | .missing => []
  | .found index => [h.describe index]
  | .ambiguous indices => indices.map h.describe

def knowsRelation (h : Header) (relation : String) : Bool :=
  h.origins.any fun o => (o.map (·.relation)) = some relation

/-- The columns that have or had the given name, as messages list them. -/
def namesakes (h : Header) (name : String) : List String :=
  (positions (fun (f, o) => f.name = name || (o.map Origin.name) = some name)
    (h.fields.zip h.origins)).map h.describe

/-- The error for a reference that none of the headers binds. Where the name is known and the
relation is not, the columns of that name are reported. -/
def unresolved (headers : List Header) (ref : ColumnRef) : PlanError :=
  let sameName := match ref.relation with
    | none => []
    | some relation =>
      if headers.any (knowsRelation · relation) then []
      else headers.flatMap (namesakes · ref.name)
  if sameName.isEmpty then .columnNotFound ref.name (headers.flatMap (·.fields.names))
  else .ambiguousColumn ref.text sameName

/-- The position of the column that a reference denotes. -/
def resolve (h : Header) (ref : ColumnRef) : Except PlanError Nat :=
  match h.lookup ref with
  | .found index => .ok index
  | .missing => .error (unresolved [h] ref)
  | hit => .error (.ambiguousColumn ref.text (h.candidates hit))

/-- Refuses references that denote no column. -/
def bind (h : Header) (refs : List ColumnRef) : Except PlanError Unit :=
  refs.forM fun ref => do
    let _ ← h.resolve ref

/-- Where the column comes from that an expression passes on. -/
def originOf (h : Header) (e : Expr) : Option Origin :=
  match e.column? with
  | none => none
  | some ref =>
    match h.lookup ref with
    | .found index => (h.origins[index]?).join
    | _ => none

/-- A reference to a column by its name, under the qualifier. -/
def column (h : Header) (name : String) : Except PlanError Expr :=
  match h.fields.find? name with
  | some field => .ok (.column ⟨h.qualifier, name⟩ field.dataType)
  | none => .error (.columnNotFound name h.fields.names)

/-- A reference as given, with the type of the column it denotes. -/
def columnOf (h : Header) (ref : ColumnRef) : Except PlanError Expr := do
  let index ← h.resolve ref
  return .column ref (((h.fields[index]?).map (·.dataType)).getD .null)

end Header

/-- The inputs of a join. -/
inductive JoinSide where
  | left
  | right
  deriving DecidableEq, Repr, Inhabited

/-- The side of a join and the position in it that a reference denotes. -/
def resolveSide (left right : Header) (ref : ColumnRef) : Except PlanError (JoinSide × Nat) :=
  match left.lookup ref, right.lookup ref with
  | .found index, .missing => .ok (.left, index)
  | .missing, .found index => .ok (.right, index)
  | .missing, .missing => .error (Header.unresolved [left, right] ref)
  | l, r => .error (.ambiguousColumn ref.text (left.candidates l ++ right.candidates r))

end PlanSql
