/-!
# Named outputs and sort keys

Items of clauses, for any kind of expression: outputs that may have a name of their own, and sort
keys.
-/
namespace PlanSql

/-- An expression as an output; without a name of its own it goes by the name its form gives it. -/
structure Named (ε : Type) where
  expr : ε
  aliasName : Option String
  deriving DecidableEq, Repr

/-- An output under the name that its form gives it. -/
def Named.unnamed {ε : Type} (expr : ε) : Named ε := ⟨expr, none⟩

/-- An expression to sort by and its direction. -/
structure SortKey (ε : Type) where
  expr : ε
  descending : Bool
  deriving DecidableEq, Repr

end PlanSql
