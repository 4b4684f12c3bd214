import PlanSql.Rule.RuleSet
import PlanSql.Text.Quoted

/-!
# Rule tables

A rule table holds the rule sets of the dialects that have one. A set is registered only if it has a
rule for every function that expressions use, and only if no rule reads an argument that a call may
lack.
-/
namespace PlanSql

/-- What can be wrong with a dialect or its rules. -/
inductive RegistryError where
  | functionNotFound (function : String) (dialect : Dialect)
  | dialectNotRegistered (dialect : Dialect)
  | incompleteDialect (dialect : Dialect) (missing : List String)
  | argumentOutOfRange (function : String) (dialect : Dialect) (index arity : Nat)
  | unknownDialect (name : String)
  deriving DecidableEq, Repr

def RegistryError.message : RegistryError → String
  | .functionNotFound function dialect =>
    "Function not found: " ++ function ++ " for dialect " ++ dialect.name
  | .dialectNotRegistered dialect => "Dialect " ++ dialect.name ++ " has no registered rules"
  | .incompleteDialect dialect missing =>
    "Incomplete rule set for dialect " ++ dialect.name ++ ": missing " ++ Text.quotedList missing
  | .argumentOutOfRange function dialect index arity =>
    "Rule for " ++ function ++ " in dialect " ++ dialect.name ++ " reads argument "
      ++ toString index ++ " of at least " ++ toString arity
  | .unknownDialect name => "Unknown dialect: " ++ name

def Dialect.ofName (name : String) : Except RegistryError Dialect :=
  match Dialect.ofName? name with
  | some d => .ok d
  | none => .error (.unknownDialect name)

/-- The functions that a rule set has to have rules for. -/
def requiredFunctions : List String := [
  "year", "quarter", "month", "week_of_year", "day_of_year", "day", "hour", "minute", "second",
  "to_timestamp_s", "to_timestamp_ms", "to_timestamp_us",
  "abs", "ceil", "floor", "round", "round_digits", "lower", "upper", "length", "substr", "coalesce",
  "count", "sum", "mean", "min", "max", "stddev", "variance",
  "row_number", "rank", "dense_rank", "lag", "lead"]

/-- The fewest arguments a function is called with. -/
def minArity (function : String) : Nat :=
  match function with
  | "count" | "row_number" | "rank" | "dense_rank" => 0
  | "round_digits" | "substr" => 2
  | _ => 1

namespace RuleSet

/-- The required functions without a rule. -/
def missing (rules : RuleSet) : List String :=
  requiredFunctions.filter fun name => !rules.contains name

/-- The position that the rule of a function reads and a call may lack. -/
def argumentOutOfRange? (rules : RuleSet) (name : String) : Option Nat :=
  match rules.get? name with
  | some (.template t) => t.maxArg.filter fun index => minArity name ≤ index
  | _ => none

/-- Refuses a set that does not cover every call. -/
def check (rules : RuleSet) (d : Dialect) : Except RegistryError Unit := do
  if !rules.missing.isEmpty then throw (.incompleteDialect d rules.missing)
  requiredFunctions.forM fun name =>
    match rules.argumentOutOfRange? name with
    | some index => throw (.argumentOutOfRange name d index (minArity name))
    | none => return ()

end RuleSet

/-- Rule sets by dialect, each dialect once. -/
abbrev RuleTable := List (Dialect × RuleSet)

namespace RuleTable

def empty : RuleTable := []

/-- The rules that come with the library, for all dialects. -/
def builtin : RuleTable := Dialect.all.map fun d => (d, .builtin d)

/-- The table with a rule set for a dialect, in the place of the one it had. -/
def insert (d : Dialect) (rules : RuleSet) (table : RuleTable) : RuleTable :=
  (d, rules) :: table.filter fun entry => entry.1 ≠ d

/-- Registers a rule set for a dialect: the set is checked, and then the table is changed. -/
def registerDialect (d : Dialect) (rules : RuleSet) :
    ExceptT RegistryError (StateM RuleTable) Unit := do
  MonadExcept.ofExcept (rules.check d)
  modify (insert d rules)

/-- The table that a registration leads to, or why the rule set is refused. -/
def register (table : RuleTable) (d : Dialect) (rules : RuleSet) :
    Except RegistryError RuleTable :=
  match (registerDialect d rules).run.run table with
  | (.ok (), table') => .ok table'
  | (.error error, _) => .error error

/-- The table after a registration, whether the rule set was accepted or refused. -/
def offer (table : RuleTable) (d : Dialect) (rules : RuleSet) : RuleTable :=
  ((registerDialect d rules).run.run table).2

def resolve (table : RuleTable) (function : String) (d : Dialect) : Except RegistryError Rule :=
  match table.lookup d with
  | none => .error (.dialectNotRegistered d)
  | some rules =>
    match rules.get? function with
    | none => .error (.functionNotFound function d)
    | some rule => .ok rule

/-- The dialects that have rules, in the order dialects are listed. -/
def dialects (table : RuleTable) : List Dialect :=
  Dialect.all.filter fun d => (table.lookup d).isSome

end RuleTable

end PlanSql
