import PlanSql.Proofs.Semantics.Lowering

/-!
# Meanings that SQL induces

Whatever the operators and functions of SQL compute in a dialect, plans can be given operations that
the rules of the dialect keep: those that their SQL computes. So the assumption that single steps
keep values is no assumption about SQL, but says what plans mean.
-/
namespace PlanSql

variable {V : Type} (D : Domain V) (S : Sql.Operations V) (d : Dialect)

/-- What the rule of a function computes. -/
def ruleValue (function : String) (vs : List V) : V :=
  match RuleTable.builtin.resolve function d with
  | .ok (.template T) => T.value D S vs
  | _ => D.null

/-- Plans mean what their SQL does. -/
def Meaning.ofSql : Meaning V where
  toDomain := D
  sql := S
  plan := {
    negate := S.minus
    binary := fun op l r v w =>
      if (Target.builtin d).truncates op l r
      then S.binary .divide (S.cast ((d.castTypeName? .float64).getD "") v) w
      else S.binary op.sql v w
    function := fun f vs => ruleValue D S d (f.ruleName vs.length) vs
    extract := fun p v => ruleValue D S d p.ruleName [v]
    toTimestamp := fun u v => ruleValue D S d u.ruleName [v]
    cast := fun target v =>
      match d.castTypeName? target with
      | some name => S.cast name v
      | none => D.null
    aggregate := fun f => S.aggregate f.sqlName
    window := fun f => S.window f.sqlName }

/-- All that is asked of SQL is that it can compare one with one and with zero. -/
theorem Meaning.keeps_ofSql [DecidableEq V] (h : ∀ negated : Bool,
    S.binary .eq D.one (D.constant (.int (if negated then 1 else 0))) = D.bool negated) :
    (Meaning.ofSql D S d).Keeps d where
  negate _ := rfl
  binary ht _ v w := by simp [ofSql, ht]
  division ht hd v w := by simp [ofSql, ht, hd]
  noValues := h
  function hT := by simp [ofSql, ruleValue, hT]
  extract hT v := by simp [ofSql, ruleValue, hT]
  toTimestamp hT v := by simp [ofSql, ruleValue, hT]
  cast hn v := by simp [ofSql, hn]
  aggregate _ := rfl
  window _ := rfl

/-- The constants as values; there is no truth but that of Boolean constants, and nothing is known
of what equals an absent value. -/
def Domain.constants : Domain Value where
  null := .null
  bool := .bool
  truth
    | .bool b => some b
    | _ => none
  constant v := v
  equal v w := if v = .null ∨ w = .null then none else some (v = w)
  truth_null := rfl
  truth_bool _ := rfl

/-- SQL in which constants can be compared and nothing else gives a value. -/
def Sql.Operations.comparing : Sql.Operations Value where
  number _ := .null
  minus _ := .null
  binary op v w :=
    match op with
    | .eq => Domain.constants.ofTruth (Domain.constants.equal v w)
    | _ => .null
  call _ _ := .null
  extract _ _ := .null
  cast _ _ := .null
  aggregate _ _ := .null
  window _ _ _ := .null

theorem Meaning.keeps_comparing :
    (Meaning.ofSql .constants .comparing d).Keeps d :=
  keeps_ofSql _ _ d fun negated => by cases negated <;> rfl

end PlanSql
