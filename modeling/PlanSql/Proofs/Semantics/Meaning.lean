import Mathlib.Data.Multiset.Dedup
import Mathlib.Data.Multiset.Filter
import Mathlib.Data.Multiset.MapFold
import PlanSql.Proofs.Expr.Parts
import PlanSql.Proofs.Sql.Parts

/-!
# Values of expressions

What expressions of plans and of SQL are worth, over any type of values and for any functions of
them. Truth has three values, and a condition holds if it is true, not if it is unknown. An
aggregate is a function of the bag of values of a group that are there, a window function one of the
bag of rows it ranges over and of the row it stands in. Whatever is the same in plans and in SQL is
said once; what SQL does by another name has a meaning of its own.
-/
namespace PlanSql

/-- Values, their truth and their equality, both of which may be unknown. -/
structure Domain (V : Type) where
  null : V
  bool : Bool → V
  truth : V → Option Bool
  constant : Value → V
  equal : V → V → Option Bool
  truth_null : truth null = none
  truth_bool : ∀ b, truth (bool b) = some b

/-- Conjunction of truth values: false if one is false, unknown if one is unknown. -/
def kleeneAnd : Option Bool → Option Bool → Option Bool
  | some false, _ | _, some false => some false
  | some true, b => b
  | none, _ => none

def kleeneNot (a : Option Bool) : Option Bool := a.map not

def kleeneOr (a b : Option Bool) : Option Bool := kleeneNot (kleeneAnd (kleeneNot a) (kleeneNot b))

namespace Domain

variable {V : Type} (D : Domain V)

/-- The value that stands for a truth value. -/
def ofTruth (b : Option Bool) : V := b.elim D.null D.bool

/-- A condition holds if its value is true. -/
def holds (v : V) : Bool := D.truth v == some true

/-- What a row counts for where nothing else is said. -/
def one : V := D.constant (.int 1)

def not (v : V) : V := D.ofTruth (kleeneNot (D.truth v))

def and (v w : V) : V := D.ofTruth (kleeneAnd (D.truth v) (D.truth w))

def or (v w : V) : V := D.ofTruth (kleeneOr (D.truth v) (D.truth w))

/-- Whether a value equals one of a list of values. -/
def member (v : V) (ws : List V) (negated : Bool) : V :=
  let found := (ws.map (D.equal v)).foldr kleeneOr (some false)
  D.ofTruth (if negated then kleeneNot found else found)

theorem truth_ofTruth (b : Option Bool) : D.truth (D.ofTruth b) = b := by
  cases b with
  | none => exact D.truth_null
  | some b => exact D.truth_bool b

theorem holds_and (v w : V) : D.holds (D.and v w) = (D.holds v && D.holds w) := by
  unfold holds and
  rw [truth_ofTruth]
  rcases D.truth v with _ | _ | _ <;> rcases D.truth w with _ | _ | _ <;> rfl

variable [DecidableEq V]

def isNull (v : V) (negated : Bool) : V := D.bool ((v = D.null) != negated)

/-- The values that an aggregate looks at. -/
def collect (distinct : Bool) (vs : Multiset V) : Multiset V :=
  let there := vs.filter (· ≠ D.null)
  if distinct then there.dedup else there

end Domain

/-- A row as a window function sees it: the arguments of the call and the keys of its window. -/
structure WindowRow (V : Type) where
  args : List V
  partition : List V
  order : List (V × Bool)

/-- What the operators and functions of plans compute. -/
structure Operations (V : Type) where
  negate : V → V
  binary : BinaryOp → DataType → DataType → V → V → V
  function : ScalarFunction → List V → V
  extract : DatePart → V → V
  toTimestamp : TimeUnit → V → V
  cast : DataType → V → V
  aggregate : AggregateFunction → Multiset V → V
  window : WindowFunction → Multiset (WindowRow V) → WindowRow V → V

/-- What the operators and functions of SQL compute, functions and types going by their names. -/
structure Sql.Operations (V : Type) where
  number : String → V
  minus : V → V
  binary : Sql.BinaryOp → V → V → V
  call : String → List V → V
  extract : String → V → V
  cast : String → V → V
  aggregate : String → Multiset V → V
  window : String → Multiset (WindowRow V) → WindowRow V → V

/-- What an operator of plans computes, given the types of its operands. -/
def Operations.apply {V : Type} (P : Operations V) (D : Domain V) (op : BinaryOp) (l r : DataType)
    (v w : V) : V :=
  match op with
  | .and => D.and v w
  | .or => D.or v w
  | op => P.binary op l r v w

/-- What an operator of SQL computes. -/
def Sql.Operations.apply {V : Type} (S : Sql.Operations V) (D : Domain V) (op : Sql.BinaryOp)
    (v w : V) : V :=
  match op with
  | .and => D.and v w
  | .or => D.or v w
  | op => S.binary op v w

/-- A type of values with the operations of plans and those of SQL. -/
structure Meaning (V : Type) extends Domain V where
  plan : Operations V
  sql : Sql.Operations V

/-- Where an expression is evaluated: at a row, on behalf of a group of rows. -/
structure Focus (ρ : Type) where
  row : ρ
  group : Multiset ρ

/-- A row that is not grouped with others. -/
def Focus.single {ρ : Type} (row : ρ) : Focus ρ := ⟨row, {row}⟩

namespace Expr

section

variable {V ρ : Type} [DecidableEq V] (M : Meaning V) (look : ColumnRef → ρ → V)
  (frame : Multiset (Focus ρ))

mutual

/-- The value of an expression of a plan, window functions ranging over a frame. -/
def eval : Expr → Focus ρ → V
  | .literal v, _ => M.constant v
  | .column ref _, x => look ref x.row
  | .unary .neg operand, x => M.plan.negate (operand.eval x)
  | .unary .not operand, x => M.not (operand.eval x)
  | .binary op left right, x =>
    M.plan.apply M.toDomain op left.dataType right.dataType (left.eval x) (right.eval x)
  | .function f args, x => M.plan.function f (evalAll args x)
  | .extract part operand, x => M.plan.extract part (operand.eval x)
  | .toTimestamp operand unit, x => M.plan.toTimestamp unit (operand.eval x)
  | .inList operand values negated, x =>
    M.member (operand.eval x) (values.map M.constant) negated
  | .isNull operand negated, x => M.isNull (operand.eval x) negated
  | .cast operand target, x => M.plan.cast target (operand.eval x)
  | .case branches otherwise, x => evalCase branches x (evalOr M.null otherwise x)
  | .aggregate f arg distinct filter, x =>
    let kept := x.group.filter fun row => M.holds (evalOr (M.bool true) filter (.single row))
    M.plan.aggregate f (M.collect distinct (kept.map fun row => evalOr M.one arg (.single row)))
  | .window f args partitionBy orderBy, x =>
    let seen (y : Focus ρ) : WindowRow V :=
      ⟨if f = .aggregate .count && args.isEmpty then [M.one] else evalAll args y,
        evalAll partitionBy y, evalKeys orderBy y⟩
    M.plan.window f (frame.map seen) (seen x)

def evalAll : List Expr → Focus ρ → List V
  | [], _ => []
  | e :: rest, x => e.eval x :: evalAll rest x

def evalOr (default : V) : Option Expr → Focus ρ → V
  | none, _ => default
  | some e, x => e.eval x

/-- The result of the first branch whose condition holds. -/
def evalCase : List (Expr × Expr) → Focus ρ → V → V
  | [], _, otherwise => otherwise
  | (condition, result) :: rest, x, otherwise =>
    if M.holds (condition.eval x) then result.eval x else evalCase rest x otherwise

def evalKeys : List (SortKey Expr) → Focus ρ → List (V × Bool)
  | [], _ => []
  | ⟨e, descending⟩ :: rest, x => (e.eval x, descending) :: evalKeys rest x

end

end

end Expr

namespace Sql.Expr

section

variable {V ρ : Type} [DecidableEq V] (M : Meaning V) (look : Reference → ρ → V)
  (frame : Multiset (Focus ρ))

mutual

/-- The value of an expression of SQL, window functions ranging over a frame. The call of an
aggregate without a window is about the group; a call with one takes no other clause. -/
def eval : Expr → Focus ρ → V
  | .column q n, x => look (q, n) x.row
  | .literal (.value v), _ => M.constant v
  | .literal (.number text), _ => M.sql.number text
  | .star, _ => M.one
  | .unary .minus operand, x => M.sql.minus (operand.eval x)
  | .unary .not operand, x => M.not (operand.eval x)
  | .binary op left right, x => M.sql.apply M.toDomain op (left.eval x) (right.eval x)
  | .call name args distinct filter none, x =>
    if aggregateNames.contains name then
      let kept := x.group.filter fun row => M.holds (evalOr (M.bool true) filter (.single row))
      M.sql.aggregate name
        (M.collect distinct (kept.map fun row => (evalAll args (.single row)).headD M.null))
    else M.sql.call name (evalAll args x)
  | .call name args _ _ (some ⟨partitionBy, orderBy⟩), x =>
    let seen (y : Focus ρ) : WindowRow V :=
      ⟨evalAll args y, evalAll partitionBy y, evalKeys orderBy y⟩
    M.sql.window name (frame.map seen) (seen x)
  | .extract field operand, x => M.sql.extract field (operand.eval x)
  | .case branches otherwise, x => evalCase branches x (evalOr M.null otherwise x)
  | .inList operand list negated, x => M.member (operand.eval x) (evalAll list x) negated
  | .isNull operand negated, x => M.isNull (operand.eval x) negated
  | .cast operand typeName, x => M.sql.cast typeName (operand.eval x)

def evalAll : List Expr → Focus ρ → List V
  | [], _ => []
  | e :: rest, x => e.eval x :: evalAll rest x

def evalOr (default : V) : Option Expr → Focus ρ → V
  | none, _ => default
  | some e, x => e.eval x

/-- The result of the first branch whose condition holds. -/
def evalCase : List (Expr × Expr) → Focus ρ → V → V
  | [], _, otherwise => otherwise
  | (condition, result) :: rest, x, otherwise =>
    if M.holds (condition.eval x) then result.eval x else evalCase rest x otherwise

def evalKeys : List (SortKey Expr) → Focus ρ → List (V × Bool)
  | [], _ => []
  | ⟨e, descending⟩ :: rest, x => (e.eval x, descending) :: evalKeys rest x

end

end

end Sql.Expr

end PlanSql
