import PlanSql.Proofs.Rule.Builtin

/-!
# Which SQL is an integer

Whether the type of an expression of SQL is an integer type, as a database finds out before it runs
the expression: from the types of columns, the constants, the names of types and functions, and the
operands. What is always absent takes the type of whatever it is combined with. Where comparisons
are numbers, they are integers.
-/
namespace PlanSql

namespace Sql

/-- Whether the type of an expression is an integer type. -/
inductive Kind where
  | integer
  /-- Always absent, and thus of any type. -/
  | absent
  | other
  deriving DecidableEq, Repr

namespace Kind

def all : List Kind := [.integer, .absent, .other]

theorem mem_all (k : Kind) : k ∈ all := by
  cases k <;> decide

/-- The type of values some of which have the one type and some the other. -/
def join : Kind → Kind → Kind
  | .absent, k | k, .absent => k
  | .integer, .integer => .integer
  | _, _ => .other

@[simp] theorem absent_join (k : Kind) : join .absent k = k := by
  cases k <;> rfl

@[simp] theorem join_absent (k : Kind) : join k .absent = k := by
  cases k <;> rfl

@[simp] theorem other_join (k : Kind) : join .other k = .other := by
  cases k <;> rfl

@[simp] theorem join_other (k : Kind) : join k .other = .other := by
  cases k <;> rfl

def joinAll (ks : List Kind) : Kind := ks.foldl join .absent

/-- The type of truth values. -/
def ofTruth (d : Dialect) : Kind := if d = .sqlite then .integer else .other

/-- The functions that give an integer, whatever they are applied to. -/
def integerFunctions : List String := [
  "COUNT", "LENGTH", "CHAR_LENGTH", "ROW_NUMBER", "RANK", "DENSE_RANK", "YEAR", "QUARTER", "MONTH",
  "WEEK", "WEEKOFYEAR", "DAYOFYEAR", "DAYOFMONTH", "HOUR", "MINUTE", "SECOND"]

/-- The functions that give an integer if their first argument is one. -/
def passingFunctions : List String := [
  "ABS", "CEIL", "CEILING", "FLOOR", "ROUND", "SUM", "MIN", "MAX", "LAG", "LEAD"]

/-- The type of a call, given those of the arguments. -/
def ofCall (name : String) (args : List Kind) : Kind :=
  if integerFunctions.contains name then .integer
  else if passingFunctions.contains name then args.headD .other
  else if name = "COALESCE" then joinAll args
  else .other

def integerTypes : List String := ["TINYINT", "SMALLINT", "INT", "INTEGER", "BIGINT", "SIGNED"]

def ofTypeName (name : String) : Kind :=
  if integerTypes.contains name then .integer else .other

/-- The type of an extracted field. -/
def ofField (d : Dialect) : Kind := if d = .postgres then .other else .integer

end Kind

def Literal.valueKind (d : Dialect) : Literal → Kind
  | .value .null => .absent
  | .value (.int _) => .integer
  | .value (.bool _) => .ofTruth d
  | .value _ => .other
  | .number text => if text.toList.all Char.isDigit then .integer else .other

/-- The type of an operation, given those of the operands. -/
def BinaryOp.valueKind (d : Dialect) (op : BinaryOp) (l r : Kind) : Kind :=
  match op with
  | .plus | .minus | .multiply | .divide | .modulo => l.join r
  | _ => .ofTruth d

namespace Expr

section

variable (d : Dialect) (column : Reference → Kind)

mutual

/-- Whether the type of an expression is an integer type, given which columns are integers. -/
def valueKind : Expr → Kind
  | .column q n => column (q, n)
  | .literal l => l.valueKind d
  | .star => .other
  | .unary .minus operand => operand.valueKind
  | .unary .not _ => .ofTruth d
  | .binary op left right => op.valueKind d left.valueKind right.valueKind
  | .call name args _ _ _ => .ofCall name (kindAll args)
  | .extract _ _ => .ofField d
  | .case branches otherwise => (Kind.joinAll (resultKinds branches)).join (kindOr otherwise)
  | .inList _ _ _ | .isNull _ _ => .ofTruth d
  | .cast _ typeName => .ofTypeName typeName

def kindAll : List Expr → List Kind
  | [] => []
  | e :: rest => e.valueKind :: kindAll rest

def kindOr : Option Expr → Kind
  | none => .absent
  | some e => e.valueKind

def resultKinds : List (Expr × Expr) → List Kind
  | [] => []
  | (_, result) :: rest => result.valueKind :: resultKinds rest

end

end

variable {d : Dialect} {column : Reference → Kind}

theorem kindAll_eq (es : List Expr) : kindAll d column es = es.map (valueKind d column) := by
  induction es with
  | nil => rfl
  | cons e rest ih => simp [kindAll, ih]

theorem resultKinds_eq (branches : List (Expr × Expr)) :
    resultKinds d column branches = branches.map fun b => b.2.valueKind d column := by
  induction branches with
  | nil => rfl
  | cons b rest ih => simp [resultKinds, ih]

end Expr

end Sql

open Sql (Kind)

namespace Template

section

variable (d : Dialect) (ks : List Kind)

mutual

/-- The type of what a template expands to, given those of the arguments. -/
def valueKind : Template → Kind
  | .arg index => ks.getD index .other
  | .args => .other
  | .int _ => .integer
  | .number text => (Sql.Literal.number text).valueKind d
  | .string _ => .other
  | .call name items => .ofCall name (kinds items)
  | .extract _ _ => .ofField d
  | .cast _ typeName => .ofTypeName typeName
  | .binary op left right => op.valueKind d left.valueKind right.valueKind

def kinds : List Template → List Kind
  | [] => []
  | .args :: rest => ks ++ kinds rest
  | item :: rest => item.valueKind :: kinds rest

end

end

variable {d : Dialect} {column : Sql.Expr.Reference → Kind} {args : List Sql.Expr}

theorem kinds_cons (ks : List Kind) (item : Template) (rest : List Template) :
    kinds d ks (item :: rest) =
      (match item with
        | .args => ks
        | item => [item.valueKind d ks]) ++ kinds d ks rest := by
  cases item <;> simp [kinds]

mutual

theorem valueKind_expand : ∀ {T : Template} {s : Sql.Expr}, T.expand args = .ok s →
    s.valueKind d column = T.valueKind d (args.map (Sql.Expr.valueKind d column))
  | .arg index, s, h => by
    simp only [expand] at h
    split at h
    · next e he =>
      obtain rfl : e = s := by simpa using h
      simp [valueKind, he]
    · simp at h
  | .args, s, h => by simp [expand] at h
  | .int value, s, h | .string value, s, h | .number value, s, h => by
    obtain rfl : _ = s := by simpa [expand] using h
    rfl
  | .call name items, s, h => by
    obtain ⟨ss, hss, h⟩ := bind_eq_ok.mp h
    obtain rfl : _ = s := by simpa using h
    rw [Sql.Expr.apply, Sql.Expr.valueKind, valueKind, Sql.Expr.kindAll_eq, kindAll_expandItems hss]
  | .extract field operand, s, h | .cast operand field, s, h => by
    obtain ⟨o, -, h⟩ := bind_eq_ok.mp h
    obtain rfl : _ = s := by simpa using h
    rfl
  | .binary op left right, s, h => by
    obtain ⟨l, hl, h⟩ := bind_eq_ok.mp h
    obtain ⟨r, hr, h⟩ := bind_eq_ok.mp h
    obtain rfl : _ = s := by simpa using h
    rw [Sql.Expr.valueKind, valueKind, valueKind_expand hl, valueKind_expand hr]

theorem kindAll_expandItems : ∀ {items : List Template} {ss : List Sql.Expr},
    expandItems args items = .ok ss →
    ss.map (Sql.Expr.valueKind d column) = kinds d (args.map (Sql.Expr.valueKind d column)) items
  | [], ss, h => by
    obtain rfl : [] = ss := by simpa [expandItems] using h
    rfl
  | item :: rest, ss, h => by
    rw [expandItems_cons] at h
    obtain ⟨first, hf, h⟩ := bind_eq_ok.mp h
    obtain ⟨others, ho, h⟩ := bind_eq_ok.mp h
    obtain rfl : first ++ others = ss := by simpa using h
    rw [List.map_append, kindAll_expandItems ho, kinds_cons]
    congr 1
    rcases expandItem_eq_ok hf with ⟨rfl, rfl⟩ | ⟨s, hs, rfl⟩
    · rfl
    · split
      · simp [expand] at hs
      · simp [valueKind_expand hs]

end

end Template

end PlanSql
