import PlanSql.Proofs.Sql.Lexer
import PlanSql.Sql.Expr

/-!
# Reading expressions

How a dialect reads the tokens of an expression. Unary minus binds tightest, then multiplication,
then addition, then comparisons, LIKE, IN and IS NULL, then NOT, then AND, then OR; operators of one
level associate to the left. What is read is a tree in which literals and names of types are
sequences of tokens.

Each part of an expression has a rule, which says of which parts it consists. These begin later than
the part or are of lower rank, so the tokens bound how many rules apply within one another.
-/
namespace PlanSql.Sql

/-- An expression as it is read. -/
inductive Tree where
  | column (qualifier : Option String) (name : String)
  | literal (tokens : List Token)
  | star
  | unary (op : UnaryOp) (operand : Tree)
  | binary (op : BinaryOp) (left right : Tree)
  | call (name : String) (args : List Tree) (distinct : Bool) (filter : Option Tree)
      (window : Option (Over Tree))
  | extract (field : String) (operand : Tree)
  | case (branches : List (Tree × Tree)) (otherwise : Option Tree)
  | inList (operand : Tree) (list : List Tree) (negated : Bool)
  | isNull (operand : Tree) (negated : Bool)
  | cast (operand : Tree) (typeName : List Token)
  deriving Repr, Inhabited

/-- How tightly an operator binds. -/
def BinaryOp.level : BinaryOp → Nat
  | .or => 1
  | .and => 2
  | .eq | .notEq | .lt | .ltEq | .gt | .gtEq | .like => 4
  | .plus | .minus => 5
  | .multiply | .divide | .modulo => 6

namespace Grammar

/-- How tightly NOT binds. -/
def notLevel : Nat := 3

/-- How tightly IN and IS NULL bind. -/
def testLevel : Nat := 4

/-- How tightly unary minus binds. -/
def minusLevel : Nat := 7

/-- A reader takes a part from the front of a sequence of tokens. -/
abbrev Reader (α : Type) := List Token → Option (α × List Token)

/-- The tokens after an expected one. -/
def skip (token : Token) : List Token → Option (List Token)
  | t :: ts => if t = token then some ts else none
  | [] => none

/-- Takes a token if it is next. -/
def takes (token : Token) : List Token → Bool × List Token
  | t :: ts => if t = token then (true, ts) else (false, t :: ts)
  | [] => (false, [])

def operator? : Token → Option BinaryOp
  | .symbol text | .word text => BinaryOp.ofText? text
  | _ => none

/-- The tokens of a type name, up to the parenthesis that closes the cast. -/
def typeName : Nat → Reader (List Token)
  | _, [] => none
  | depth, t :: ts =>
    if t = .symbol ")" then
      match depth with
      | 0 => some ([], ts)
      | depth + 1 => do
        let (name, ts) ← typeName depth ts
        return (t :: name, ts)
    else do
      let (name, ts) ← typeName (if t = .symbol "(" then depth + 1 else depth) ts
      return (t :: name, ts)

/-- Whether the parentheses in a type name belong together. -/
def isBalanced : Nat → List Token → Bool
  | depth, [] => depth = 0
  | depth, t :: ts =>
    if t = .symbol ")" then
      match depth with
      | 0 => false
      | depth + 1 => isBalanced depth ts
    else isBalanced (if t = .symbol "(" then depth + 1 else depth) ts

theorem typeName_of_isBalanced {depth : Nat} {ts : List Token} (h : isBalanced depth ts = true)
    (rest : List Token) : typeName depth (ts ++ .symbol ")" :: rest) = some (ts, rest) := by
  induction ts generalizing depth with
  | nil =>
    obtain rfl : depth = 0 := by simpa [isBalanced] using h
    simp [typeName]
  | cons t ts ih =>
    by_cases ht : t = .symbol ")"
    · cases depth with
      | zero => simp [isBalanced, ht] at h
      | succ depth =>
        have h : isBalanced depth ts = true := by simpa [isBalanced, ht] using h
        simp [typeName, ht, ih h]
    · have h : isBalanced (if t = .symbol "(" then depth + 1 else depth) ts = true := by
        simpa [isBalanced, ht] using h
      simp [typeName, ht, ih h]

/-- The words that begin something else than the call of a function. -/
def reserved : List String := ["NOT", "CASE", "CAST", "EXTRACT", "DISTINCT"]

/-- A column, of whose name the first part has been read. -/
def columnAfter (name : String) (ts : List Token) : Tree × List Token :=
  match takes (.symbol ".") ts with
  | (true, .identifier column :: rest) => (.column (some name) column, rest)
  | _ => (.column none name, ts)

/-- A constant that begins with a word. -/
def constantAfter (text : String) : Reader Tree
  | .string value :: ts =>
    if text = "DATE" ∨ text = "TIMESTAMP" then some (.literal [.word text, .string value], ts)
    else none
  | ts =>
    if text = "NULL" ∨ text = "TRUE" ∨ text = "FALSE" then some (.literal [.word text], ts)
    else none

/-- A column, a constant or a star. -/
def leaf : Reader Tree
  | .identifier name :: ts => some (columnAfter name ts)
  | .number text :: ts => some (.literal [.number text], ts)
  | .string value :: ts => some (.literal [.string value], ts)
  | .word text :: ts => constantAfter text ts
  | .symbol text :: ts => if text = "*" then some (.star, ts) else none
  | .comment :: _ | [] => none

/-- Whether a sort is descending. -/
def direction (ts : List Token) : Option (Bool × List Token) := do
  let (descending, ts) := takes (.word "DESC") ts
  if descending then return (true, ts)
  else do
    let ts ← skip (.word "ASC") ts
    return (false, ts)

/-- A part of an expression, by the kind of what it is read as. -/
inductive Part : Type → Type where
  /-- An expression whose operators bind at least as tightly as the level says. -/
  | expression (level : Nat) : Part Tree
  /-- An expression up to its first infix operator. -/
  | operand (level : Nat) : Part Tree
  /-- What follows a name and a parenthesis. -/
  | applied (name : String) : Part Tree
  /-- The operators that follow an operand. -/
  | continued (level : Nat) (left : Tree) : Part Tree
  /-- Expressions up to the parenthesis that closes them; there may be none. -/
  | enclosed : Part (List Tree)
  /-- Expressions with commas between them. -/
  | list : Part (List Tree)
  /-- Sort keys with commas between them. -/
  | keys : Part (List (SortKey Tree))
  /-- The branches of a CASE. -/
  | branches : Part (List (Tree × Tree))
  | filterClause : Part (Option Tree)
  | overClause : Part (Option (Over Tree))

/-- How the parts of an expression are read. -/
abbrev Readers := ⦃α : Type⦄ → Part α → Reader α

section Rules

variable (read : Readers)

def expressionRule (level : Nat) (ts : List Token) : Option (Tree × List Token) := do
  let (t, ts) ← read (.operand level) ts
  read (.continued level t) ts

def operandRule (level : Nat) : Reader Tree
  | .symbol text :: rest =>
    if text = "-" then do
      let (t, ts) ← read (.operand minusLevel) rest
      return (.unary .minus t, ts)
    else if text = "(" then do
      let (t, ts) ← read (.expression 1) rest
      let ts ← skip (.symbol ")") ts
      return (t, ts)
    else leaf (.symbol text :: rest)
  | .word text :: rest =>
    if text = "NOT" then
      if level ≤ notLevel then do
        let (t, ts) ← read (.expression notLevel) rest
        return (.unary .not t, ts)
      else none
    else if text = "CASE" then do
      let (branches, ts) ← read .branches rest
      let (hasElse, ts) := takes (.word "ELSE") ts
      if hasElse then do
        let (otherwise, ts) ← read (.expression 1) ts
        let ts ← skip (.word "END") ts
        return (.case branches (some otherwise), ts)
      else do
        let ts ← skip (.word "END") ts
        return (.case branches none, ts)
    else
      let (opens, ts) := takes (.symbol "(") rest
      if opens then read (.applied text) ts else leaf (.word text :: rest)
  | ts => leaf ts

def appliedRule (name : String) (ts : List Token) : Option (Tree × List Token) :=
  if name = "CAST" then do
    let (t, ts) ← read (.expression 1) ts
    let ts ← skip (.word "AS") ts
    let (typeName, ts) ← typeName 0 ts
    return (.cast t typeName, ts)
  else if name = "EXTRACT" then
    match ts with
    | .word field :: ts => do
      let ts ← skip (.word "FROM") ts
      let (t, ts) ← read (.expression 1) ts
      let ts ← skip (.symbol ")") ts
      return (.extract field t, ts)
    | _ => none
  else if name = "DISTINCT" then none
  else do
    let (distinct, ts) := takes (.word "DISTINCT") ts
    let (args, ts) ← read .enclosed ts
    let (filter, ts) ← read .filterClause ts
    let (window, ts) ← read .overClause ts
    return (.call name args distinct filter window, ts)

def continuedRule (level : Nat) (left : Tree) : Reader Tree
  | [] => some (left, [])
  | t :: rest =>
    match operator? t with
    | some op =>
      if level ≤ op.level then do
        let (right, ts) ← read (.expression (op.level + 1)) rest
        read (.continued level (.binary op left right)) ts
      else some (left, t :: rest)
    | none =>
      if testLevel < level then some (left, t :: rest)
      else if t = .word "IS" then do
        let (negated, ts) := takes (.word "NOT") rest
        let ts ← skip (.word "NULL") ts
        read (.continued level (.isNull left negated)) ts
      else
        let (negated, rest') := takes (.word "NOT") (t :: rest)
        let (isIn, ts) := takes (.word "IN") rest'
        if isIn then do
          let ts ← skip (.symbol "(") ts
          let (items, ts) ← read .enclosed ts
          read (.continued level (.inList left items negated)) ts
        else some (left, t :: rest)

def enclosedRule (ts : List Token) : Option (List Tree × List Token) := do
  let (isEmpty, ts) := takes (.symbol ")") ts
  if isEmpty then return ([], ts)
  else do
    let (items, ts) ← read .list ts
    let ts ← skip (.symbol ")") ts
    return (items, ts)

def listRule (ts : List Token) : Option (List Tree × List Token) := do
  let (t, ts) ← read (.expression 1) ts
  let (comma, ts) := takes (.symbol ",") ts
  if comma then do
    let (rest, ts) ← read .list ts
    return (t :: rest, ts)
  else return ([t], ts)

def keysRule (ts : List Token) : Option (List (SortKey Tree) × List Token) := do
  let (t, ts) ← read (.expression 1) ts
  let (descending, ts) ← direction ts
  let (comma, ts) := takes (.symbol ",") ts
  if comma then do
    let (rest, ts) ← read .keys ts
    return (⟨t, descending⟩ :: rest, ts)
  else return ([⟨t, descending⟩], ts)

def branchesRule (ts : List Token) : Option (List (Tree × Tree) × List Token) := do
  let (hasBranch, ts) := takes (.word "WHEN") ts
  if hasBranch then do
    let (condition, ts) ← read (.expression 1) ts
    let ts ← skip (.word "THEN") ts
    let (result, ts) ← read (.expression 1) ts
    let (rest, ts) ← read .branches ts
    return ((condition, result) :: rest, ts)
  else return ([], ts)

def filterRule (ts : List Token) : Option (Option Tree × List Token) := do
  let (filters, ts) := takes (.word "FILTER") ts
  if filters then do
    let ts ← skip (.symbol "(") ts
    let ts ← skip (.word "WHERE") ts
    let (condition, ts) ← read (.expression 1) ts
    let ts ← skip (.symbol ")") ts
    return (some condition, ts)
  else return (none, ts)

/-- What follows a word and BY, if the word is there. -/
def byClause {α : Type} (word : String) (part : Part (List α)) (ts : List Token) :
    Option (List α × List Token) := do
  let (isThere, ts) := takes (.word word) ts
  if isThere then do
    let ts ← skip (.word "BY") ts
    read part ts
  else return ([], ts)

def overRule (ts : List Token) : Option (Option (Over Tree) × List Token) := do
  let (isOver, ts) := takes (.word "OVER") ts
  if isOver then do
    let ts ← skip (.symbol "(") ts
    let (partitionBy, ts) ← byClause read "PARTITION" .list ts
    let (orderBy, ts) ← byClause read "ORDER" .keys ts
    let ts ← skip (.symbol ")") ts
    return (some ⟨partitionBy, orderBy⟩, ts)
  else return (none, ts)

/-- Reads a part, of whose own parts it is known how to read them. -/
def rule : Readers
  | _, .expression level => expressionRule read level
  | _, .operand level => operandRule read level
  | _, .applied name => appliedRule read name
  | _, .continued level left => continuedRule read level left
  | _, .enclosed => enclosedRule read
  | _, .list => listRule read
  | _, .keys => keysRule read
  | _, .branches => branchesRule read
  | _, .filterClause => filterRule read
  | _, .overClause => overRule read

end Rules

namespace Part

variable {α : Type}

/-- Of the parts that begin at one place, those of lower rank are read on behalf of the others. -/
def rank : Part α → Nat
  | .expression _ => 1
  | .list | .keys => 2
  | .enclosed => 3
  | .applied _ => 4
  | _ => 0

/-- Bounds how many rules apply within one another. -/
def depth (p : Part α) (ts : List Token) : Nat := 5 * ts.length + p.rank

end Part

/-- Reads the parts in which no more rules apply within one another than a bound says. -/
def readersTo : Nat → Readers
  | 0 => fun _ _ _ => none
  | n + 1 => rule (readersTo n)

/-- Reads a part from the front of a sequence of tokens. -/
def read : Readers := fun _ p ts => readersTo (p.depth ts + 1) p ts

end Grammar

end PlanSql.Sql

namespace PlanSql.Descriptor

open Sql

/-- The expression that a text is. -/
def readExpression (d : Descriptor) (text : String) : Option Tree := do
  let ts ← d.lex text
  match ← Grammar.read (.expression 1) ts with
  | (t, []) => some t
  | _ => none

end PlanSql.Descriptor
