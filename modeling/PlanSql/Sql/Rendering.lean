import PlanSql.Sql.Piece
import PlanSql.Sql.Select

/-!
# Statements as pieces of text

Statements as sequences of pieces, on one line. AND and OR always stand in parentheses; comparisons,
arithmetic, IN and IS NULL do so as operands of other operators. Conjuncts of a clause are joined by
AND as they are.
-/
namespace PlanSql.Sql

namespace Piece

/-- Pieces between parentheses. -/
def parens (ps : List Piece) : List Piece := .symbol "(" :: ps ++ [.symbol ")"]

/-- Pieces between parentheses if the condition holds. -/
def parensIf (b : Bool) (ps : List Piece) : List Piece := if b then parens ps else ps

/-- A keyword with a space on either side. -/
def around (text : String) : List Piece := [.space, .word text, .space]

def comma : List Piece := [.symbol ",", .space]

/-- Groups of pieces with a separator between each two. -/
def separated (separator : List Piece) : List (List Piece) → List Piece
  | [] => []
  | [group] => group
  | group :: rest => group ++ separator ++ separated separator rest

end Piece

open Piece

/-- The text of a floating-point literal, which always shows that it is fractional. -/
def floatText (x : Binary64) : String :=
  if x.plain.contains '.' then x.plain else x.plain ++ ".0"

/-- A date or timestamp, after its keyword in the dialects that have typed literals. -/
def temporalPieces (d : Descriptor) (keyword text : String) : List Piece :=
  if d.typedTemporalLiterals then [.word keyword, .space, .string text] else [.string text]

namespace Literal

def pieces (d : Descriptor) : Literal → List Piece
  | .value .null => [.word "NULL"]
  | .value (.bool true) => [.word "TRUE"]
  | .value (.bool false) => [.word "FALSE"]
  | .value (.int i) => [.word (toString i)]
  | .value (.float x) => [.word (floatText x)]
  | .value (.text s) => [.string s]
  | .value (.date t) => temporalPieces d "DATE" t.text
  | .value (.timestamp t) => temporalPieces d "TIMESTAMP" t.text
  | .number text => [.word text]

end Literal

namespace SortKey

/-- An expression's pieces and its direction. -/
def directed (descending : Bool) (ps : List Piece) : List Piece :=
  ps ++ [.space, .word (if descending then "DESC" else "ASC")]

end SortKey

namespace Expr

/-- Whether an expression stands in parentheses as an operand. -/
def isOpen : Expr → Bool
  | .binary op _ _ => !op.isLogical
  | .inList _ _ _ | .isNull _ _ => true
  | _ => false

/-- Whether an expression is one unit by itself. -/
def isAtomic : Expr → Bool
  | .column _ _ | .literal _ | .call _ _ _ _ _ | .cast _ _ | .extract _ _ => true
  | _ => false

def isLogical : Expr → Bool
  | .binary op _ _ => op.isLogical
  | _ => false

/-- Whether an expression needs no parentheses after a unary operator. -/
def standsAfter (op : UnaryOp) (e : Expr) : Bool :=
  match op with
  | .not => e.isAtomic || e.isLogical
  | .minus => e.isAtomic && !e.isLiteral

/-- A unary operator and the space that follows it. -/
def unaryPieces : UnaryOp → List Piece
  | .not => [.word "NOT", .space]
  | .minus => [.symbol "-"]

/-- The word NOT before a test, if it is negated. -/
def negation (negated : Bool) : List Piece := if negated then [.word "NOT", .space] else []

/-- An operator between its operands: a keyword is a word and the others are symbols. -/
def operatorPiece (op : BinaryOp) : Piece :=
  match op with
  | .and | .or | .like => .word op.text
  | _ => .symbol op.text

mutual

/-- The pieces of an expression. -/
def pieces (d : Descriptor) : Expr → List Piece
  | .column none name => [.identifier name]
  | .column (some qualifier) name => [.identifier qualifier, .symbol ".", .identifier name]
  | .literal l => l.pieces d
  | .star => [.symbol "*"]
  | .unary op operand =>
    unaryPieces op ++ parensIf (!operand.standsAfter op) (operand.pieces d)
  | .binary op left right =>
    parensIf op.isLogical
      (parensIf left.isOpen (left.pieces d) ++ [.space, operatorPiece op, .space]
        ++ parensIf right.isOpen (right.pieces d))
  | .call name args distinct filter window =>
    .word name ::
      parens ((if distinct then [.word "DISTINCT", .space] else []) ++ listPieces d args)
      ++ filterPieces d filter ++ overPieces d window
  | .extract field operand =>
    .word "EXTRACT" :: parens (.word field :: around "FROM" ++ operand.pieces d)
  | .case branches otherwise =>
    .word "CASE" :: branchPieces d branches ++ elsePieces d otherwise ++ [.space, .word "END"]
  | .inList operand list negated =>
    parensIf operand.isOpen (operand.pieces d) ++ .space :: negation negated
      ++ .word "IN" :: .space :: parens (listPieces d list)
  | .isNull operand negated =>
    parensIf operand.isOpen (operand.pieces d) ++ around "IS" ++ negation negated ++ [.word "NULL"]
  | .cast operand typeName =>
    .word "CAST" :: parens (operand.pieces d ++ around "AS" ++ [.word typeName])

/-- Expressions with commas between them. -/
def listPieces (d : Descriptor) : List Expr → List Piece
  | [] => []
  | [e] => e.pieces d
  | e :: rest => e.pieces d ++ comma ++ listPieces d rest

def filterPieces (d : Descriptor) : Option Expr → List Piece
  | none => []
  | some condition =>
    .space :: .word "FILTER" :: .space :: parens (.word "WHERE" :: .space :: condition.pieces d)

def overPieces (d : Descriptor) : Option (Over Expr) → List Piece
  | none => []
  | some ⟨partitionBy, orderBy⟩ =>
    .space :: .word "OVER" :: .space :: parens
      ((if partitionBy.isEmpty then []
          else .word "PARTITION" :: .space :: .word "BY" :: .space :: listPieces d partitionBy)
        ++ (if partitionBy.isEmpty || orderBy.isEmpty then [] else [.space])
        ++ (if orderBy.isEmpty then []
          else .word "ORDER" :: .space :: .word "BY" :: .space :: keyPieces d orderBy))

/-- Sort keys with commas between them. -/
def keyPieces (d : Descriptor) : List (SortKey Expr) → List Piece
  | [] => []
  | [⟨e, descending⟩] => SortKey.directed descending (e.pieces d)
  | ⟨e, descending⟩ :: rest =>
    SortKey.directed descending (e.pieces d) ++ comma ++ keyPieces d rest

def branchPieces (d : Descriptor) : List (Expr × Expr) → List Piece
  | [] => []
  | (condition, result) :: rest =>
    around "WHEN" ++ condition.pieces d ++ around "THEN" ++ result.pieces d ++ branchPieces d rest

def elsePieces (d : Descriptor) : Option Expr → List Piece
  | none => []
  | some e => around "ELSE" ++ e.pieces d

end

/-- The text of an expression. -/
def text (d : Descriptor) (e : Expr) : String := d.text (e.pieces d)

end Expr

/-- Conjuncts with AND between them. -/
def conjunctionPieces (d : Descriptor) (conjuncts : List Expr) : List Piece :=
  separated (around "AND") (conjuncts.map (Expr.pieces d))

def clausePieces (keywords : List String) (content : List Piece) : List Piece :=
  .space :: separated [.space] (keywords.map fun k => [.word k]) ++ .space :: content

/-- A clause that is absent when it lists nothing. -/
def clauseUnless (isEmpty : Bool) (keywords : List String) (content : List Piece) : List Piece :=
  if isEmpty then [] else clausePieces keywords content

def countPiece (n : Nat) : List Piece := [.word (toString n)]

/-- Row limit and offset. An offset of zero is left out; an offset alone is written in the dialect's
way. -/
def limitPieces (d : Descriptor) (limit : Option Nat) (offset : Nat) : List Piece :=
  let skipped := if offset = 0 then [] else clausePieces ["OFFSET"] (countPiece offset)
  match limit with
  | some n => clausePieces ["LIMIT"] (countPiece n) ++ skipped
  | none =>
    if offset = 0 then []
    else match d.offsetWithoutLimit with
      | .bare => skipped
      | .limitSentinel all => clausePieces ["LIMIT"] [.word all] ++ skipped

def aliasPieces : Option String → List Piece
  | none => []
  | some aliasName => around "AS" ++ [.identifier aliasName]

def SelectItem.pieces (d : Descriptor) (item : SelectItem) : List Piece :=
  item.expr.pieces d ++ aliasPieces item.aliasName

def projectionPieces (d : Descriptor) : Option (List SelectItem) → List Piece
  | none => [.symbol "*"]
  | some items => separated comma (items.map (SelectItem.pieces d))

/-- The clauses of a statement around the pieces of its source. -/
def SelectOver.piecesAround {F : Type} (d : Descriptor) (s : SelectOver F)
    (source : List Piece) : List Piece :=
  .word "SELECT" :: .space :: (if s.distinct then [.word "DISTINCT", .space] else [])
    ++ projectionPieces d s.projection
    ++ clausePieces ["FROM"] source
    ++ clauseUnless s.selection.isEmpty ["WHERE"] (conjunctionPieces d s.selection)
    ++ clauseUnless s.groupBy.isEmpty ["GROUP", "BY"] (Expr.listPieces d s.groupBy)
    ++ clauseUnless s.having.isEmpty ["HAVING"] (conjunctionPieces d s.having)
    ++ clauseUnless s.qualify.isEmpty ["QUALIFY"] (conjunctionPieces d s.qualify)
    ++ clauseUnless s.orderBy.isEmpty ["ORDER", "BY"] (Expr.keyPieces d s.orderBy)
    ++ limitPieces d s.limit s.offset

/-- The pieces of a source. -/
def FromItem.pieces (d : Descriptor) : FromItem → List Piece
  | .table name aliasName => .identifier name :: aliasPieces aliasName
  | .derived s aliasName =>
    parens (s.piecesAround d (FromItem.pieces d s.source)) ++ aliasPieces (some aliasName)
  | .join left right op on =>
    FromItem.pieces d left ++ clausePieces op.keywords (FromItem.pieces d right)
      ++ clauseUnless on.isEmpty ["ON"] (conjunctionPieces d on)

namespace Select

def pieces (d : Descriptor) (s : Select) : List Piece :=
  s.piecesAround d (s.source.pieces d)

def text (d : Descriptor) (s : Select) : String := d.text (pieces d s)

end Select

end PlanSql.Sql
