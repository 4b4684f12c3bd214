import PlanSql.Dialect.Basic

/-!
# Pieces of SQL text

The pieces a statement's text is made of. Names and strings are kept as they are until a dialect
spells them: an identifier between the dialect's quotes with every such quote inside doubled, a
string between apostrophes with apostrophes doubled or, where backslashes escape, behind a
backslash.
-/
namespace PlanSql.Sql

inductive Piece where
  | identifier (name : String)
  | string (value : String)
  /-- A keyword, number or name that stands as it is. -/
  | word (text : String)
  | symbol (text : String)
  | space
  deriving DecidableEq, Repr

def identifierChar (quote : Char) (c : Char) : List Char := if c = quote then [c, c] else [c]

def stringChar (escape : StringEscape) (c : Char) : List Char :=
  match escape with
  | .standard => if c = '\'' then [c, c] else [c]
  | .backslash => if c = '\'' ∨ c = '\\' then ['\\', c] else [c]

end PlanSql.Sql

namespace PlanSql.Descriptor

/-- An identifier in quotes. -/
def identifierText (d : Descriptor) (name : String) : String :=
  let quote := d.quote.mark
  String.ofList (quote :: name.toList.flatMap (Sql.identifierChar quote) ++ [quote])

/-- A string literal. -/
def stringText (d : Descriptor) (value : String) : String :=
  String.ofList ('\'' :: value.toList.flatMap (Sql.stringChar d.stringEscape) ++ ['\''])

def pieceText (d : Descriptor) : Sql.Piece → String
  | .identifier name => d.identifierText name
  | .string value => d.stringText value
  | .word text => text
  | .symbol text => text
  | .space => " "

/-- The text of a sequence of pieces. -/
def text (d : Descriptor) (pieces : List Sql.Piece) : String := String.join (pieces.map d.pieceText)

end PlanSql.Descriptor
