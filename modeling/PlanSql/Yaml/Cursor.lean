/-!
# Places in a text

A place in a text is what is left of the text there, with its offset in octets, its line and its
column. A carriage return, a line feed, both of them together and a next-line character
all end a line in the same way; the two Unicode separators end a line and are told apart from it.
-/
namespace PlanSql.Yaml

def isBreak (c : Char) : Bool :=
  c = '\n' || c = '\r' || c = '\u0085' || c = '\u2028' || c = '\u2029'

/-- Whether a text may hold the character, that is, whether it is no control character and no
noncharacter of the first plane. -/
def isAllowed (c : Char) : Bool :=
  c = '\t' || isBreak c || (' ' ≤ c && c ≤ '~') || ('\u00a0' ≤ c && c ≤ '\ufffd') || '\uffff' < c

def isBlank (c : Char) : Bool := c = ' ' || c = '\t'

/-- A character of handles and of the names of anchors and directives. -/
def isWordChar (c : Char) : Bool := c.isAlphanum || c = '_' || c = '-'

/-- A mark that has a meaning everywhere in a flow collection. -/
def isFlowMark (c : Char) : Bool :=
  c = ',' || c = '[' || c = ']' || c = '\x7b' || c = '\x7d'

/-- Whether a text starts with a blank or a line break, or is empty. -/
def endsWord : List Char → Bool
  | [] => true
  | c :: _ => isBlank c || isBreak c

/-- How many octets the characters take. -/
def octets (cs : List Char) : Nat := cs.foldl (fun n c => n + c.utf8Size) 0

structure Cursor where
  rest : List Char
  /-- The number of octets before this place. -/
  offset : Nat
  line : Nat
  column : Nat
  deriving DecidableEq, Repr

namespace Cursor

/-- The first place of a text. -/
def start (text : String) : Cursor := ⟨text.toList, 0, 0, 0⟩

/-- The place `n` characters further on the same line. -/
def skip (c : Cursor) (n : Nat) : Cursor :=
  { c with
    rest := c.rest.drop n
    offset := c.offset + octets (c.rest.take n)
    column := c.column + n }

/-- The characters from here on that satisfy `p`, which no line break does, and the place behind
them. -/
def span (p : Char → Bool) (c : Cursor) : List Char × Cursor :=
  let run := c.rest.takeWhile p
  (run, c.skip run.length)

/-- The place behind the characters that satisfy `p`, which no line break does. -/
def skipWhile (p : Char → Bool) (c : Cursor) : Cursor := (c.span p).2

/-- The line break at this place and the start of the next line. Breaks of the same effect give the
same character. -/
def lineBreak? (c : Cursor) : Option (Char × Cursor) :=
  match c.rest with
  | '\r' :: '\n' :: rest => some ('\n', ⟨rest, c.offset + 2, c.line + 1, 0⟩)
  | ch :: rest =>
    if isBreak ch then
      let b := if ch = '\u2028' || ch = '\u2029' then ch else '\n'
      some (b, ⟨rest, c.offset + ch.utf8Size, c.line + 1, 0⟩)
    else none
  | [] => none

/-- The place behind the blanks and the comment of this line, if only those are left of it. -/
def lineEnd? (c : Cursor) : Option Cursor :=
  let c := c.skipWhile isBlank
  let c := if c.rest.head? = some '#' then c.skipWhile fun d => !isBreak d else c
  if c.rest.isEmpty then some c else c.lineBreak?.map (·.2)

/-- Whether three dashes or three dots stand alone at the start of this line. -/
def isDocumentMark (c : Cursor) : Bool :=
  c.column = 0 &&
    match c.rest with
    | '-' :: '-' :: '-' :: rest | '.' :: '.' :: '.' :: rest => endsWord rest
    | _ => false

end Cursor

end PlanSql.Yaml
