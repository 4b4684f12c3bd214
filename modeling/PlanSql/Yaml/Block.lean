import PlanSql.Yaml.Scalar

/-!
# Block scalars

A block scalar is a list of lines that share an indentation. Literal ones keep their line breaks;
folded ones join two lines by a space unless an empty line or an indented one stands between them.
What stays of the line breaks at the end is for the header to say.
-/
namespace PlanSql.Yaml

/-- What stays of the line breaks at the end of a block scalar. -/
inductive Chomping where
  | strip
  | clip
  | keep
  deriving DecidableEq, Repr

/-- What stays of the break after the last line and of the breaks of the empty lines behind it. -/
def Chomping.tail (chomping : Chomping) (ending blanks : List Char) : List Char :=
  match chomping with
  | .strip => []
  | .clip => ending
  | .keep => ending ++ blanks

/-- What the header of a block scalar says. -/
structure BlockHeader where
  chomping : Chomping
  /-- How much deeper the lines stand than the collection around them; otherwise the first line that
  is not empty shows it. -/
  depth : Option Nat
  deriving DecidableEq, Repr

namespace BlockHeader

def chomping? (c : Char) : Option Chomping :=
  match c with
  | '+' => some .keep
  | '-' => some .strip
  | _ => none

def depth? (c : Char) : Option Nat :=
  if '1' ≤ c && c ≤ '9' then some (c.toNat - '0'.toNat) else none

/-- The header at the front of a text and the number of its characters. Its two parts stand in
either order. -/
def ofChars : List Char → BlockHeader × Nat
  | [] => (⟨.clip, none⟩, 0)
  | c :: cs =>
    match chomping? c, depth? c with
    | some chomping, _ =>
      let depth := cs.head?.bind depth?
      (⟨chomping, depth⟩, if depth.isSome then 2 else 1)
    | none, some depth =>
      let chomping := cs.head?.bind chomping?
      (⟨chomping.getD .clip, some depth⟩, if chomping.isSome then 2 else 1)
    | none, none => (⟨.clip, none⟩, 0)

end BlockHeader

/-- A line of a block scalar that is not empty. -/
structure BlockLine where
  text : List Char
  /-- The line break after it, which may be missing at the end of the text. -/
  ending : List Char
  /-- The line breaks of the empty lines that follow. -/
  blanks : List Char

namespace BlockLine

/-- A line that starts with a blank stands deeper than the others and is not joined. -/
def isIndented (line : BlockLine) : Bool := line.text.head?.any isBlank

/-- What stands between a line and the next one in a folded scalar. -/
def seam (line next : BlockLine) : List Char :=
  if line.ending = ['\n'] && !line.isIndented && !next.isIndented then
    if line.blanks.isEmpty then [' '] else line.blanks
  else line.ending ++ line.blanks

/-- The text of the lines without the line breaks after the last one. -/
def joined (isFolded : Bool) : List BlockLine → List Char
  | [] => []
  | [line] => line.text
  | line :: next :: rest =>
    line.text ++ (if isFolded then seam line next else line.ending ++ line.blanks)
      ++ joined isFolded (next :: rest)

/-- The text of a scalar; `blanks` are the line breaks before the first line. -/
def value (isFolded : Bool) (chomping : Chomping) (blanks : List Char) (lines : List BlockLine) :
    List Char :=
  match lines.getLast? with
  | none => chomping.tail [] blanks
  | some last => blanks ++ joined isFolded lines ++ chomping.tail last.ending last.blanks

end BlockLine

namespace Cursor

/-- The line breaks of empty lines, the greatest column that their spaces and those after them
reach, and the place behind these. A line has at most `limit` spaces in front, and no tab may follow
fewer; without a limit all spaces count. The fuel bounds the number of lines. -/
def emptyLines? (limit : Option Nat) : Nat → Cursor → Option (List Char × Nat × Cursor)
  | 0, _ => none
  | fuel + 1, c =>
    let spaces := (c.rest.takeWhile (· = ' ')).length
    let c := c.skip (match limit with
      | none => spaces
      | some limit => min spaces (limit - c.column))
    let isShort := match limit with
      | none => true
      | some limit => c.column < limit
    if isShort && c.rest.head? = some '\t' then none
    else
      match c.lineBreak? with
      | none => some ([], c.column, c)
      | some (b, next) => do
        let (breaks, column, next) ← emptyLines? limit fuel next
        some (b :: breaks, max c.column column, next)

/-- The lines in the given column, and the place behind them. The fuel bounds their number, that of
the empty ones included. -/
def blockLines? (column : Nat) : Nat → Cursor → Option (List BlockLine × Cursor)
  | 0, _ => none
  | fuel + 1, c =>
    if c.column = column && !c.rest.isEmpty then do
      let (text, c) := c.span fun d => !isBreak d
      let (ending, next) := match c.lineBreak? with
        | none => ([], c)
        | some (b, next) => ([b], next)
      let (blanks, _, next) ← next.emptyLines? (some column) (fuel + 1)
      let (lines, next) ← blockLines? column fuel next
      some (⟨text, ending, blanks⟩ :: lines, next)
    else some ([], c)

/-- The block scalar whose header starts at this place, and the place behind it; `margin` is the
column that its lines reach at least. The fuel bounds the number of lines. -/
def block? (isFolded : Bool) (margin fuel : Nat) (c : Cursor) : Option (List Char × Cursor) := do
  let (header, count) := BlockHeader.ofChars c.rest
  let c ← (c.skip count).lineEnd?
  let limit := header.depth.map fun depth => margin - 1 + depth
  let (blanks, reached, c) ← c.emptyLines? limit fuel
  let column := limit.getD (max reached (max margin 1))
  let (lines, c) ← c.blockLines? column fuel
  some (BlockLine.value isFolded header.chomping blanks lines, c)

end Cursor

end PlanSql.Yaml
