import PlanSql.Json.Reader
import PlanSql.Yaml.Cursor

/-!
# Plain and quoted scalars

Plain and quoted scalars may go over several lines. Of a run of blanks and line breaks between two
words a single line break reads as a space, further line breaks stay, and the blanks around line
breaks do not count; a run without line breaks stays as it is.
-/
namespace PlanSql.Yaml

/-- How a scalar is written. -/
inductive Style where
  | plain
  | quoted
  | literal
  | folded
  deriving DecidableEq, Repr

/-- A run of blanks and line breaks. -/
structure Gap where
  /-- The blanks before the first line break. -/
  blanks : List Char
  breaks : List Char

/-- What stands for a gap in the value of a scalar. -/
def Gap.folded (g : Gap) : List Char :=
  match g.breaks with
  | [] => g.blanks
  | ['\n'] => [' ']
  | '\n' :: more => more
  | breaks => breaks

namespace Cursor

/-- The line breaks after the start of a line, with the place behind them and the blanks around
them. No tab may stand before the column `margin`. The fuel bounds the number of lines. -/
def breaks? (margin : Nat) : Nat → Cursor → Option (List Char × Cursor)
  | 0, _ => none
  | fuel + 1, c =>
    let (blanks, c) := c.span isBlank
    if (blanks.take margin).contains '\t' then none
    else
      match c.lineBreak? with
      | none => some ([], c)
      | some (b, next) => (breaks? margin fuel next).map fun (bs, c) => (b :: bs, c)

/-- The gap at this place and the place behind it. -/
def gap? (margin fuel : Nat) (c : Cursor) : Option (Gap × Cursor) :=
  let (blanks, c) := c.span isBlank
  match c.lineBreak? with
  | none => some (⟨blanks, []⟩, c)
  | some (b, next) => (next.breaks? margin fuel).map fun (bs, c) => (⟨blanks, b :: bs⟩, c)

end Cursor

/-! Plain scalars. -/

/-- One word of a plain scalar. A colon before a blank ends it, and so does a mark of a flow
collection inside one, where a colon may not stand directly before such a mark. -/
def plainWord? (inFlow : Bool) : List Char → Option (List Char)
  | [] => some []
  | c :: cs =>
    if isBlank c || isBreak c then some []
    else if inFlow && c = ':' && cs.head?.any (fun d => d = '?' || isFlowMark d) then none
    else if (c = ':' && endsWord cs) || (inFlow && isFlowMark c) then some []
    else (plainWord? inFlow cs).map (c :: ·)

/-- A plain scalar as it is read. -/
structure PlainRun where
  text : List Char
  /-- Whether a line ends between the last word and `next`. -/
  isBroken : Bool
  next : Cursor

/-- The plain scalar at a place where one may start or go on, empty if it does not go on there;
`margin` is the column that its lines must reach outside of flow collections. A document mark and a
comment end it. The fuel bounds the number of words. -/
def plainRun? (inFlow : Bool) (margin : Nat) : Nat → Cursor → Option PlainRun
  | 0, _ => none
  | fuel + 1, c => do
    let word ← plainWord? inFlow c.rest
    if word.isEmpty then some ⟨[], false, c⟩
    else
      let (gap, next) ← (c.skip word.length).gap? margin fuel
      let ended : PlainRun := ⟨word, !gap.breaks.isEmpty, next⟩
      if (!inFlow && next.column < margin) || next.isDocumentMark || next.rest.head? = some '#' then
        some ended
      else
        let more ← plainRun? inFlow margin fuel next
        if more.text.isEmpty then some ended
        else some ⟨word ++ gap.folded ++ more.text, more.isBroken, more.next⟩

/-! Quoted scalars. -/

/-- The character named by the letter after a backslash. -/
def shortEscape? (c : Char) : Option Char :=
  match c with
  | '0' => some '\x00'
  | 'a' => some '\x07'
  | 'b' => some '\x08'
  | 't' => some '\t'
  | '\t' => some '\t'
  | 'n' => some '\n'
  | 'v' => some '\x0b'
  | 'f' => some '\x0c'
  | 'r' => some '\r'
  | 'e' => some '\x1b'
  | ' ' => some ' '
  | '"' => some '"'
  | '/' => some '/'
  | '\\' => some '\\'
  | 'N' => some '\u0085'
  | '_' => some '\u00a0'
  | 'L' => some '\u2028'
  | 'P' => some '\u2029'
  | _ => none

/-- The number of hexadecimal digits after an escape letter. -/
def hexWidth? (c : Char) : Option Nat :=
  match c with
  | 'x' => some 2
  | 'u' => some 4
  | 'U' => some 8
  | _ => none

/-- The character whose code point the first `width` digits of a text give. -/
def codePoint? (width : Nat) (cs : List Char) : Option Char := do
  let values ← (cs.take width).mapM Json.hexDigit?
  let n := values.foldl (fun n d => 16 * n + d) 0
  if values.length = width ∧ n.isValidChar then some (Char.ofNat n) else none

/-- What stands after a backslash: the character that it gives and the number of its characters. -/
def escape? : List Char → Option (Char × Nat)
  | [] => none
  | c :: cs =>
    match hexWidth? c with
    | some width => (codePoint? width cs).map fun d => (d, width + 1)
    | none => (shortEscape? c).map fun d => (d, 1)

/-- The two marks that quote. -/
inductive Quote where
  | apostrophe
  | double
  deriving DecidableEq, Repr

namespace Quote

def mark : Quote → Char
  | .apostrophe => '\''
  | .double => '"'

/-- Whether a word between the marks ends before this text: before a blank, the end of a line, a
backslash there, and the closing mark. A doubled apostrophe is no closing mark. -/
def endsWord (q : Quote) : List Char → Bool
  | [] => true
  | c :: cs =>
    isBlank c || isBreak c ||
      match q with
      | .apostrophe => c = '\'' && cs.head? != some '\''
      | .double => c = '"' || (c = '\\' && cs.head?.any isBreak)

/-- The character that stands at the front of a text, and how many characters write it. -/
def char? (q : Quote) : List Char → Option (Char × Nat)
  | [] => none
  | c :: cs =>
    match q with
    | .apostrophe => some (c, if c = '\'' then 2 else 1)
    | .double => if c = '\\' then (escape? cs).map fun (d, n) => (d, n + 1) else some (c, 1)

/-- One word between the marks and the place behind it. The fuel bounds its characters. -/
def word? (q : Quote) : Nat → Cursor → Option (List Char × Cursor)
  | 0, _ => none
  | fuel + 1, c =>
    if q.endsWord c.rest then some ([], c)
    else do
      let (d, count) ← q.char? c.rest
      let (word, next) ← word? q fuel (c.skip count)
      some (d :: word, next)

/-- The text up to the closing mark and the place behind that. No document mark may stand in it.
Behind a backslash at the end of a line only further line breaks count. The fuel bounds the number
of words and their characters. -/
def text? (q : Quote) : Nat → Cursor → Option (List Char × Cursor)
  | 0, _ => none
  | fuel + 1, c =>
    if c.isDocumentMark then none
    else do
      let (word, c) ← q.word? (fuel + 1) c
      match c.rest.head? with
      | none => none
      | some ch =>
        if ch = q.mark then some (word, c.skip 1)
        else if ch = '\\' then
          let (_, next) ← (c.skip 1).lineBreak?
          let (breaks, next) ← next.breaks? 0 (fuel + 1)
          let (more, next) ← text? q fuel next
          some (word ++ breaks ++ more, next)
        else
          let (gap, next) ← c.gap? 0 (fuel + 1)
          let (more, next) ← text? q fuel next
          some (word ++ gap.folded ++ more, next)

end Quote

end PlanSql.Yaml
