import PlanSql.Yaml.Block
import PlanSql.Yaml.Tag

/-!
# Tokens of YAML

The tokens of a text. A block collection starts where a token stands further to the right than the
collection around it and ends before the first token further to the left, so the tokens mark the
ends of block collections as well. What a colon makes a key has been read before the colon, so its
mark is put in front of it later.
-/
namespace PlanSql.Yaml

inductive Token where
  | scalar (text : String) (style : Style)
  /-- A node that stands for the one with the given anchor. -/
  | reference (anchor : Nat)
  | anchor (number : Nat)
  | tag (text : String)
  | directive
  | documentStart
  | documentEnd
  | blockSequence
  | blockMapping
  | blockEnd
  | flowSequence
  | flowSequenceEnd
  | flowMapping
  | flowMappingEnd
  | comma
  | dash
  | key
  | value
  deriving DecidableEq, Repr

/-- A place at which a key may have started. -/
structure KeyStart where
  offset : Nat
  line : Nat
  column : Nat
  /-- The number of tokens before it. -/
  tokenCount : Nat
  /-- Whether only a key may stand there. -/
  isRequired : Bool
  deriving DecidableEq, Repr

namespace KeyStart

/-- The most octets that a key without a mark of its own takes up to its colon. -/
def maxLength : Nat := 1024

/-- Whether a colon at the given place no longer ends the key: it stands on another line or too far
on. -/
def isPast (k : KeyStart) (c : Cursor) : Bool := k.line < c.line || k.offset + maxLength < c.offset

/-- The start of a key as far as a colon at the given place or later may still end the key. A key
that is required may not be given up. -/
def upTo? (c : Cursor) : Option KeyStart → Option (Option KeyStart)
  | none => some none
  | some k => if !k.isPast c then some (some k) else if k.isRequired then none else some none

end KeyStart

/-- A text whose first tokens have been read. -/
structure Layout where
  /-- More than the characters of the text, which bounds all that is read from it. -/
  fuel : Nat
  /-- The place behind the tokens. -/
  cursor : Cursor
  tokens : Array Token
  /-- The columns of the open block collections, innermost first. -/
  columns : List Nat
  /-- Where the latest key of the innermost collection may have started. -/
  key : Option KeyStart
  /-- The same for the collections around the open flow collections, innermost first. -/
  outerKeys : List (Option KeyStart)
  /-- Whether a key may start at this place, as at the start of a line. -/
  allowsKey : Bool
  declared : Declarations

namespace Layout

def start (text : String) : Layout :=
  ⟨text.length + 1, .start text, #[], [], none, [], true, .empty⟩

/-- Whether a flow collection is open. -/
def inFlow (s : Layout) : Bool := !s.outerKeys.isEmpty

/-- The first column that belongs to the innermost block collection alone. -/
def margin (s : Layout) : Nat :=
  match s.columns with
  | [] => 0
  | column :: _ => column + 1

def push (s : Layout) (t : Token) : Layout := { s with tokens := s.tokens.push t }

/-- The layout after a token that ends at `c`. -/
def pushTo (s : Layout) (t : Token) (c : Cursor) : Layout := { s.push t with cursor := c }

/-- The layout with a further token after the first `count` ones. -/
def insert (s : Layout) (count : Nat) (t : Token) : Layout :=
  { s with tokens := s.tokens.insertIdxIfInBounds count t }

/-- A block collection opens at the given column, after the first `count` tokens, unless one is open
there; in flow collections none does. -/
def openBlock (s : Layout) (column count : Nat) (t : Token) : Layout :=
  if !s.inFlow && s.margin ≤ column then
    { s.insert count t with columns := column :: s.columns }
  else s

/-- The innermost block collections end as far as their columns satisfy `p`; in flow collections
none does. -/
def closeWhile (s : Layout) (p : Nat → Bool) : Layout :=
  if s.inFlow then s
  else { s with
    tokens := s.tokens ++ Array.replicate (s.columns.takeWhile p).length .blockEnd
    columns := s.columns.dropWhile p }

def closeAll (s : Layout) : Layout := s.closeWhile fun _ => true

/-- No colon ends the latest key any more. -/
def dropKey? (s : Layout) : Option Layout :=
  if s.key.any (·.isRequired) then none else some { s with key := none }

/-- A key may start here, if one may start here at all. At the column of the block collection
nothing else may. -/
def markKey? (s : Layout) : Option Layout :=
  if s.allowsKey then do
    let c := s.cursor
    let isRequired := !s.inFlow && s.margin = c.column + 1
    some { ← s.dropKey? with key := some ⟨c.offset, c.line, c.column, s.tokens.size, isRequired⟩ }
  else some s

/-- The place of the next token. A byte order mark may start a line. Tabs are skipped inside flow
collections and where no key may start, and a line break outside of flow collections lets a key
start. The fuel bounds the number of lines. -/
def skipSpace : Nat → Layout → Layout
  | 0, s => s
  | fuel + 1, s =>
    let c := s.cursor
    let c := if c.column = 0 && c.rest.head? = some '\ufeff' then c.skip 1 else c
    let c := c.skipWhile fun d => d = ' ' || (d = '\t' && (s.inFlow || !s.allowsKey))
    let c := if c.rest.head? = some '#' then c.skipWhile fun d => !isBreak d else c
    match c.lineBreak? with
    | none => { s with cursor := c }
    | some (_, next) =>
      skipSpace fuel { s with cursor := next, allowsKey := s.allowsKey || !s.inFlow }

/-- The layout at the place of the next token, or at the end of the text. The block collections that
stand further to the right have ended, and so have the keys whose colon would come too late. -/
def toToken? (s : Layout) : Option Layout := do
  let s := skipSpace s.fuel s
  let key ← KeyStart.upTo? s.cursor s.key
  let outerKeys ← s.outerKeys.mapM (KeyStart.upTo? s.cursor)
  let s := { s with key := key, outerKeys := outerKeys }
  some (s.closeWhile (s.cursor.column < ·))

/-! Each of the following reads the token at the place of a layout. -/

/-- A token of one character before which the latest key has ended. -/
def mark? (s : Layout) (t : Token) (allowsKey : Bool) : Option Layout := do
  some { (← s.dropKey?).pushTo t (s.cursor.skip 1) with allowsKey := allowsKey }

def openFlow? (s : Layout) (t : Token) : Option Layout := do
  let s ← s.markKey?
  some { s.pushTo t (s.cursor.skip 1) with
    outerKeys := s.key :: s.outerKeys, key := none, allowsKey := true }

def closeFlow? (s : Layout) (t : Token) : Option Layout := do
  let s ← s.mark? t false
  some <|
    match s.outerKeys with
    | [] => s
    | key :: outerKeys => { s with key := key, outerKeys := outerKeys }

/-- The layout with a block collection open at this place, where the mark of an entry stands. -/
def atEntry? (s : Layout) (t : Token) : Option Layout :=
  if s.inFlow then some s
  else if s.allowsKey then some (s.openBlock s.cursor.column s.tokens.size t)
  else none

def dash? (s : Layout) : Option Layout := do (← s.atEntry? .blockSequence).mark? .dash true

def question? (s : Layout) : Option Layout := do
  (← s.atEntry? .blockMapping).mark? .key (!s.inFlow)

/-- A colon gives the latest key its mark, and where there is none it stands for an entry whose key
has one already. -/
def colon? (s : Layout) : Option Layout :=
  match s.key with
  | some k =>
    let c := s.cursor.skip 1
    let s := (s.insert k.tokenCount .key).openBlock k.column k.tokenCount .blockMapping
    some { s.pushTo .value c with key := none, allowsKey := false }
  | none => do
    let s ← s.atEntry? .blockMapping
    some { s.pushTo .value (s.cursor.skip 1) with allowsKey := !s.inFlow }

/-- A token that a key may start with. -/
def content? (s : Layout) (read : Cursor → Option (Token × Cursor)) : Option Layout := do
  let s ← s.markKey?
  let (t, c) ← read s.cursor
  some { s.pushTo t c with allowsKey := false }

def reference? (s : Layout) : Option Layout :=
  s.content? fun c => do
    let (name, c) ← c.anchorName?
    some (.reference (← s.declared.anchor? name), c)

def anchor? (s : Layout) : Option Layout := do
  let s ← s.markKey?
  let (name, c) ← s.cursor.anchorName?
  let (number, declared) := s.declared.anchor name
  some { s.pushTo (.anchor number) c with allowsKey := false, declared := declared }

def tag? (s : Layout) : Option Layout :=
  s.content? fun c => do
    let (tag, c) ← c.tag? s.inFlow s.fuel
    some (.tag (← s.declared.tag? tag), c)

def quoted? (s : Layout) (q : Quote) : Option Layout :=
  s.content? fun c => do
    let (text, c) ← q.text? s.fuel (c.skip 1)
    some (.scalar (.ofList text) .quoted, c)

/-- A plain scalar. If a line ends behind it, a key may follow. -/
def plain? (s : Layout) : Option Layout := do
  let s ← s.markKey?
  let run ← plainRun? s.inFlow s.margin s.fuel s.cursor
  some { s.pushTo (.scalar (.ofList run.text) .plain) run.next with allowsKey := run.isBroken }

def block? (s : Layout) (style : Style) : Option Layout :=
  if s.inFlow then none
  else do
    let s ← s.dropKey?
    let (text, c) ← (s.cursor.skip 1).block? (style = .folded) s.margin s.fuel
    some { s.pushTo (.scalar (.ofList text) style) c with allowsKey := true }

def directive? (s : Layout) : Option Layout := do
  let s ← s.closeAll.dropKey?
  let (directive, c) ← s.cursor.directive? s.fuel
  let declared ← s.declared.direct? directive
  some { s.pushTo .directive c with allowsKey := false, declared := declared }

def documentMark? (s : Layout) : Option Layout := do
  let t := if s.cursor.rest.head? = some '-' then .documentStart else .documentEnd
  let s ← s.closeAll.dropKey?
  some { s.pushTo t (s.cursor.skip 3) with allowsKey := false }

/-- The layout behind the token at this place. Inside flow collections a question mark and a colon
are marks wherever a token may start. -/
def token? (s : Layout) : Option Layout :=
  match s.cursor.rest with
  | [] => none
  | ch :: rest =>
    let isMark := s.inFlow || endsWord rest
    if ch = '%' && s.cursor.column = 0 then s.directive?
    else if s.cursor.isDocumentMark then s.documentMark?
    else
      match ch with
      | '[' => s.openFlow? .flowSequence
      | ']' => s.closeFlow? .flowSequenceEnd
      | '\x7b' => s.openFlow? .flowMapping
      | '\x7d' => s.closeFlow? .flowMappingEnd
      | ',' => s.mark? .comma true
      | '-' => if endsWord rest then s.dash? else s.plain?
      | '?' => if isMark then s.question? else s.plain?
      | ':' => if isMark then s.colon? else s.plain?
      | '*' => s.reference?
      | '&' => s.anchor?
      | '!' => s.tag?
      | '\'' => s.quoted? .apostrophe
      | '"' => s.quoted? .double
      | '|' => s.block? .literal
      | '>' => s.block? .folded
      | '\t' | '#' | '%' | '@' | '\x60' => none
      | _ => s.plain?

/-- All tokens in their order. The fuel bounds the number of those to come. -/
def allTokens? : Nat → Layout → Option (List Token)
  | 0, _ => none
  | fuel + 1, s => do
    let s ← s.toToken?
    if s.cursor.rest.isEmpty then s.closeAll.dropKey?.map (·.tokens.toList)
    else allTokens? fuel (← s.token?)

end Layout

def tokens? (text : String) : Option (List Token) :=
  let s := Layout.start text
  if s.cursor.rest.all isAllowed then s.allTokens? s.fuel else none

end PlanSql.Yaml
