import PlanSql.Json.Reader
import PlanSql.Text.Digits
import PlanSql.Yaml.Cursor

/-!
# Tags and directives

A tag is written in full, or as a suffix after a handle that stands for the text in front of it. The
directives before a document name the version of the format and give handles their meaning.
-/
namespace PlanSql.Yaml

/-! Octets of characters, each written as a percent sign and two digits. -/

def octet? : List Char → Option Nat
  | '%' :: a :: b :: _ => do some (16 * (← Json.hexDigit? a) + (← Json.hexDigit? b))
  | _ => none

/-- The number of octets after the first one of a character, and what the first one adds. -/
def leadingOctet? (octet : Nat) : Option (Nat × Nat) :=
  if octet / 128 = 0 then some (0, octet)
  else if octet / 32 = 6 then some (1, octet % 32)
  else if octet / 16 = 14 then some (2, octet % 16)
  else if octet / 8 = 30 then some (3, octet % 8)
  else none

/-- The number that the given one and the bits of `count` further octets make. -/
def furtherOctets? : Nat → Nat → List Char → Option Nat
  | 0, n, _ => some n
  | count + 1, n, cs => do
    let octet ← octet? cs
    guard (octet / 64 = 2)
    furtherOctets? count (64 * n + octet % 64) (cs.drop 3)

/-- The least code point that needs the given number of further octets. -/
def leastCodePoint : Nat → Nat
  | 0 => 0
  | 1 => 0x80
  | 2 => 0x800
  | _ => 0x10000

/-- The character that escaped octets at the front of a text give, and the number of characters that
they take. Octets that only have the form of a character give none. -/
def escapedChar? (cs : List Char) : Option (Option Char × Nat) := do
  let (count, n) ← leadingOctet? (← octet? cs)
  let n ← furtherOctets? count n (cs.drop 3)
  some (if leastCodePoint count ≤ n ∧ n.isValidChar then some (Char.ofNat n) else none,
    3 * count + 3)

/-! Tags. -/

/-- A character of the text of a tag, apart from the percent sign. Further marks may stand in tags
that are written in full. -/
def isTagChar (inFull : Bool) (c : Char) : Bool :=
  isWordChar c || ";/?:@&=+$.!~*'()".toList.contains c || (inFull && ",[]".toList.contains c)

/-- The characters of the text of a tag at a place, and the place behind them. The fuel bounds their
number. -/
def tagChars? (inFull : Bool) : Nat → Cursor → Option (List (Option Char) × Cursor)
  | 0, _ => none
  | fuel + 1, c =>
    match c.rest with
    | [] => some ([], c)
    | ch :: _ =>
      if ch = '%' then do
        let (d, count) ← escapedChar? c.rest
        let (ds, c) ← tagChars? inFull fuel (c.skip count)
        some (d :: ds, c)
      else if isTagChar inFull ch then do
        let (ds, c) ← tagChars? inFull fuel (c.skip 1)
        some (some ch :: ds, c)
      else some ([], c)

/-- What a tag or its suffix says; nothing if an escape in it gives no character. A null character
ends it. -/
def tagText? (cs : List (Option Char)) : Option String :=
  ((cs.takeWhile fun c => c != some '\x00').mapM id).map String.ofList

/-- A tag as it is written. -/
structure Tag where
  /-- The handle in front; empty for a tag in full. -/
  handle : String
  suffix : Option String
  deriving DecidableEq, Repr

/-- The tag that stands alone as an exclamation mark. -/
def Tag.bare : Tag := ⟨"", some "!"⟩

namespace Cursor

/-- A handle between exclamation marks and the place behind it. -/
def namedHandle? (c : Cursor) : Option (String × Cursor) :=
  let (name, next) := (c.skip 1).span isWordChar
  if c.rest.head? = some '!' && next.rest.head? = some '!' then
    some (.ofList ('!' :: name ++ ['!']), next.skip 1)
  else none

/-- The tag whose exclamation mark stands at this place, and the place behind it. The fuel bounds
its characters. -/
def anyTag? (fuel : Nat) (c : Cursor) : Option (Tag × Cursor) :=
  if (c.skip 1).rest.head? = some '<' then do
    let (text, c) ← tagChars? true fuel (c.skip 2)
    guard (!text.isEmpty && c.rest.head? = some '>')
    some (⟨"", tagText? text⟩, c.skip 1)
  else
    match c.namedHandle? with
    | some (handle, c) => do
      let (text, c) ← tagChars? false fuel c
      guard (!text.isEmpty)
      some (⟨handle, tagText? text⟩, c)
    | none => do
      let (text, c) ← tagChars? false fuel (c.skip 1)
      let suffix := tagText? text
      some (if suffix = some "" then .bare else ⟨"!", suffix⟩, c)

/-- The tag at this place if a blank follows it, or a comma in a flow collection. -/
def tag? (inFlow : Bool) (fuel : Nat) (c : Cursor) : Option (Tag × Cursor) :=
  (c.anyTag? fuel).filter fun (_, c) => endsWord c.rest || (inFlow && c.rest.head? = some ',')

/-- The name behind the mark of an anchor or of a reference to one, and the place behind it. -/
def anchorName? (c : Cursor) : Option (String × Cursor) := do
  let (name, c) := (c.skip 1).span isWordChar
  guard (!name.isEmpty && (endsWord c.rest || c.rest.head?.any "?:,]\x7d%@\x60".toList.contains))
  some (.ofList name, c)

end Cursor

/-! Directives and what texts declare. -/

/-- What stands in front of a document. -/
inductive Directive where
  | version (major minor : Nat)
  /-- A handle stands for a text, unless an escape in that gives no character. -/
  | handle (name : String) (text : Option String)
  deriving DecidableEq, Repr

namespace Cursor

/-- A number of at most nine digits and the place behind it. -/
def shortNumber? (c : Cursor) : Option (Nat × Cursor) := do
  let (digits, c) := c.span Char.isDigit
  guard (!digits.isEmpty && digits.length ≤ 9)
  some (Text.digitsValue digits, c)

/-- The two numbers of a version and the place behind them. -/
def version? (c : Cursor) : Option (Directive × Cursor) := do
  let (major, c) ← c.shortNumber?
  guard (c.rest.head? = some '.')
  let (minor, c) ← (c.skip 1).shortNumber?
  some (.version major minor, c)

/-- A handle with its meaning after a blank, and the place behind them. The fuel bounds their
characters. -/
def handle? (fuel : Nat) (c : Cursor) : Option (Directive × Cursor) := do
  guard (c.rest.head? = some '!')
  let (name, c) := c.namedHandle?.getD ("!", c.skip 1)
  guard (c.rest.head?.any isBlank)
  let (text, c) ← tagChars? true fuel (c.skipWhile isBlank)
  guard (!text.isEmpty && endsWord c.rest)
  some (.handle name (tagText? text), c)

/-- The directive at this place and the start of the next line. The fuel bounds its characters. -/
def directive? (fuel : Nat) (c : Cursor) : Option (Directive × Cursor) := do
  let (name, c) := (c.skip 1).span isWordChar
  guard (endsWord c.rest)
  let c := c.skipWhile isBlank
  let (directive, c) ←
    if name = "YAML".toList then c.version?
    else if name = "TAG".toList then c.handle? fuel
    else none
  some (directive, ← c.lineEnd?)

end Cursor

/-- What a text has declared so far. -/
structure Declarations where
  hasVersion : Bool
  /-- The handles with what they stand for. -/
  handles : List (String × Option String)
  /-- The names of anchors with the numbers of the anchors, the latest first. -/
  anchors : List (String × Nat)
  /-- How many different names anchors have. -/
  anchorNames : Nat

namespace Declarations

def empty : Declarations := ⟨false, [], [], 0⟩

/-- The declarations with one more directive. The version is 1.1 or 1.2; neither it nor the meaning
of a handle may be given twice. -/
def direct? (d : Declarations) (directive : Directive) : Option Declarations :=
  match directive with
  | .version major minor =>
    if d.hasVersion || major != 1 || (minor != 1 && minor != 2) then none
    else some { d with hasVersion := true }
  | .handle name text =>
    if (d.handles.lookup name).isSome then none
    else some { d with handles := (name, text) :: d.handles }

def handleText? (d : Declarations) (handle : String) : Option (Option String) :=
  (d.handles.lookup handle).or <|
    if handle = "" then some (some "")
    else if handle = "!" then some (some "!")
    else if handle = "!!" then some (some "tag:yaml.org,2002:")
    else none

/-- A tag in full. One that has no text is as good as empty. -/
def tag? (d : Declarations) (tag : Tag) : Option String := do
  let text ← d.handleText? tag.handle
  some ((do some ((← text) ++ (← tag.suffix))).getD "")

/-- The number of a new anchor. It is the number of the names before it, whether its own is one of
them or not. -/
def anchor (d : Declarations) (name : String) : Nat × Declarations :=
  let isNew := (d.anchors.lookup name).isNone
  (d.anchorNames, { d with
    anchors := (name, d.anchorNames) :: d.anchors
    anchorNames := if isNew then d.anchorNames + 1 else d.anchorNames })

/-- The number of the latest anchor with the given name. -/
def anchor? (d : Declarations) (name : String) : Option Nat := d.anchors.lookup name

end Declarations

end PlanSql.Yaml
