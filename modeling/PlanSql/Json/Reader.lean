import PlanSql.Json.Basic
import PlanSql.Number.Numeral

/-!
# Strict reading of JSON text

Reading JSON text strictly: no comments, no trailing commas, no leading zeros, no control characters
inside strings, no unpaired surrogates, no number too large for a binary one, and no nesting beyond
a limit. Each reader takes its part from the front of the text and answers with what follows.
-/
namespace PlanSql.Json

/-- The deepest nesting of arrays and objects that is read. -/
def maxDepth : Nat := 127

/-- White space between JSON tokens. -/
def isSpace (c : Char) : Bool := c = ' ' || c = '\n' || c = '\t' || c = '\r'

def skipSpace (cs : List Char) : List Char := cs.dropWhile isSpace

/-- The value of a hexadecimal digit. -/
def hexDigit? (c : Char) : Option Nat :=
  if '0' ≤ c ∧ c ≤ '9' then some (c.toNat - '0'.toNat)
  else if 'a' ≤ c ∧ c ≤ 'f' then some (c.toNat - 'a'.toNat + 10)
  else if 'A' ≤ c ∧ c ≤ 'F' then some (c.toNat - 'A'.toNat + 10)
  else none

/-- The code unit written by four hexadecimal digits. -/
def codeUnit? (a b c d : Char) : Option Nat := do
  some (((← hexDigit? a) * 16 + (← hexDigit? b)) * 256 + (← hexDigit? c) * 16 + (← hexDigit? d))

/-- The character named by the letter after a backslash. -/
def shortEscape? (c : Char) : Option Char :=
  match c with
  | '"' => some '"'
  | '\\' => some '\\'
  | '/' => some '/'
  | 'b' => some '\x08'
  | 'f' => some '\x0c'
  | 'n' => some '\n'
  | 'r' => some '\r'
  | 't' => some '\t'
  | _ => none

/-- The characters of a string up to its closing quote, and what follows the quote. -/
def stringBody : List Char → Option (List Char × List Char)
  | [] => none
  | c :: cs =>
    if c = '"' then some ([], cs)
    else if c = '\\' then
      match cs with
      | [] => none
      | e :: cs =>
        if e = 'u' then
          match cs with
          | a :: b :: c :: d :: cs =>
            match codeUnit? a b c d with
            | none => none
            | some high =>
              if 0xD800 ≤ high ∧ high < 0xDC00 then
                match cs with
                | '\\' :: 'u' :: a :: b :: c :: d :: cs =>
                  match codeUnit? a b c d with
                  | none => none
                  | some low =>
                    if 0xDC00 ≤ low ∧ low < 0xE000 then
                      let code := 0x10000 + (high - 0xD800) * 1024 + (low - 0xDC00)
                      (stringBody cs).map fun (body, rest) => (Char.ofNat code :: body, rest)
                    else none
                | _ => none
              else if 0xDC00 ≤ high ∧ high < 0xE000 then none
              else (stringBody cs).map fun (body, rest) => (Char.ofNat high :: body, rest)
          | _ => none
        else
          match shortEscape? e with
          | none => none
          | some e => (stringBody cs).map fun (body, rest) => (e :: body, rest)
    else if c.toNat < 32 then none
    else (stringBody cs).map fun (body, rest) => (c :: body, rest)

/-- A string after its opening quote. -/
def readString (cs : List Char) : Option (String × List Char) :=
  (stringBody cs).map fun (body, rest) => (String.ofList body, rest)

/-- The fractional digits after a point, at least one; none without a point. -/
def readFraction : List Char → Option (List Char × List Char)
  | '.' :: rest =>
    let ds := rest.takeWhile Char.isDigit
    if ds.isEmpty then none else some (ds, rest.dropWhile Char.isDigit)
  | rest => some ([], rest)

/-- The number a numeral denotes: whole numbers of 64 bits are exact, a negative zero is not
whole. -/
def Number.ofNumeral? (n : Numeral) (isWhole : Bool) : Option Number :=
  let v := Text.digitsValue n.whole
  if isWhole && !n.negative && v < pow2 64 then some (.int v)
  else if isWhole && n.negative && 0 < v && v ≤ pow2 63 then some (.int (-(v : Int)))
  else n.scaled.map .float

/-- A numeral, and whether it has neither a fraction nor an exponent. -/
def readNumeral (cs : List Char) : Option ((Numeral × Bool) × List Char) := do
  let (negative, cs) := match cs with
    | '-' :: rest => (true, rest)
    | cs => (false, cs)
  let whole := cs.takeWhile Char.isDigit
  let cs := cs.dropWhile Char.isDigit
  if whole.isEmpty || (whole.head? == some '0' && 1 < whole.length) then none
  else
    let (fraction, cs) ← readFraction cs
    match cs with
    | 'e' :: rest | 'E' :: rest =>
      let (e, cs) ← Numeral.readExponent rest
      some ((⟨negative, whole, fraction, e⟩, false), cs)
    | cs => some ((⟨negative, whole, fraction, 0⟩, fraction.isEmpty), cs)

def readNumber (cs : List Char) : Option (Number × List Char) := do
  let ((n, isWhole), cs) ← readNumeral cs
  some (← Number.ofNumeral? n isWhole, cs)

mutual

/-- A value nested at most `limit` deep. The fuel bounds the steps taken; twice the length of the
text is enough for all of it. -/
def readValue : Nat → Nat → List Char → Option (Json × List Char)
  | 0, _, _ => none
  | fuel + 1, limit, cs =>
    match skipSpace cs with
    | 'n' :: 'u' :: 'l' :: 'l' :: rest => some (.null, rest)
    | 't' :: 'r' :: 'u' :: 'e' :: rest => some (.bool true, rest)
    | 'f' :: 'a' :: 'l' :: 's' :: 'e' :: rest => some (.bool false, rest)
    | '"' :: rest => (readString rest).map fun (s, rest) => (.string s, rest)
    | '[' :: rest =>
      match limit with
      | 0 => none
      | limit + 1 =>
        match skipSpace rest with
        | ']' :: rest => some (.array [], rest)
        | rest => (readItems fuel limit rest).map fun (items, rest) => (.array items, rest)
    | '\x7b' :: rest =>
      match limit with
      | 0 => none
      | limit + 1 =>
        match skipSpace rest with
        | '\x7d' :: rest => some (.object [], rest)
        | rest => (readMembers fuel limit rest).map fun (members, rest) => (.object members, rest)
    | cs => (readNumber cs).map fun (n, rest) => (.number n, rest)

/-- The items of an array, at least one, and its closing bracket. -/
def readItems : Nat → Nat → List Char → Option (List Json × List Char)
  | 0, _, _ => none
  | fuel + 1, limit, cs =>
    match readValue fuel limit cs with
    | none => none
    | some (item, rest) =>
      match skipSpace rest with
      | ']' :: rest => some ([item], rest)
      | ',' :: rest => (readItems fuel limit rest).map fun (items, rest) => (item :: items, rest)
      | _ => none

/-- The members of an object, at least one, and its closing brace. -/
def readMembers : Nat → Nat → List Char → Option (List (String × Json) × List Char)
  | 0, _, _ => none
  | fuel + 1, limit, cs =>
    match skipSpace cs with
    | '"' :: rest =>
      match readString rest with
      | none => none
      | some (key, rest) =>
        match skipSpace rest with
        | ':' :: rest =>
          match readValue fuel limit rest with
          | none => none
          | some (value, rest) =>
            match skipSpace rest with
            | '\x7d' :: rest => some ([(key, value)], rest)
            | ',' :: rest =>
              (readMembers fuel limit rest).map fun (members, rest) =>
                ((key, value) :: members, rest)
            | _ => none
        | _ => none
    | _ => none

end

/-- A value at the front of a text. -/
def read (limit : Nat) (cs : List Char) : Option (Json × List Char) :=
  readValue (2 * cs.length + 2) limit cs

/-- The value a whole text stands for, if it is nested at most `limit` deep. -/
def ofText? (limit : Nat) (text : String) : Option Json :=
  match read limit text.toList with
  | some (value, rest) => if (skipSpace rest).isEmpty then some value else none
  | none => none

end PlanSql.Json
