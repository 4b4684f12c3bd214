import Mathlib.Data.List.Basic
import PlanSql.Sql.Piece

/-!
# The lexer of a dialect

How a dialect takes a text apart. Identifiers stand between the dialect's quotes and strings between
apostrophes; a doubled quote inside is one of the text's characters, and so is any character behind
a backslash where backslashes escape. Outside of quotes there are words, numbers, signs, blanks and
comments, and no other character may stand there. A word or number right before a quote would be a
prefix that gives the quoted text another meaning, so there is no such text.
-/
namespace PlanSql

namespace Sql

/-- A token. Quoted ones are known by what they denote, the others by their text. -/
inductive Token where
  | identifier (name : String)
  | string (value : String)
  | word (text : String)
  | number (text : String)
  | symbol (text : String)
  | comment
  deriving DecidableEq, Repr

namespace Token

/-- A name or a string, which stands between quotes. -/
def isQuoted : Token → Bool
  | .identifier _ | .string _ => true
  | _ => false

/-- A token without the text between its quotes. -/
def kind : Token → Token
  | .identifier _ => .identifier ""
  | .string _ => .string ""
  | token => token

end Token

/-- What stands between quotes. -/
inductive Quotation where
  | identifier
  | string
  deriving DecidableEq, Repr

/-- Where a lexer is, with what it has read of the token it is in. -/
inductive LexState where
  | ready
  | quoted (what : Quotation) (read : List Char)
  /-- After a backslash in a string. -/
  | escaped (read : List Char)
  /-- After a quote inside quoted text: the end of the text, or the first of two. -/
  | closing (what : Quotation) (read : List Char)
  | word (read : List Char)
  | number (read : List Char)
  /-- After a sign that may be the first of two. -/
  | sign (c : Char)
  | lineComment
  | blockComment (star : Bool)
  deriving DecidableEq, Repr

def isBlankChar (c : Char) : Bool := c = ' ' || c = '\t' || c = '\n' || c = '\r'

def isWordChar (c : Char) : Bool := c.isAlphanum || c = '_'

def isNumberChar (c : Char) : Bool := isWordChar c || c = '.'

/-- The signs that statements are written with. -/
def signs : List Char := ['(', ')', ',', '.', '+', '-', '*', '/', '%', '=', '<', '>']

/-- What a character begins that belongs to no token yet. -/
def opening (quote : QuoteStyle) (c : Char) : Option LexState :=
  if c = quote.mark then some (.quoted .identifier [])
  else if c = '\'' then some (.quoted .string [])
  else if c.isDigit then some (.number [c])
  else if isWordChar c then some (.word [c])
  else if isBlankChar c then some .ready
  else if signs.contains c then some (.sign c)
  else none

/-- What two signs are if they belong together. -/
def signPair? : Char → Char → Option (List Token × LexState)
  | '-', '-' => some ([], .lineComment)
  | '/', '*' => some ([], .blockComment false)
  | '<', '>' => some ([.symbol "<>"], .ready)
  | '<', '=' => some ([.symbol "<="], .ready)
  | '>', '=' => some ([.symbol ">="], .ready)
  | _, _ => none

/-- Characters that never belong to the same token as one of their neighbours. -/
def isGlue (c : Char) : Bool := c = ' ' || c = '(' || c = ')' || c = ','

theorem isGlue_iff {c : Char} : isGlue c = true ↔ c = ' ' ∨ c = '(' ∨ c = ')' ∨ c = ',' := by
  simp [isGlue, or_assoc]

/-- The token that a blank, a parenthesis or a comma is. -/
def glueTokens (c : Char) : List Token := if c = ' ' then [] else [.symbol (String.ofList [c])]

theorem opening_sign (quote : QuoteStyle) : ∀ c ∈ signs, opening quote c = some (.sign c) := by
  have h : signs.all (fun c => opening quote c = some (.sign c)) = true := by
    cases quote <;> decide
  simpa using h

theorem opening_blank (quote : QuoteStyle) : opening quote ' ' = some .ready := by
  cases quote <;> decide

namespace LexState

/-- The tokens of a text that ends here, unless it ends within one. -/
def finish : LexState → Option (List Token)
  | .ready => some []
  | .closing .identifier read => some [.identifier (String.ofList read)]
  | .closing .string read => some [.string (String.ofList read)]
  | .word read => some [.word (String.ofList read)]
  | .number read => some [.number (String.ofList read)]
  | .sign c => some [.symbol (String.ofList [c])]
  | .lineComment => some [.comment]
  | .quoted _ _ | .escaped _ | .blockComment _ => none

/-- The token that is complete unless the next character belongs to it. -/
def pending (s : LexState) : List Token := s.finish.getD []

/-- The state is after a token or between tokens, and in no comment. -/
def isEnd : LexState → Bool
  | .ready | .closing _ _ | .word _ | .number _ | .sign _ => true
  | _ => false

theorem finish_of_isEnd {s : LexState} (h : s.isEnd = true) : s.finish = some s.pending := by
  cases s with
  | closing what read => cases what <;> rfl
  | quoted | escaped | lineComment | blockComment => simp [isEnd] at h
  | _ => rfl

end LexState

end Sql

namespace Descriptor

open Sql

/-- The quote around quoted text. -/
def mark (d : Descriptor) : Quotation → Char
  | .identifier => d.quote.mark
  | .string => '\''

/-- Whether a character is a backslash that escapes the next one. -/
def escapes (d : Descriptor) (what : Quotation) (c : Char) : Bool :=
  what = .string && d.stringEscape = .backslash && c = '\\'

/-- What one more character completes, and where the lexer is then. -/
def step (d : Descriptor) (s : LexState) (c : Char) : Option (List Token × LexState) :=
  let next := (opening d.quote c).map (s.pending, ·)
  let outside := if c = d.mark .identifier ∨ c = d.mark .string then none else next
  match s with
  | .ready => next
  | .quoted what read =>
    if c = d.mark what then some ([], .closing what read)
    else if d.escapes what c then some ([], .escaped read)
    else some ([], .quoted what (read ++ [c]))
  | .escaped read => some ([], .quoted .string (read ++ [c]))
  | .closing what read =>
    if c = d.mark what then some ([], .quoted what (read ++ [c])) else next
  | .word read => if isWordChar c then some ([], .word (read ++ [c])) else outside
  | .number read => if isNumberChar c then some ([], .number (read ++ [c])) else outside
  | .sign first => signPair? first c <|> next
  | .lineComment => some (if c = '\n' then ([.comment], .ready) else ([], .lineComment))
  | .blockComment star =>
    some (if star && c = '/' then ([.comment], .ready) else ([], .blockComment (c = '*')))

/-- What a run of characters completes, and where the lexer is then. -/
def read (d : Descriptor) (s : LexState) : List Char → Option (List Token × LexState)
  | [] => some ([], s)
  | c :: cs => do
    let (ts, s) ← d.step s c
    let (us, s) ← d.read s cs
    return (ts ++ us, s)

/-- The tokens of a text. -/
def lex (d : Descriptor) (text : String) : Option (List Token) := do
  let (ts, s) ← d.read .ready text.toList
  let last ← s.finish
  return ts ++ last

example : (Dialect.descriptor .postgres).lex "\"a\"\"--\" --b" =
    some [.identifier "a\"--", .comment] := by
  decide +kernel

variable {d : Descriptor} {s s' : LexState} {c : Char} {as bs : List Char} {ts us : List Token}

theorem read_append (d : Descriptor) (s : LexState) (as bs : List Char) :
    d.read s (as ++ bs) =
      d.read s as >>= fun x => (d.read x.2 bs).map fun y => (x.1 ++ y.1, y.2) := by
  induction as generalizing s with
  | nil => cases h : d.read s bs <;> simp [read, h]
  | cons c as ih =>
    simp only [List.cons_append, read, ih]
    cases d.step s c with
    | none => rfl
    | some x =>
      cases hx : d.read x.2 as with
      | none => simp [hx]
      | some y => cases hy : d.read y.2 bs <;> simp [hx, hy]

/-- The character begins a new token or stands between tokens. -/
def Cuts (d : Descriptor) (s : LexState) (c : Char) : Prop :=
  d.step s c = (opening d.quote c).map (s.pending, ·)

theorem read_of_cuts (h : ∀ c ∈ bs.head?, d.Cuts s c) (hb : d.read .ready bs = some (us, s')) :
    bs = [] ∧ us = [] ∧ s' = .ready ∨ d.read s bs = some (s.pending ++ us, s') := by
  cases bs with
  | nil => exact .inl ⟨rfl, by simpa [read, eq_comm] using hb⟩
  | cons c bs =>
    refine .inr ?_
    have hc : d.Cuts s c := h c rfl
    simp only [read, show d.step s c = _ from hc]
    simp only [read, step, LexState.pending, LexState.finish] at hb
    cases ho : opening d.quote c with
    | none => simp [ho] at hb
    | some s₁ =>
      cases hr : d.read s₁ bs with
      | none => simp [ho, hr] at hb
      | some x => simp_all

/-- A text is a sequence of whole tokens. -/
def Lexes (d : Descriptor) (cs : List Char) (ts : List Token) : Prop :=
  ∃ us s, d.read .ready cs = some (us, s) ∧ s.isEnd = true ∧ us ++ s.pending = ts

theorem Lexes.lex {text : String} (h : d.Lexes text.toList ts) : d.lex text = some ts := by
  obtain ⟨us, s, hr, he, rfl⟩ := h
  simp [Descriptor.lex, hr, LexState.finish_of_isEnd he]

theorem lexes_nil (d : Descriptor) : d.Lexes [] [] := ⟨[], .ready, rfl, rfl, rfl⟩

/-- A text after whole tokens whose first character does not belong to the last of them. -/
theorem Lexes.follow (ha : d.read .ready as = some (ts, s)) (hb : d.Lexes bs us)
    (he : s.isEnd = true) (hc : ∀ c ∈ bs.head?, d.Cuts s c) :
    d.Lexes (as ++ bs) (ts ++ s.pending ++ us) := by
  obtain ⟨vs, s', hr, he', rfl⟩ := hb
  rcases read_of_cuts hc hr with ⟨rfl, rfl, rfl⟩ | hr
  · exact ⟨ts, s, by simpa using ha, he, by simp [LexState.pending, LexState.finish]⟩
  · exact ⟨ts ++ (s.pending ++ vs), s', by simp [read_append, ha, hr], he', by simp⟩

theorem cuts_glue (hc : isGlue c = true) (he : s.isEnd = true) : d.Cuts s c := by
  have hm : c ≠ d.mark .identifier ∧ c ≠ d.mark .string := by
    rcases isGlue_iff.mp hc with rfl | rfl | rfl | rfl <;>
      simp only [mark] <;> cases d.quote <;> decide
  have hw : isWordChar c = false ∧ isNumberChar c = false := by
    rcases isGlue_iff.mp hc with rfl | rfl | rfl | rfl <;> decide
  cases s with
  | ready => rfl
  | closing what read => cases what <;> simp [Cuts, step, hm]
  | word read | number read => simp [Cuts, step, hm, hw]
  | sign first =>
    have hp : signPair? first c = none := by
      rcases isGlue_iff.mp hc with rfl | rfl | rfl | rfl <;> simp [signPair?]
    simp [Cuts, step, hp]
  | quoted | escaped | lineComment | blockComment => simp [LexState.isEnd] at he

theorem opening_glue (hc : isGlue c = true) : ∃ s', opening d.quote c = some s' ∧
    s'.isEnd = true ∧ s'.pending = glueTokens c ∧ ∀ c', d.Cuts s' c' := by
  by_cases hb : c = ' '
  · subst hb
    exact ⟨.ready, opening_blank d.quote, rfl, rfl, fun _ => rfl⟩
  · have hs : c = '(' ∨ c = ')' ∨ c = ',' := (isGlue_iff.mp hc).resolve_left hb
    refine ⟨.sign c, opening_sign d.quote c ?_, rfl, ?_, fun c' => ?_⟩
    · rcases hs with rfl | rfl | rfl <;> decide
    · simp [LexState.pending, LexState.finish, glueTokens, hb]
    · have hp : signPair? c c' = none := by rcases hs with rfl | rfl | rfl <;> rfl
      simp [Cuts, step, hp]

/-- Whole tokens, a blank, parenthesis or comma, and whole tokens. -/
theorem Lexes.glue (ha : d.Lexes as ts) (hc : isGlue c = true) (hb : d.Lexes bs us) :
    d.Lexes (as ++ c :: bs) (ts ++ glueTokens c ++ us) := by
  obtain ⟨vs, s, hr, he, rfl⟩ := ha
  obtain ⟨s', ho, he', hp, hcut⟩ := opening_glue (d := d) hc
  have hread : d.read .ready (as ++ [c]) = some (vs ++ s.pending, s') := by
    have hstep : d.step s c = some (s.pending, s') := by
      rw [show d.step s c = _ from cuts_glue hc he, ho]
      rfl
    simp [read_append, hr, read, hstep]
  have h := Lexes.follow hread hb he' fun c' _ => hcut c'
  rw [hp] at h
  simpa using h

/-- A sign and whole tokens that do not begin with a sign it belongs to. -/
theorem Lexes.afterSign (hs : c ∈ signs) (hb : d.Lexes bs us)
    (hc : ∀ c' ∈ bs.head?, signPair? c c' = none) :
    d.Lexes (c :: bs) (.symbol (String.ofList [c]) :: us) := by
  have hread : d.read .ready [c] = some ([], .sign c) := by
    simp [read, step, LexState.pending, LexState.finish, opening_sign d.quote c hs]
  refine Lexes.follow hread hb rfl fun c' hc' => ?_
  simp [Cuts, step, hc c' hc']

/-- Whole tokens, of which the last is quoted, and whole tokens that begin with a sign. -/
theorem Lexes.signAfterQuoted {what : Quotation} {content : List Char}
    (ha : d.read .ready as = some (ts, .closing what content)) (hs : c ∈ signs)
    (hb : d.Lexes (c :: bs) us) :
    d.Lexes (as ++ c :: bs) (ts ++ (LexState.closing what content).pending ++ us) := by
  have hm : c ≠ d.mark what := by
    have hall : ∀ q : QuoteStyle, ∀ c ∈ signs, c ≠ q.mark ∧ c ≠ '\'' := by
      intro q
      have h : signs.all (fun c => c ≠ q.mark ∧ c ≠ '\'') = true := by cases q <;> decide
      simpa using h
    cases what
    · exact (hall d.quote c hs).1
    · exact (hall d.quote c hs).2
  refine Lexes.follow ha hb rfl fun c' hc' => ?_
  obtain rfl : c = c' := by simpa using hc'
  simp [Cuts, step, hm]

section Quoted

variable (d)

theorem read_identifierChars (content rest : List Char) :
    d.read (.quoted .identifier content) (rest.flatMap (identifierChar d.quote.mark)) =
      some ([], .quoted .identifier (content ++ rest)) := by
  induction rest generalizing content with
  | nil => simp [read]
  | cons c rest ih =>
    by_cases hc : c = d.quote.mark
    · simp [identifierChar, hc, read, step, mark, ih]
    · simp [identifierChar, hc, read, step, mark, escapes, ih]

theorem read_identifierText (name : String) :
    d.read .ready (d.identifierText name).toList = some ([], .closing .identifier name.toList) := by
  have hopen : opening d.quote d.quote.mark = some (.quoted .identifier []) := by simp [opening]
  have hstart : d.read .ready [d.quote.mark] = some ([], .quoted .identifier []) := by
    simp [read, step, hopen, LexState.pending, LexState.finish]
  have hend : d.read (.quoted .identifier name.toList) [d.quote.mark] =
      some ([], .closing .identifier name.toList) := by
    simp [read, step, mark]
  have hin := read_identifierChars d [] name.toList
  rw [List.nil_append] at hin
  rw [identifierText, String.toList_ofList, ← List.singleton_append, List.append_assoc]
  simp only [read_append, hstart, hin, hend, Option.bind_eq_bind, Option.bind_some, Option.map_some,
    List.append_nil]

theorem read_stringChars (content rest : List Char) :
    d.read (.quoted .string content) (rest.flatMap (stringChar d.stringEscape)) =
      some ([], .quoted .string (content ++ rest)) := by
  induction rest generalizing content with
  | nil => simp [read]
  | cons c rest ih =>
    cases he : d.stringEscape with
    | standard =>
      rw [he] at ih
      by_cases hc : c = '\''
      · simp [stringChar, hc, read, step, mark, ih]
      · simp [stringChar, hc, read, step, mark, escapes, he, ih]
    | backslash =>
      rw [he] at ih
      by_cases hc : c = '\'' ∨ c = '\\'
      · simp [stringChar, hc, read, step, mark, escapes, he, ih]
      · have hq := not_or.mp hc
        simp [stringChar, hq, read, step, mark, escapes, he, ih]

theorem read_stringText (value : String) :
    d.read .ready (d.stringText value).toList = some ([], .closing .string value.toList) := by
  have hopen : opening d.quote '\'' = some (.quoted .string []) := by
    cases d.quote <;> decide
  have hstart : d.read .ready ['\''] = some ([], .quoted .string []) := by
    simp [read, step, hopen, LexState.pending, LexState.finish]
  have hend : d.read (.quoted .string value.toList) ['\''] =
      some ([], .closing .string value.toList) := by
    simp [read, step, mark]
  have hin := read_stringChars d [] value.toList
  rw [List.nil_append] at hin
  rw [stringText, String.toList_ofList, ← List.singleton_append, List.append_assoc]
  simp only [read_append, hstart, hin, hend, Option.bind_eq_bind, Option.bind_some, Option.map_some,
    List.append_nil]

end Quoted

end Descriptor

end PlanSql
