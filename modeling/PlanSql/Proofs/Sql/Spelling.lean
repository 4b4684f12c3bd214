import PlanSql.Proofs.Sql.Lexer
import PlanSql.Sql.Rendering

/-!
# Pieces and their tokens

Which sequences of pieces have the tokens of their pieces and no others. Blanks, parentheses and
commas keep everything apart, so that most sequences are spelled if the pieces between these are.
Words stand as they are: those of statements are made of letters, digits, underscores, points,
blanks, parentheses and commas, with a minus sign in front of some numbers, and have no quoted token
and no comment among theirs.
-/
namespace PlanSql

namespace Sql

/-- A token that is neither quoted nor a comment. -/
def Token.isBare : Token → Bool
  | .word _ | .number _ | .symbol _ => true
  | _ => false

def LexState.isBare : LexState → Bool
  | .ready | .word _ | .number _ | .sign _ => true
  | _ => false

/-- The characters of words without a sign. -/
def isBareChar (c : Char) : Bool := isNumberChar c || isGlue c

/-- A word without a sign. -/
def isPlainText (text : String) : Bool := text.toList.all isBareChar

/-- A word, or a number that may have a minus sign. -/
def isBareText (text : String) : Bool :=
  match text.toList with
  | '-' :: cs => cs.all isBareChar
  | cs => cs.all isBareChar

/-- One word. -/
def isWordText (text : String) : Bool :=
  match text.toList with
  | c :: cs => !c.isDigit && isWordChar c && cs.all isWordChar
  | [] => false

/-- A number without a sign. -/
def isNumeral : List Char → Bool
  | c :: cs => c.isDigit && cs.all isNumberChar
  | [] => false

theorem isBareChar_of_digit {c : Char} (h : c.isDigit = true) : isBareChar c = true := by
  simp [isBareChar, isNumberChar, isWordChar, Char.isAlphanum, h]

theorem isPlainText_of_isWordText {text : String} (h : isWordText text = true) :
    isPlainText text = true := by
  have hall : ∀ c, isWordChar c = true → isBareChar c = true := fun c hc => by
    simp [isBareChar, isNumberChar, hc]
  unfold isWordText at h
  unfold isPlainText
  split at h
  · next c cs hcs =>
    simp only [Bool.and_eq_true, List.all_eq_true] at h
    rw [hcs, List.all_cons, Bool.and_eq_true, List.all_eq_true]
    exact ⟨hall c h.1.2, fun c hc => hall c (h.2 c hc)⟩
  · simp at h

theorem all_of_isNumeral {cs : List Char} (h : isNumeral cs = true) :
    cs.all isBareChar = true := by
  cases cs with
  | nil => rfl
  | cons c cs =>
    simp only [isNumeral, Bool.and_eq_true, List.all_eq_true] at h
    rw [List.all_cons, Bool.and_eq_true, List.all_eq_true]
    exact ⟨isBareChar_of_digit h.1, fun c hc => by simp [isBareChar, h.2 c hc]⟩

theorem isBareText_of_isPlainText {text : String} (h : isPlainText text = true) :
    isBareText text = true := by
  unfold isPlainText at h
  unfold isBareText
  split
  · next cs hcs =>
    rw [hcs, List.all_cons, Bool.and_eq_true] at h
    exact h.2
  · exact h

theorem LexState.isEnd_of_isBare {s : LexState} (h : s.isBare = true) : s.isEnd = true := by
  cases s <;> simp_all [isBare, isEnd]

theorem LexState.isBare_of_mem_pending {s : LexState} (h : s.isBare = true) {t : Token}
    (ht : t ∈ s.pending) : t.isBare = true := by
  cases s <;> simp_all [isBare, pending, finish, Token.isBare]

theorem ne_of_isBareChar {c c' : Char} (h : isBareChar c = true) (h' : isBareChar c' = false) :
    c ≠ c' := by
  rintro rfl
  exact absurd (h.symm.trans h') (by decide)

theorem isBareChar_mark (quote : QuoteStyle) : isBareChar quote.mark = false := by
  cases quote <;> decide

theorem opening_bare (quote : QuoteStyle) {c : Char} (hc : isBareChar c = true) :
    ∃ s, opening quote c = some s ∧ s.isBare = true := by
  have hq := ne_of_isBareChar hc (isBareChar_mark quote)
  have ha : c ≠ '\'' := ne_of_isBareChar hc (by decide)
  unfold opening
  rw [if_neg hq, if_neg ha]
  by_cases hd : c.isDigit = true
  · exact ⟨_, if_pos hd, rfl⟩
  by_cases hw : isWordChar c = true
  · exact ⟨_, by rw [if_neg hd, if_pos hw], rfl⟩
  by_cases hb : isBlankChar c = true
  · exact ⟨_, by rw [if_neg hd, if_neg hw, if_pos hb], rfl⟩
  have hs : signs.contains c = true := by
    rw [isBareChar, isNumberChar, Bool.eq_false_iff.mpr hw, Bool.false_or, Bool.or_eq_true,
      decide_eq_true_eq, isGlue_iff] at hc
    rcases hc with rfl | rfl | rfl | rfl | rfl
    · decide
    · exact absurd rfl hb
    all_goals decide
  exact ⟨_, by rw [if_neg hd, if_neg hw, if_neg hb, if_pos hs], rfl⟩

theorem signPair?_bare (first : Char) {c : Char} (hc : isBareChar c = true) :
    signPair? first c = none := by
  unfold signPair?
  split
  all_goals first | rfl | exact absurd hc (by decide)

end Sql

namespace Descriptor

open Sql

variable {d : Descriptor} {cs : List Char} {ts us : List Token} {ps qs : List Piece}

theorem step_bare {s : LexState} {c : Char} (hs : s.isBare = true) (hc : isBareChar c = true) :
    ∃ ts s', d.step s c = some (ts, s') ∧ s'.isBare = true ∧ ∀ t ∈ ts, t.isBare = true := by
  obtain ⟨s', ho, hs'⟩ := opening_bare d.quote hc
  have hq : c ≠ d.mark .identifier := ne_of_isBareChar hc (isBareChar_mark d.quote)
  have ha : c ≠ d.mark .string := ne_of_isBareChar hc (by decide : isBareChar '\'' = false)
  have hnext : ∃ ts s'', (opening d.quote c).map (s.pending, ·) = some (ts, s'') ∧
      s''.isBare = true ∧ ∀ t ∈ ts, t.isBare = true :=
    ⟨s.pending, s', by rw [ho]; rfl, hs', fun t ht => LexState.isBare_of_mem_pending hs ht⟩
  cases s with
  | ready => exact hnext
  | word read =>
    by_cases hw : isWordChar c = true
    · exact ⟨[], .word (read ++ [c]), by simp [step, hw], rfl, by simp⟩
    · simpa [step, hw, hq, ha] using hnext
  | number read =>
    by_cases hn : isNumberChar c = true
    · exact ⟨[], .number (read ++ [c]), by simp [step, hn], rfl, by simp⟩
    · simpa [step, hn, hq, ha] using hnext
  | sign first => simpa [step, signPair?_bare first hc] using hnext
  | quoted | escaped | closing | lineComment | blockComment => simp [LexState.isBare] at hs

theorem read_bare {s : LexState} (hs : s.isBare = true) (hc : cs.all isBareChar = true) :
    ∃ ts s', d.read s cs = some (ts, s') ∧ s'.isBare = true ∧ ∀ t ∈ ts, t.isBare = true := by
  induction cs generalizing s with
  | nil => exact ⟨[], s, rfl, hs, by simp⟩
  | cons c cs ih =>
    rw [List.all_cons, Bool.and_eq_true] at hc
    obtain ⟨ts, s₁, hstep, hs₁, hts⟩ := step_bare (d := d) hs hc.1
    obtain ⟨us, s₂, hread, hs₂, hus⟩ := ih hs₁ hc.2
    exact ⟨ts ++ us, s₂, by simp [read, hstep, hread], hs₂, List.forall_mem_append.mpr ⟨hts, hus⟩⟩

theorem lexes_bareChars (hc : cs.all isBareChar = true) :
    ∃ ts, d.Lexes cs ts ∧ ∀ t ∈ ts, t.isBare = true := by
  obtain ⟨us, s, hr, hs, hus⟩ := read_bare (d := d) (s := .ready) rfl hc
  refine ⟨us ++ s.pending, ⟨us, s, hr, s.isEnd_of_isBare hs, rfl⟩, ?_⟩
  exact List.forall_mem_append.mpr ⟨hus, fun t ht => LexState.isBare_of_mem_pending hs ht⟩

/-- Words have tokens, which are neither quoted nor comments. -/
theorem lexes_bareText {text : String} (h : isBareText text = true) :
    ∃ ts, d.Lexes text.toList ts ∧ ∀ t ∈ ts, t.isBare = true := by
  unfold isBareText at h
  split at h
  · next cs hcs =>
    obtain ⟨ts, hts, hb⟩ := lexes_bareChars (d := d) h
    refine ⟨_, hcs ▸ hts.afterSign (c := '-') (by decide) fun c hc => ?_,
      List.forall_mem_cons.mpr ⟨rfl, hb⟩⟩
    exact signPair?_bare '-' (List.all_eq_true.mp h c (List.mem_of_mem_head? hc))
  · exact lexes_bareChars h

theorem read_wordChars (content : List Char) (hc : cs.all isWordChar = true) :
    d.read (.word content) cs = some ([], .word (content ++ cs)) := by
  induction cs generalizing content with
  | nil => simp [read]
  | cons c cs ih =>
    rw [List.all_cons, Bool.and_eq_true] at hc
    simp [read, step, hc.1, ih (content ++ [c]) hc.2]

theorem read_numberChars (content : List Char) (hc : cs.all isNumberChar = true) :
    d.read (.number content) cs = some ([], .number (content ++ cs)) := by
  induction cs generalizing content with
  | nil => simp [read]
  | cons c cs ih =>
    rw [List.all_cons, Bool.and_eq_true] at hc
    simp [read, step, hc.1, ih (content ++ [c]) hc.2]

theorem lexes_wordText {text : String} (h : isWordText text = true) :
    d.Lexes text.toList [.word text] := by
  unfold isWordText at h
  split at h
  · next c cs hcs =>
    simp only [Bool.and_eq_true, Bool.not_eq_true'] at h
    obtain ⟨⟨hd, hw⟩, hrest⟩ := h
    have hb : isBareChar c = true := by simp [isBareChar, isNumberChar, hw]
    have hq := ne_of_isBareChar hb (isBareChar_mark d.quote)
    have ha : c ≠ '\'' := ne_of_isBareChar hb (by decide)
    have ho : opening d.quote c = some (.word [c]) := by simp [opening, hq, ha, hd, hw]
    refine ⟨[], .word text.toList, ?_, rfl, by simp [LexState.pending, LexState.finish]⟩
    rw [hcs]
    simp [read, step, ho, LexState.pending, LexState.finish, read_wordChars [c] hrest]
  · simp at h

theorem lexes_numeral (h : isNumeral cs = true) : d.Lexes cs [.number (String.ofList cs)] := by
  cases cs with
  | nil => simp [isNumeral] at h
  | cons c cs =>
    obtain ⟨hd, hrest⟩ : c.isDigit = true ∧ cs.all isNumberChar = true := by
      simpa only [isNumeral, Bool.and_eq_true] using h
    have hb : isBareChar c = true := isBareChar_of_digit hd
    have hq := ne_of_isBareChar hb (isBareChar_mark d.quote)
    have ha : c ≠ '\'' := ne_of_isBareChar hb (by decide)
    have ho : opening d.quote c = some (.number [c]) := by simp [opening, hq, ha, hd]
    refine ⟨[], .number (c :: cs), ?_, rfl, by simp [LexState.pending, LexState.finish]⟩
    simp [read, step, ho, LexState.pending, LexState.finish, read_numberChars [c] hrest]

/-- The tokens of a piece. -/
def tokens (d : Descriptor) : Piece → List Token
  | .identifier name => [.identifier name]
  | .string value => [.string value]
  | .word text => (d.lex text).getD []
  | .symbol text => [.symbol text]
  | .space => []

theorem tokens_space (d : Descriptor) : d.tokens .space = [] := rfl

theorem tokens_symbol (d : Descriptor) (text : String) :
    d.tokens (.symbol text) = [.symbol text] := rfl

theorem tokens_string (d : Descriptor) (value : String) :
    d.tokens (.string value) = [.string value] := rfl

theorem tokens_word {text : String} (h : d.Lexes text.toList ts) : d.tokens (.word text) = ts := by
  simp [tokens, h.lex]

/-- A keyword is one token. -/
theorem tokens_keyword (d : Descriptor) (text : String) (h : isWordText text = true) :
    d.tokens (.word text) = [.word text] :=
  tokens_word (lexes_wordText h)

/-- The text of some pieces has the tokens of these pieces, and words stand for bare ones. -/
structure Spells (d : Descriptor) (ps : List Piece) : Prop where
  lexes : d.Lexes (d.text ps).toList (ps.flatMap d.tokens)
  words : ∀ text, .word text ∈ ps → isBareText text = true

theorem toList_text (d : Descriptor) (ps : List Piece) :
    (d.text ps).toList = ps.flatMap fun p => (d.pieceText p).toList := by
  induction ps with
  | nil => rfl
  | cons p ps ih => simpa [text, String.join_cons] using ih

theorem spells_nil (d : Descriptor) : d.Spells [] := ⟨d.lexes_nil, by simp⟩

theorem spells_single {p : Piece} (h : d.Lexes (d.pieceText p).toList (d.tokens p))
    (hw : ∀ text, p = .word text → isBareText text = true) : d.Spells [p] :=
  ⟨by simpa [toList_text] using h, fun text hm => hw text (List.mem_singleton.mp hm).symm⟩

theorem spells_word (text : String) (h : isBareText text = true) : d.Spells [.word text] := by
  obtain ⟨ts, hts, -⟩ := lexes_bareText (d := d) h
  exact spells_single ((tokens_word hts).symm ▸ hts) (by simpa using h)

theorem isBare_of_mem_tokens {text : String} (h : isBareText text = true) :
    ∀ t ∈ d.tokens (.word text), t.isBare = true := by
  obtain ⟨ts, hts, hb⟩ := lexes_bareText (d := d) h
  rwa [tokens_word hts]

theorem lexes_identifier (d : Descriptor) (name : String) :
    d.Lexes (d.identifierText name).toList [.identifier name] :=
  ⟨[], _, d.read_identifierText name, rfl, by simp [LexState.pending, LexState.finish]⟩

theorem spells_identifier (d : Descriptor) (name : String) : d.Spells [.identifier name] :=
  spells_single (d.lexes_identifier name) (by simp)

theorem spells_string (d : Descriptor) (value : String) : d.Spells [.string value] :=
  spells_single
    ⟨[], _, d.read_stringText value, rfl, by simp [tokens, LexState.pending, LexState.finish]⟩
    (by simp)

theorem spells_sign (d : Descriptor) {c : Char} (hc : c ∈ signs) :
    d.Spells [.symbol (String.ofList [c])] := by
  refine spells_single ?_ (by simp)
  have h := d.lexes_nil.afterSign hc (by simp)
  simpa [pieceText, tokens] using h

/-- A sign of two characters. -/
theorem spells_pair (d : Descriptor) (c c' : Char) (hc : c ∈ signs)
    (hp : signPair? c c' = some ([.symbol (String.ofList [c, c'])], .ready)) :
    d.Spells [.symbol (String.ofList [c, c'])] := by
  refine spells_single ⟨[.symbol (String.ofList [c, c'])], .ready, ?_, rfl, ?_⟩ (by simp)
  · simp [pieceText, read, step, opening_sign d.quote c hc, hp, LexState.pending, LexState.finish]
  · simp [tokens, LexState.pending, LexState.finish]

/-- A column under its qualifier. -/
theorem spells_qualified (d : Descriptor) (qualifier name : String) :
    d.Spells [.identifier qualifier, .symbol ".", .identifier name] := by
  have hname : d.Lexes ('.' :: (d.identifierText name).toList)
      [.symbol ".", .identifier name] := by
    refine (d.lexes_identifier name).afterSign (by decide) fun c hc => ?_
    obtain rfl : d.quote.mark = c := by simpa [identifierText] using hc
    cases d.quote <;> rfl
  have h := hname.signAfterQuoted (d.read_identifierText qualifier) (by decide)
  refine ⟨?_, by simp⟩
  simpa [toList_text, pieceText, tokens, LexState.pending, LexState.finish] using h

end Descriptor

namespace Sql.Piece

/-- Pieces that keep their neighbours apart. -/
def isGlue : Piece → Bool
  | .space => true
  | .symbol text => text = "(" || text = ")" || text = ","
  | _ => false

/-- The token of a piece between quotes. -/
def quoted : Piece → List Token
  | .identifier name => [.identifier name]
  | .string value => [.string value]
  | _ => []

/-- A piece without the text between its quotes. -/
def kind : Piece → Piece
  | .identifier _ => .identifier ""
  | .string _ => .string ""
  | piece => piece

end Sql.Piece

namespace Descriptor

open Sql Sql.Piece

variable {d : Descriptor} {ps qs : List Piece}

theorem glue_piece {g : Piece} (hg : g.isGlue = true) : ∃ c, (d.pieceText g).toList = [c] ∧
    Sql.isGlue c = true ∧ d.tokens g = glueTokens c ∧ ∀ text, g ≠ .word text := by
  cases g with
  | space => exact ⟨' ', by simp [pieceText], rfl, rfl, by simp⟩
  | symbol text =>
    simp only [Piece.isGlue, Bool.or_eq_true, decide_eq_true_eq] at hg
    rcases hg with (rfl | rfl) | rfl
    exacts [⟨'(', by simp [pieceText], rfl, rfl, by simp⟩,
      ⟨')', by simp [pieceText], rfl, rfl, by simp⟩, ⟨',', by simp [pieceText], rfl, rfl, by simp⟩]
  | identifier | string | word => simp [Piece.isGlue] at hg

namespace Spells

theorem lex (h : d.Spells ps) : d.lex (d.text ps) = some (ps.flatMap d.tokens) := h.lexes.lex

/-- What keeps its neighbours apart, between two sequences of pieces. -/
theorem glue {g : Piece} (hp : d.Spells ps) (hg : g.isGlue = true) (hq : d.Spells qs) :
    d.Spells (ps ++ g :: qs) := by
  obtain ⟨c, hc, hglue, ht, hw⟩ := glue_piece (d := d) hg
  have h := hp.lexes.glue hglue hq.lexes
  refine ⟨?_, fun text hm => ?_⟩
  · simp only [toList_text] at h ⊢
    simpa [hc, ht] using h
  · rcases List.mem_append.mp hm with hm | hm
    · exact hp.words text hm
    · rcases List.mem_cons.mp hm with rfl | hm
      · exact absurd rfl (hw text)
      · exact hq.words text hm

theorem cons {g : Piece} (hg : g.isGlue = true) (hq : d.Spells qs) : d.Spells (g :: qs) :=
  (d.spells_nil).glue hg hq

theorem concat {g : Piece} (hp : d.Spells ps) (hg : g.isGlue = true) : d.Spells (ps ++ [g]) :=
  hp.glue hg d.spells_nil

theorem parens (hp : d.Spells ps) : d.Spells (Piece.parens ps) :=
  (hp.concat rfl).cons rfl

theorem parensIf (b : Bool) (hp : d.Spells ps) : d.Spells (Piece.parensIf b ps) := by
  cases b
  · exact hp
  · exact hp.parens

/-- A word and a blank before other pieces. -/
theorem keyword (text : String) (ht : isBareText text = true) (hq : d.Spells qs) :
    d.Spells (.word text :: .space :: qs) :=
  (spells_word text ht).glue rfl hq

theorem around (hp : d.Spells ps) (text : String) (ht : isBareText text = true)
    (hq : d.Spells qs) : d.Spells (ps ++ Piece.around text ++ qs) := by
  simpa [Piece.around] using hp.glue rfl (hq.keyword text ht)

/-- A word right before parentheses. -/
theorem applied {text : String} (ht : isBareText text = true) (hp : d.Spells ps) :
    d.Spells (.word text :: Piece.parens ps) :=
  (spells_word text ht).glue rfl (hp.concat rfl)

/-- A minus sign before pieces that do not begin with another. -/
theorem minus (hq : d.Spells qs) (hc : ∀ c ∈ (d.text qs).toList.head?, c ≠ '-') :
    d.Spells (.symbol "-" :: qs) := by
  have h := Lexes.afterSign (c := '-') (by decide) hq.lexes fun c hc' => by
    have := hc c hc'
    unfold signPair?
    split <;> simp_all
  refine ⟨?_, fun text hm => hq.words text (by simpa using hm)⟩
  simpa [toList_text, pieceText, tokens] using h

theorem separated {separator : List Piece} (hs : ∀ {ps qs}, d.Spells ps → d.Spells qs →
      d.Spells (ps ++ separator ++ qs)) {groups : List (List Piece)}
    (hg : ∀ ps ∈ groups, d.Spells ps) : d.Spells (Piece.separated separator groups) := by
  induction groups with
  | nil => exact d.spells_nil
  | cons group rest ih =>
    rw [List.forall_mem_cons] at hg
    cases rest with
    | nil => exact hg.1
    | cons next rest => exact hs hg.1 (ih hg.2)

theorem listed {groups : List (List Piece)} (hg : ∀ ps ∈ groups, d.Spells ps) :
    d.Spells (Piece.separated comma groups) := by
  refine separated (fun hp hq => ?_) hg
  simpa [comma] using hp.glue (g := .symbol ",") rfl (hq.cons (g := .space) rfl)

/-- The quoted tokens are those of the quoted pieces. -/
theorem filter_isQuoted (h : d.Spells ps) :
    (ps.flatMap d.tokens).filter Token.isQuoted = ps.flatMap Piece.quoted := by
  have hp : ∀ p ∈ ps, (d.tokens p).filter Token.isQuoted = p.quoted := by
    intro p hm
    cases p with
    | word text =>
      refine List.filter_eq_nil_iff.mpr fun t ht => ?_
      have := isBare_of_mem_tokens (h.words text hm) t ht
      cases t <;> simp_all [Token.isBare, Token.isQuoted]
    | _ => rfl
  rw [List.filter_flatMap]
  exact List.flatMap_congr hp

theorem comment_notMem (h : d.Spells ps) : Token.comment ∉ ps.flatMap d.tokens := by
  intro hm
  obtain ⟨p, hp, ht⟩ := List.mem_flatMap.mp hm
  cases p with
  | word text => exact absurd (isBare_of_mem_tokens (h.words text hp) _ ht) (by decide)
  | _ => simp [tokens] at ht

/-- The kinds of the tokens are given by the kinds of the pieces. -/
theorem map_kind (h : d.Spells ps) :
    (ps.flatMap d.tokens).map Token.kind = (ps.map Piece.kind).flatMap d.tokens := by
  have hp : ∀ p ∈ ps, (d.tokens p).map Token.kind = d.tokens p.kind := by
    intro p hm
    cases p with
    | word text =>
      refine (List.map_congr_left fun t ht => ?_).trans (List.map_id _)
      have := isBare_of_mem_tokens (h.words text hm) t ht
      cases t <;> simp_all [Token.isBare, Token.kind]
    | _ => rfl
  rw [List.map_flatMap, List.flatMap_map]
  exact List.flatMap_congr hp

end Spells

end Descriptor

end PlanSql
