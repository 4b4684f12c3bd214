import PlanSql.Proofs.Sql.Readers
import PlanSql.Proofs.Sql.Wording

/-!
# Expressions read back

The tokens of an expression are read as the expression. Operands that are comparisons, arithmetic or
tests stand in parentheses, and so do logical operations; a minus sign binds tighter than anything
around it. Only a negation is written without parentheses although it binds less tightly than what
may stand around it, so that it must not be an operand of a comparison, of arithmetic or of a test.
-/
namespace PlanSql.Sql

/-- A constant as it is read: a number may have a minus sign. -/
def Tree.ofLiteral : List Token → Tree
  | .symbol "-" :: ts => .unary .minus (.literal ts)
  | ts => .literal ts

namespace Expr

mutual

/-- An expression with constants and names of types as tokens. -/
def tree (d : Descriptor) : Expr → Tree
  | .column qualifier name => .column qualifier name
  | .literal l => Tree.ofLiteral ((l.pieces d).flatMap d.tokens)
  | .star => .star
  | .unary op operand => .unary op (operand.tree d)
  | .binary op left right => .binary op (left.tree d) (right.tree d)
  | .call name args distinct filter window =>
    .call name (treeAll d args) distinct (treeOption d filter) (treeOver d window)
  | .extract field operand => .extract field (operand.tree d)
  | .case branches otherwise => .case (treeBranches d branches) (treeOption d otherwise)
  | .inList operand list negated => .inList (operand.tree d) (treeAll d list) negated
  | .isNull operand negated => .isNull (operand.tree d) negated
  | .cast operand typeName => .cast (operand.tree d) (d.tokens (.word typeName))

def treeAll (d : Descriptor) : List Expr → List Tree
  | [] => []
  | e :: rest => e.tree d :: treeAll d rest

def treeOption (d : Descriptor) : Option Expr → Option Tree
  | none => none
  | some e => some (e.tree d)

def treeBranches (d : Descriptor) : List (Expr × Expr) → List (Tree × Tree)
  | [] => []
  | (condition, result) :: rest => (condition.tree d, result.tree d) :: treeBranches d rest

def treeOver (d : Descriptor) : Option (Over Expr) → Option (Over Tree)
  | none => none
  | some ⟨partitionBy, orderBy⟩ => some ⟨treeAll d partitionBy, treeKeys d orderBy⟩

def treeKeys (d : Descriptor) : List (SortKey Expr) → List (SortKey Tree)
  | [] => []
  | ⟨e, descending⟩ :: rest => ⟨e.tree d, descending⟩ :: treeKeys d rest

end

def isNegation : Expr → Bool
  | .unary .not _ => true
  | _ => false

/-- A comparison, arithmetic or a test with a negation right under it. -/
def takesNegation : Expr → Bool
  | .binary op left right => !op.isLogical && (left.isNegation || right.isNegation)
  | .inList operand _ _ | .isNull operand _ => operand.isNegation
  | _ => false

open Grammar Piece

variable {d : Descriptor}

/-- The tokens of an expression. -/
def tokens (d : Descriptor) (e : Expr) : List Token := (e.pieces d).flatMap d.tokens

/-- The tokens of an expression as an operand. -/
def operandTokens (d : Descriptor) (e : Expr) : List Token := encloseIf e.isOpen (e.tokens d)

theorem tokens_parens (ps : List Piece) :
    (parens ps).flatMap d.tokens = enclose (ps.flatMap d.tokens) := by
  simp [parens, enclose, d.tokens_symbol]

theorem tokens_parensIf (b : Bool) (ps : List Piece) :
    (parensIf b ps).flatMap d.tokens = encloseIf b (ps.flatMap d.tokens) := by
  cases b
  · rfl
  · exact tokens_parens ps

theorem tokens_around (text : String) (h : isWordText text = true) :
    (around text).flatMap d.tokens = [.word text] := by
  simp [around, d.tokens_keyword text h, d.tokens_space]

theorem tokens_negation (negated : Bool) :
    (negation negated).flatMap d.tokens = if negated then [.word "NOT"] else [] := by
  cases negated
  · rfl
  · simp [negation, d.tokens_keyword "NOT" (by decide), d.tokens_space]

theorem tokens_operatorPiece (op : BinaryOp) : d.tokens (operatorPiece op) = [op.token] := by
  cases op with
  | and | or | like => exact d.tokens_keyword _ (by decide)
  | _ => rfl

theorem tokens_binary (op : BinaryOp) (left right : Expr) :
    (binary op left right).tokens d = encloseIf op.isLogical
      (left.operandTokens d ++ op.token :: right.operandTokens d) := by
  simp [tokens, pieces, tokens_parensIf, tokens_operatorPiece, operandTokens, d.tokens_space]

theorem tokens_isNull (operand : Expr) (negated : Bool) :
    (isNull operand negated).tokens d = operand.operandTokens d ++ .word "IS" ::
      ((if negated then [.word "NOT"] else []) ++ [.word "NULL"]) := by
  simp [tokens, pieces, tokens_parensIf, tokens_around "IS" (by decide), tokens_negation,
    operandTokens, d.tokens_keyword "NULL" (by decide)]

theorem tokens_inList (operand : Expr) (list : List Expr) (negated : Bool) :
    (inList operand list negated).tokens d = operand.operandTokens d
      ++ ((if negated then [.word "NOT"] else [])
        ++ .word "IN" :: enclose ((listPieces d list).flatMap d.tokens)) := by
  simp [tokens, pieces, tokens_parensIf, tokens_parens, tokens_negation, operandTokens,
    d.tokens_keyword "IN" (by decide), d.tokens_space]

theorem tokens_not (operand : Expr) : (unary .not operand).tokens d =
    .word "NOT" :: encloseIf (!operand.standsAfter .not) (operand.tokens d) := by
  simp [tokens, pieces, unaryPieces, tokens_parensIf, d.tokens_keyword "NOT" (by decide),
    d.tokens_space]

theorem tokens_minus (operand : Expr) : (unary .minus operand).tokens d =
    .symbol "-" :: encloseIf (!operand.standsAfter .minus) (operand.tokens d) := by
  simp [tokens, pieces, unaryPieces, tokens_parensIf, d.tokens_symbol]

theorem tokens_cast (operand : Expr) (typeName : String) : (cast operand typeName).tokens d =
    .word "CAST" ::
      enclose (operand.tokens d ++ .word "AS" :: d.tokens (.word typeName)) := by
  simp [tokens, pieces, tokens_parens, tokens_around "AS" (by decide),
    d.tokens_keyword "CAST" (by decide)]

theorem tokens_extract {field : String} (h : isWordText field = true) (operand : Expr) :
    (extract field operand).tokens d =
      .word "EXTRACT" :: enclose (.word field :: .word "FROM" :: operand.tokens d) := by
  simp [tokens, pieces, tokens_parens, tokens_around "FROM" (by decide),
    d.tokens_keyword "EXTRACT" (by decide), d.tokens_keyword field h]

theorem tokens_case (branches : List (Expr × Expr)) (otherwise : Option Expr) :
    (case branches otherwise).tokens d = .word "CASE" ::
      ((branchPieces d branches).flatMap d.tokens ++ ((elsePieces d otherwise).flatMap d.tokens
        ++ [.word "END"])) := by
  simp [tokens, pieces, d.tokens_keyword "CASE" (by decide), d.tokens_keyword "END" (by decide),
    d.tokens_space]

theorem tokens_call {name : String} (h : isWordText name = true) (args : List Expr)
    (distinct : Bool) (filter : Option Expr) (window : Option (Over Expr)) :
    (call name args distinct filter window).tokens d = .word name :: .symbol "(" ::
      ((if distinct then [.word "DISTINCT"] else []) ++ ((listPieces d args).flatMap d.tokens
        ++ .symbol ")" :: ((filterPieces d filter).flatMap d.tokens
          ++ (overPieces d window).flatMap d.tokens))) := by
  cases distinct <;>
    simp [tokens, pieces, tokens_parens, enclose, d.tokens_keyword name h,
      d.tokens_keyword "DISTINCT" (by decide), d.tokens_space]

/-- An expression is read as its tree, as an operand and as a whole. -/
structure Reads (d : Descriptor) (e : Expr) : Prop where
  operand : ∀ level ts, (e.isNegation = true → level ≤ notLevel ∧ Stops notLevel ts) →
    Detached ts → read (.operand level) (e.operandTokens d ++ ts) = some (e.tree d, ts)
  whole : ∀ level ts, level ≤ notLevel → Stops notLevel ts → Detached ts →
    read (.expression level) (e.tokens d ++ ts) = read (.continued level (e.tree d)) ts

theorem Reads.ends {e : Expr} (h : Reads d e) {ts : List Token} (he : Ends ts) :
    read (.expression 1) (e.tokens d ++ ts) = some (e.tree d, ts) := by
  rw [h.whole 1 ts (by decide) (he.stops.mono (by decide)) he.detached, continued_of_stops he.stops]

theorem Reads.before {e : Expr} (h : Reads d e) (token : Token) (ht : token ∈ closers)
    (ts : List Token) :
    read (.expression 1) (e.tokens d ++ token :: ts) = some (e.tree d, token :: ts) :=
  h.ends (ends_closer token ht ts)

theorem Reads.enclosed {e : Expr} (h : Reads d e) (level : Nat) (ts : List Token) :
    read (.operand level) (enclose (e.tokens d) ++ ts) = some (e.tree d, ts) :=
  operand_enclose (h.before _ (by decide) ts)

theorem reads_of_closed {e : Expr} (h : e.isOpen = false)
    (ho : ∀ level ts, (e.isNegation = true → level ≤ notLevel ∧ Stops notLevel ts) →
      Detached ts → read (.operand level) (e.tokens d ++ ts) = some (e.tree d, ts)) :
    Reads d e where
  operand level ts hn hd := by
    rw [operandTokens, h]
    exact ho level ts hn hd
  whole level ts hl hs hd := expression_eq (ho level ts (fun _ => ⟨hl, hs⟩) hd)

theorem reads_of_open {e : Expr} (h : e.isOpen = true)
    (hw : ∀ level ts, level ≤ notLevel → Stops notLevel ts → Detached ts →
      read (.expression level) (e.tokens d ++ ts) = read (.continued level (e.tree d)) ts) :
    Reads d e where
  operand level ts _ _ := by
    have he := ends_closer (.symbol ")") (by decide) ts
    rw [operandTokens, h]
    refine operand_enclose ?_
    rw [hw 1 _ (by decide) (he.stops.mono (by decide)) he.detached, continued_of_stops he.stops]
  whole := hw

theorem reads_list {es : List Expr} (hne : es ≠ []) (h : ∀ e ∈ es, Reads d e)
    {ts : List Token} (he : Ends ts) (hc : takes (.symbol ",") ts = (false, ts)) :
    read .list ((listPieces d es).flatMap d.tokens ++ ts) = some (treeAll d es, ts) := by
  induction es with
  | nil => exact absurd rfl hne
  | cons e rest ih =>
    obtain ⟨hd, hrest⟩ := List.forall_mem_cons.mp h
    cases rest with
    | nil =>
      rw [show (listPieces d [e]).flatMap d.tokens = e.tokens d from rfl, read_eq, rule, listRule,
        hd.ends he]
      simp [hc, treeAll]
    | cons next rest =>
      have hcomma := ends_closer (.symbol ",") (by decide)
        ((listPieces d (next :: rest)).flatMap d.tokens ++ ts)
      have htokens : (listPieces d (e :: next :: rest)).flatMap d.tokens ++ ts =
          e.tokens d ++ .symbol "," :: ((listPieces d (next :: rest)).flatMap d.tokens ++ ts) := by
        simp [listPieces, comma, tokens, d.tokens_symbol, d.tokens_space]
      rw [htokens, read_eq, rule, listRule, hd.ends hcomma]
      simp [takes, ih (by simp) hrest, treeAll]

theorem reads_enclosed {es : List Expr} (h : ∀ e ∈ es, Reads d e) (ts : List Token) :
    read .enclosed ((listPieces d es).flatMap d.tokens ++ .symbol ")" :: ts) =
      some (treeAll d es, ts) := by
  cases es with
  | nil => simp [read_eq, rule, enclosedRule, listPieces, takes, treeAll]
  | cons e rest =>
    have hlist := reads_list (by simp) h (ends_closer (.symbol ")") (by decide) ts)
      (by simp [takes])
    rw [read_eq, rule, enclosedRule]
    cases htokens : (listPieces d (e :: rest)).flatMap d.tokens ++ .symbol ")" :: ts with
    | nil => simp at htokens
    | cons t ts' =>
      rw [htokens] at hlist
      have ht : t ≠ .symbol ")" := by
        rintro rfl
        simp [list_close] at hlist
      simp [takes, skip, ht, hlist]

theorem reads_keys {ks : List (SortKey Expr)} (hne : ks ≠ []) (h : ∀ k ∈ ks, Reads d k.expr)
    (ts : List Token) : read .keys ((keyPieces d ks).flatMap d.tokens ++ .symbol ")" :: ts) =
      some (treeKeys d ks, .symbol ")" :: ts) := by
  have directed : ∀ (k : SortKey Expr) (ts : List Token),
      (SortKey.directed k.descending (k.expr.pieces d)).flatMap d.tokens ++ ts =
        k.expr.tokens d ++ .word (if k.descending then "DESC" else "ASC") :: ts := by
    intro k ts
    cases hk : k.descending <;>
      simp [SortKey.directed, tokens, d.tokens_keyword "DESC" (by decide),
        d.tokens_keyword "ASC" (by decide), d.tokens_space]
  have word : ∀ (descending : Bool) (ts : List Token),
      Ends (.word (if descending then "DESC" else "ASC") :: ts) := by
    intro descending ts
    cases descending <;> exact ends_closer _ (by decide) ts
  induction ks with
  | nil => exact absurd rfl hne
  | cons k rest ih =>
    obtain ⟨hd, hrest⟩ := List.forall_mem_cons.mp h
    obtain ⟨e, descending⟩ := k
    cases rest with
    | nil =>
      rw [keyPieces, directed ⟨e, descending⟩, read_eq, rule, keysRule, hd.ends (word descending _)]
      cases descending <;> simp [direction, takes, skip, treeKeys]
    | cons next rest =>
      have htokens : (keyPieces d (⟨e, descending⟩ :: next :: rest)).flatMap d.tokens
          ++ .symbol ")" :: ts = e.tokens d ++ .word (if descending then "DESC" else "ASC") ::
            .symbol "," :: ((keyPieces d (next :: rest)).flatMap d.tokens ++ .symbol ")" :: ts) := by
        rw [← directed ⟨e, descending⟩]
        simp [keyPieces, comma, d.tokens_symbol, d.tokens_space]
      rw [htokens, read_eq, rule, keysRule, hd.ends (word descending _)]
      cases descending <;> simp [direction, takes, skip, ih (by simp) hrest, treeKeys]

theorem reads_branches {bs : List (Expr × Expr)} (h : ∀ b ∈ bs, Reads d b.1 ∧ Reads d b.2)
    {ts : List Token} (he : Ends ts) (hw : takes (.word "WHEN") ts = (false, ts)) :
    read .branches ((branchPieces d bs).flatMap d.tokens ++ ts) = some (treeBranches d bs, ts) := by
  induction bs with
  | nil =>
    rw [branchPieces, List.flatMap_nil, List.nil_append, read_eq, rule, branchesRule]
    simp [hw, treeBranches]
  | cons b rest ih =>
    obtain ⟨⟨hc, hr⟩, hrest⟩ := List.forall_mem_cons.mp h
    obtain ⟨condition, result⟩ := b
    have htokens : (branchPieces d ((condition, result) :: rest)).flatMap d.tokens ++ ts =
        .word "WHEN" :: (condition.tokens d ++ .word "THEN" :: (result.tokens d
          ++ ((branchPieces d rest).flatMap d.tokens ++ ts))) := by
      simp [branchPieces, tokens, tokens_around "WHEN" (by decide),
        tokens_around "THEN" (by decide)]
    have hnext : Ends ((branchPieces d rest).flatMap d.tokens ++ ts) := by
      cases rest with
      | nil => simpa [branchPieces] using he
      | cons b rest =>
        rw [branchPieces, List.append_assoc, List.append_assoc, List.append_assoc,
          List.flatMap_append, tokens_around "WHEN" (by decide)]
        exact ends_closer _ (by decide) _
    rw [htokens, read_eq, rule, branchesRule]
    simp [takes, skip, hc.before (.word "THEN") (by decide), hr.ends hnext, ih hrest,
      treeBranches]

theorem reads_filterClause {filter : Option Expr} (h : ∀ e ∈ filter, Reads d e)
    (ts : List Token) (hf : takes (.word "FILTER") ts = (false, ts)) :
    read .filterClause ((filterPieces d filter).flatMap d.tokens ++ ts) =
      some (treeOption d filter, ts) := by
  cases filter with
  | none =>
    rw [filterPieces, List.flatMap_nil, List.nil_append, read_eq, rule, filterRule]
    simp [hf, treeOption]
  | some e =>
    have htokens : (filterPieces d (some e)).flatMap d.tokens ++ ts = .word "FILTER" ::
        .symbol "(" :: .word "WHERE" :: (e.tokens d ++ .symbol ")" :: ts) := by
      simp [filterPieces, tokens_parens, enclose, tokens, d.tokens_keyword "FILTER" (by decide),
        d.tokens_keyword "WHERE" (by decide), d.tokens_space]
    rw [htokens, read_eq, rule, filterRule]
    simp [takes, skip, (h e rfl).before (.symbol ")") (by decide), treeOption]

theorem reads_overClause {window : Option (Over Expr)}
    (h : ∀ w ∈ window, ∀ e ∈ w.keys, Reads d e) {ts : List Token}
    (ho : takes (.word "OVER") ts = (false, ts)) :
    read .overClause ((overPieces d window).flatMap d.tokens ++ ts) =
      some (treeOver d window, ts) := by
  cases window with
  | none =>
    rw [overPieces, List.flatMap_nil, List.nil_append, read_eq, rule, overRule]
    simp [ho, treeOver]
  | some w =>
    obtain ⟨partitionBy, orderBy⟩ := w
    have hkeys := h _ rfl
    simp only [Over.keys, List.forall_mem_append, List.forall_mem_map] at hkeys
    -- what follows the keys of PARTITION BY
    obtain ⟨rest, hrest⟩ : ∃ rest, rest =
        byTokens "ORDER" orderBy.isEmpty ((keyPieces d orderBy).flatMap d.tokens) ++
          .symbol ")" :: ts := ⟨_, rfl⟩
    have htokens : (overPieces d (some ⟨partitionBy, orderBy⟩)).flatMap d.tokens ++ ts =
        .word "OVER" :: .symbol "(" :: (byTokens "PARTITION" partitionBy.isEmpty
          ((listPieces d partitionBy).flatMap d.tokens) ++ rest) := by
      rw [hrest]
      cases partitionBy <;> cases orderBy <;>
        simp [overPieces, byTokens, tokens_parens, enclose, d.tokens_keyword "OVER" (by decide),
          d.tokens_space, d.tokens_keyword "PARTITION" (by decide),
          d.tokens_keyword "BY" (by decide), d.tokens_keyword "ORDER" (by decide)]
    have hends : Ends rest ∧ takes (.symbol ",") rest = (false, rest) ∧
        takes (.word "PARTITION") rest = (false, rest) := by
      rw [hrest]
      cases orderBy <;>
        exact ⟨ends_closer _ (by decide) _, by simp [byTokens, takes], by simp [byTokens, takes]⟩
    have hpartition : byClause Grammar.read "PARTITION" .list (byTokens "PARTITION"
        partitionBy.isEmpty ((listPieces d partitionBy).flatMap d.tokens) ++ rest) =
        some (treeAll d partitionBy, rest) := by
      refine byClause_byTokens (fun he => ?_) (fun he => ?_) hends.2.2
      · rw [List.isEmpty_iff.mp he, treeAll]
      · exact reads_list (List.isEmpty_eq_false_iff.mp he) hkeys.1 hends.1 hends.2.1
    have horder : byClause Grammar.read "ORDER" .keys rest =
        some (treeKeys d orderBy, .symbol ")" :: ts) := by
      rw [hrest]
      refine byClause_byTokens (fun he => ?_) (fun he => ?_) (by simp [takes])
      · rw [List.isEmpty_iff.mp he, treeKeys]
      · exact reads_keys (List.isEmpty_eq_false_iff.mp he) hkeys.2 ts
    rw [htokens, read_eq, rule, overRule]
    simp [takes, skip, hpartition, horder, treeOver]

/-- What is written as a leaf is read as that leaf. -/
theorem reads_of_leaf {e : Expr} {t : Token} {us : List Token} (h : e.isOpen = false)
    (htokens : e.tokens d = t :: us) (hus : us.head? ≠ some (.symbol "("))
    (hleaf : ∀ ts, Detached ts → leaf (t :: (us ++ ts)) = some (e.tree d, ts)) : Reads d e := by
  refine reads_of_closed h fun level ts _ hd => ?_
  rw [htokens]
  refine operand_of_leaf (hleaf ts hd) fun name rest he => ?_
  obtain ⟨-, he⟩ := List.cons_eq_cons.mp he
  cases us with
  | nil => exact hd.ne rfl rest he
  | cons u us =>
    obtain ⟨rfl, -⟩ := List.cons_eq_cons.mp he
    exact hus rfl

theorem reads_column (qualifier : Option String) (name : String) :
    Reads d (column qualifier name) := by
  cases qualifier with
  | some qualifier =>
    exact reads_of_leaf rfl rfl (by simp [d.tokens_symbol]) fun ts _ =>
      leaf_qualified qualifier name ts
  | none =>
    exact reads_of_leaf rfl rfl (by simp) fun ts hd => leaf_identifier name (hd.ne rfl)

theorem reads_star : Reads d star :=
  reads_of_leaf rfl rfl (by simp) fun ts _ => leaf_star ts

/-- A constant whose tokens are those of a leaf. -/
theorem reads_constant {l : Literal} {t : Token} {us : List Token}
    (htokens : (l.pieces d).flatMap d.tokens = t :: us) (hus : us.head? ≠ some (.symbol "("))
    (hsign : t ≠ .symbol "-") (hleaf : ∀ ts, Detached ts →
      leaf (t :: (us ++ ts)) = some (.literal (t :: us), ts)) : Reads d (literal l) := by
  have htree : (literal l).tree d = .literal (t :: us) := by
    have h : (literal l).tree d = Tree.ofLiteral _ := congrArg Tree.ofLiteral htokens
    rw [h, Tree.ofLiteral]
    exact fun ts he => hsign (List.cons_eq_cons.mp he).1
  exact reads_of_leaf rfl htokens hus (htree ▸ hleaf)

theorem reads_numeral {l : Literal} (negative : Bool) {cs : List Char} (h : isNumeral cs = true)
    (hl : l.pieces d = [.word (Binary64.signed negative cs)]) : Reads d (literal l) := by
  have htokens : (l.pieces d).flatMap d.tokens =
      (if negative then [Token.symbol "-"] else []) ++ [Token.number (String.ofList cs)] := by
    simp [hl, tokens_signed d negative h]
  cases negative with
  | false => exact reads_constant htokens (by simp) (by simp) fun ts _ => leaf_number _ ts
  | true =>
    have htokens : (l.pieces d).flatMap d.tokens =
      [.symbol "-", .number (String.ofList cs)] := htokens
    have htree : (literal l).tree d = Tree.ofLiteral _ := congrArg Tree.ofLiteral htokens
    refine reads_of_closed rfl fun level ts _ _ => ?_
    have hnumber : read (.operand minusLevel) (.number (String.ofList cs) :: ts) =
        some (.literal [.number (String.ofList cs)], ts) := operand_of_leaf rfl (by simp)
    rw [htree, tokens, pieces, htokens, List.cons_append, List.singleton_append, operand_minus,
      hnumber]
    rfl

theorem reads_string {l : Literal} {text : String} (hl : l.pieces d = [.string text]) :
    Reads d (literal l) := by
  have htokens : (l.pieces d).flatMap d.tokens = [.string text] := by simp [hl, d.tokens_string]
  exact reads_constant htokens (by simp) (by simp) fun ts _ => leaf_string text ts

/-- A constant that is a word. -/
theorem reads_word {l : Literal} {text : String} (hw : isWordText text = true)
    (ht : text = "NULL" ∨ text = "TRUE" ∨ text = "FALSE") (hl : l.pieces d = [.word text]) :
    Reads d (literal l) := by
  have htokens : (l.pieces d).flatMap d.tokens = [.word text] := by
    simp [hl, d.tokens_keyword text hw]
  exact reads_constant htokens (by simp) (by simp) fun ts hd =>
    leaf_word ht fun value => hd.ne rfl

theorem reads_temporal {l : Literal} {keyword text : String} (hw : isWordText keyword = true)
    (hk : keyword = "DATE" ∨ keyword = "TIMESTAMP")
    (hl : l.pieces d = temporalPieces d keyword text) : Reads d (literal l) := by
  by_cases htyped : d.typedTemporalLiterals = true
  · have htokens : (l.pieces d).flatMap d.tokens = [.word keyword, .string text] := by
      simp [hl, temporalPieces, htyped, d.tokens_keyword keyword hw, d.tokens_space,
        d.tokens_string]
    exact reads_constant htokens (by simp) (by simp) fun ts _ => leaf_temporal hk text ts
  · have hstring : l.pieces d = [.string text] := by simp [hl, temporalPieces, htyped]
    exact reads_string hstring

theorem reads_literal {l : Literal} (h : (literal l).isWorded d = true) :
    Reads d (literal l) := by
  cases l with
  | number text => exact reads_numeral false h (by simp [Literal.pieces, Binary64.signed])
  | value v =>
    cases v with
    | null => exact reads_word (by decide) (by decide) rfl
    | bool b => cases b <;> exact reads_word (by decide) (by decide) rfl
    | int i =>
      exact reads_numeral (i < 0) (isNumeral_nat i.natAbs) (by rw [Literal.pieces, toString_int])
    | float x =>
      obtain ⟨cs, hcs, hx⟩ := floatText_eq h
      exact reads_numeral x.negative hcs (by rw [Literal.pieces, hx])
    | text s => exact reads_string rfl
    | date t => exact reads_temporal (by decide) (by decide) rfl
    | timestamp t => exact reads_temporal (by decide) (by decide) rfl

/-- What stands after NOT or a minus sign is an operand. -/
theorem Reads.after {operand : Expr} (h : Reads d operand) (op : UnaryOp) (level : Nat)
    (ts : List Token) (hd : Detached ts) : read (.operand level)
      (encloseIf (!operand.standsAfter op) (operand.tokens d) ++ ts) =
        some (operand.tree d, ts) := by
  cases hs : operand.standsAfter op with
  | false => exact h.enclosed level ts
  | true =>
    obtain ⟨hopen, hneg⟩ : operand.isOpen = false ∧ operand.isNegation = false := by
      cases op <;> cases operand <;>
        simp_all [standsAfter, isAtomic, isLogical, isOpen, isNegation]
    have ho := h.operand level ts (by simp [hneg]) hd
    rwa [operandTokens, hopen] at ho

theorem reads_unary (op : UnaryOp) {operand : Expr} (h : Reads d operand) :
    Reads d (unary op operand) := by
  cases op with
  | not =>
    refine reads_of_closed rfl fun level ts hn hd => ?_
    obtain ⟨hl, hs⟩ := hn rfl
    have hoperand := expression_of_stops (h.after .not notLevel ts hd) hs
    rw [tokens_not, List.cons_append, operand_not hl, hoperand]
    rfl
  | minus =>
    refine reads_of_closed rfl fun level ts _ hd => ?_
    rw [tokens_minus, List.cons_append, operand_minus, h.after .minus minusLevel ts hd]
    rfl

theorem reads_binary {op : BinaryOp} {left right : Expr} (hl : Reads d left) (hr : Reads d right)
    (hn : (binary op left right).takesNegation = false) : Reads d (binary op left right) := by
  cases hlog : op.isLogical with
  | true =>
    obtain ⟨hlow, hlevel⟩ : op.level + 1 ≤ notLevel ∧ 1 ≤ op.level := by
      cases op <;> first | decide | simp [BinaryOp.isLogical] at hlog
    refine reads_of_closed (by simp [isOpen, hlog]) fun level ts _ _ => ?_
    have hclose := ends_closer (.symbol ")") (by decide) ts
    have hleft := hl.operand 1 (op.token :: (right.operandTokens d ++ .symbol ")" :: ts))
      (fun _ => ⟨by decide, stops_operator hlow _⟩) (detached_operator op _)
    have hright := hr.operand (op.level + 1) (.symbol ")" :: ts)
      (fun _ => ⟨hlow, hclose.stops.mono (by decide)⟩) hclose.detached
    have hwhole : read (.expression 1) (left.operandTokens d ++ op.token :: (right.operandTokens d
        ++ .symbol ")" :: ts)) = some ((binary op left right).tree d, .symbol ")" :: ts) :=
      (expression_binary hleft hright hlevel (hclose.stops.mono (by omega))).trans
        (continued_of_stops hclose.stops)
    rw [tokens_binary, hlog]
    exact operand_enclose (by simpa using hwhole)
  | false =>
    obtain ⟨hln, hrn⟩ : left.isNegation = false ∧ right.isNegation = false := by
      simpa [takesNegation, hlog] using hn
    have hlevel : notLevel ≤ op.level := by
      cases op <;> first | decide | simp [BinaryOp.isLogical] at hlog
    refine reads_of_open (by simp [isOpen, hlog]) fun level ts hlow hs hd => ?_
    have hleft := hl.operand level (op.token :: (right.operandTokens d ++ ts)) (by simp [hln])
      (detached_operator op _)
    have hright := hr.operand (op.level + 1) ts (by simp [hrn]) hd
    rw [tokens_binary, hlog, encloseIf, if_neg Bool.false_ne_true, List.append_assoc,
      List.cons_append]
    exact expression_binary hleft hright (by omega) (hs.mono (by omega))

theorem reads_isNull {operand : Expr} (negated : Bool) (h : Reads d operand)
    (hn : operand.isNegation = false) : Reads d (isNull operand negated) := by
  refine reads_of_open rfl fun level ts hl hs hd => ?_
  have ho := h.operand level (.word "IS" :: ((if negated then [Token.word "NOT"] else [])
    ++ .word "NULL" :: ts)) (by simp [hn]) (by simp [Detached, prolongs])
  have htokens : (isNull operand negated).tokens d ++ ts = operand.operandTokens d ++
      .word "IS" :: ((if negated then [Token.word "NOT"] else []) ++ .word "NULL" :: ts) := by
    simp [tokens_isNull]
  rw [htokens, expression_eq ho, continued_isNull (Nat.le_trans hl (by decide))]
  rfl

theorem reads_inList {operand : Expr} {es : List Expr} (negated : Bool) (h : Reads d operand)
    (hes : ∀ e ∈ es, Reads d e) (hn : operand.isNegation = false) :
    Reads d (inList operand es negated) := by
  refine reads_of_open rfl fun level ts hl hs hd => ?_
  have hdetached : ∀ ts : List Token,
      Detached ((if negated then [Token.word "NOT"] else []) ++ .word "IN" :: ts) := by
    intro ts
    cases negated <;> simp [Detached, prolongs]
  have ho := h.operand level _ (by simp [hn])
    (hdetached (.symbol "(" :: ((listPieces d es).flatMap d.tokens ++ .symbol ")" :: ts)))
  have htokens : (inList operand es negated).tokens d ++ ts = operand.operandTokens d ++
      ((if negated then [Token.word "NOT"] else []) ++ .word "IN" :: .symbol "(" ::
        ((listPieces d es).flatMap d.tokens ++ .symbol ")" :: ts)) := by
    simp [tokens_inList, enclose]
  rw [htokens, expression_eq ho, continued_inList (Nat.le_trans hl (by decide)),
    reads_enclosed hes]
  rfl

theorem reads_case {bs : List (Expr × Expr)} {otherwise : Option Expr}
    (hbs : ∀ b ∈ bs, Reads d b.1 ∧ Reads d b.2) (ho : ∀ e ∈ otherwise, Reads d e) :
    Reads d (case bs otherwise) := by
  refine reads_of_closed rfl fun level ts _ _ => ?_
  rw [tokens_case, List.cons_append, List.append_assoc, List.append_assoc, List.singleton_append]
  rw [read_eq, rule, operandRule]
  cases otherwise with
  | none =>
    have hb := reads_branches hbs (ends_closer (.word "END") (by decide) ts)
      (by simp [takes])
    simp only [elsePieces, List.flatMap_nil, List.nil_append]
    simp [hb, takes, skip]
    rfl
  | some e =>
    have hb := reads_branches hbs (ends_closer (.word "ELSE") (by decide)
      (e.tokens d ++ .word "END" :: ts)) (by simp [takes])
    have he := (ho e rfl).before (.word "END") (by decide) ts
    have helse : (elsePieces d (some e)).flatMap d.tokens = .word "ELSE" :: e.tokens d := by
      simp [elsePieces, tokens_around "ELSE" (by decide), tokens]
    simp [helse, hb, takes, skip, he]
    rfl

theorem reads_cast {operand : Expr} {typeName : String} (h : Reads d operand)
    (hw : (cast operand typeName).isWorded d = true) : Reads d (cast operand typeName) := by
  refine reads_of_closed rfl fun level ts _ _ => ?_
  have htype := typeName_of_isBalanced (isWorded_cast hw).2 ts
  have ho := h.before (.word "AS") (by decide)
    (d.tokens (.word typeName) ++ .symbol ")" :: ts)
  have htokens : (cast operand typeName).tokens d ++ ts = .word "CAST" :: .symbol "(" ::
      (operand.tokens d ++ .word "AS" :: (d.tokens (.word typeName) ++ .symbol ")" :: ts)) := by
    simp [tokens_cast, enclose]
  rw [htokens, operand_applied (by decide), read_eq, rule, appliedRule.eq_def, if_pos rfl, ho]
  simp [skip, htype]
  rfl

theorem reads_extract {operand : Expr} {field : String} (h : Reads d operand)
    (hw : isWordText field = true) : Reads d (extract field operand) := by
  refine reads_of_closed rfl fun level ts _ _ => ?_
  have ho := h.before (.symbol ")") (by decide) ts
  have htokens : (extract field operand).tokens d ++ ts = .word "EXTRACT" :: .symbol "(" ::
      .word field :: .word "FROM" :: (operand.tokens d ++ .symbol ")" :: ts) := by
    simp [tokens_extract hw, enclose]
  rw [htokens, operand_applied (by decide), read_eq, rule, appliedRule.eq_def,
    if_neg (by decide), if_pos rfl]
  simp [skip, ho]
  rfl

/-- A function is called by a name that means nothing else before a parenthesis. -/
theorem reads_call {name : String} {args : List Expr} {distinct : Bool} {filter : Option Expr}
    {window : Option (Over Expr)} (hw : (call name args distinct filter window).isWorded d = true)
    (ha : ∀ e ∈ args, Reads d e) (hf : ∀ e ∈ filter, Reads d e)
    (ho : ∀ w ∈ window, ∀ e ∈ w.keys, Reads d e) :
    Reads d (call name args distinct filter window) := by
  obtain ⟨-, hword, hreserved⟩ := isWorded_call hw
  obtain ⟨hnot, hcase, hcast, hextract, hdistinct⟩ : name ≠ "NOT" ∧ name ≠ "CASE" ∧
      name ≠ "CAST" ∧ name ≠ "EXTRACT" ∧ name ≠ "DISTINCT" := by
    simpa [reserved] using hreserved
  refine reads_of_closed rfl fun level ts _ hd => ?_
  have absent : ∀ {word : String}, word = "FILTER" ∨ word = "OVER" →
      takes (.word word) ts = (false, ts) := by
    refine fun hword => takes_of_ne ?_
    rintro rest rfl
    rcases hword with rfl | rfl <;> simpa [prolongs] using hd _ rfl
  have hover := reads_overClause ho (absent (.inr rfl))
  have hfilter := reads_filterClause hf ((overPieces d window).flatMap d.tokens ++ ts) (by
    cases window with
    | none => simpa [overPieces] using absent (.inl rfl)
    | some w => simp [overPieces, d.tokens_space, d.tokens_keyword "OVER" (by decide), takes])
  have hargs := reads_enclosed ha ((filterPieces d filter).flatMap d.tokens ++
    ((overPieces d window).flatMap d.tokens ++ ts))
  rw [tokens_call hword, List.cons_append, List.cons_append, operand_applied ⟨hnot, hcase⟩,
    read_eq, rule, appliedRule.eq_def, if_neg hcast, if_neg hextract, if_neg hdistinct]
  cases distinct with
  | true =>
    simp [takes, hargs, hfilter, hover]
    rfl
  | false =>
    generalize hts : (listPieces d args).flatMap d.tokens ++ .symbol ")" ::
      ((filterPieces d filter).flatMap d.tokens ++ ((overPieces d window).flatMap d.tokens ++ ts))
      = us at hargs
    have htakes : takes (.word "DISTINCT") us = (false, us) := takes_of_ne <| by
      rintro rest rfl
      simp [enclosed_distinct] at hargs
    simp [hts, htakes, hargs, hfilter, hover]
    rfl

/-- An expression is read as its tree if none of its parts takes a negation. -/
theorem reads (e : Expr) (h : ∀ p ∈ e.parts, p.isWorded d = true ∧ p.takesNegation = false) :
    Reads d e := by
  induction e using induct with
  | step e ih =>
    obtain ⟨hw, hn⟩ := h e (mem_parts_self e)
    have below : ∀ c ∈ e.children, Reads d c := fun c hc =>
      ih c hc fun p hp => h p (mem_parts_of_child hc hp)
    cases e with
    | column qualifier name => exact reads_column qualifier name
    | literal l => exact reads_literal hw
    | star => exact reads_star
    | unary op operand => exact reads_unary op (below operand (by simp [children]))
    | binary op left right =>
      exact reads_binary (below left (by simp [children])) (below right (by simp [children])) hn
    | call name args distinct filter window =>
      refine reads_call hw (fun c hc => below c ?_) (fun c hc => below c ?_)
        fun w hw c hc => below c ?_
      · simp [children, hc]
      · simp [children, Option.mem_def.mp hc]
      · simp [children, Option.mem_def.mp hw, hc]
    | extract field operand => exact reads_extract (below operand (by simp [children])) hw
    | case branches otherwise =>
      refine reads_case (fun b hb => ⟨below b.1 ?_, below b.2 ?_⟩) fun c hc => below c ?_
      · exact List.mem_append_left _ (List.mem_flatMap.mpr ⟨b, hb, by simp⟩)
      · exact List.mem_append_left _ (List.mem_flatMap.mpr ⟨b, hb, by simp⟩)
      · simp [children, Option.mem_def.mp hc]
    | inList operand list negated =>
      exact reads_inList negated (below operand (by simp [children]))
        (fun c hc => below c (by simp [children, hc])) hn
    | isNull operand negated => exact reads_isNull negated (below operand (by simp [children])) hn
    | cast operand typeName => exact reads_cast (below operand (by simp [children])) hw

/-- The text of an expression is read as its tree if none of its parts takes a negation. -/
theorem readExpression_text {e : Expr} (h : ∀ p ∈ e.parts, p.isWorded d = true)
    (hn : ∀ p ∈ e.parts, p.takesNegation = false) :
    d.readExpression (e.text d) = some (e.tree d) := by
  have hlex := (spells_pieces e h).lex
  have hread := (reads e fun p hp => ⟨h p hp, hn p hp⟩).ends ends_nil
  rw [List.append_nil, tokens] at hread
  simp [Descriptor.readExpression, text, hlex, hread]

/-- A test of a negation is read as the negation of the test. -/
theorem readExpression_isNull_not {e : Expr} (negated : Bool)
    (h : ∀ p ∈ e.parts, p.isWorded d = true) (hn : ∀ p ∈ e.parts, p.takesNegation = false) :
    d.readExpression ((isNull (unary .not e) negated).text d) =
      some (.unary .not (.isNull (e.tree d) negated)) := by
  have hparts : ∀ p ∈ (isNull (unary .not e) negated).parts, p.isWorded d = true := by
    simpa [parts, isWorded] using h
  have hlex := (spells_pieces _ hparts).lex
  have hoperand := (reads e fun p hp => ⟨h p hp, hn p hp⟩).after .not notLevel
    (.word "IS" :: ((if negated then [.word "NOT"] else []) ++ [.word "NULL"]))
    (by simp [Detached, prolongs])
  have hnull := (expression_eq hoperand).trans (continued_isNull (by decide) negated [])
  rw [continued_of_stops (ends_nil.stops.mono (by decide))] at hnull
  have hread : read (.expression 1) ((isNull (unary .not e) negated).tokens d) =
      some (.unary .not (.isNull (e.tree d) negated), []) := by
    have hopen : (unary .not e).isOpen = false := rfl
    rw [tokens_isNull, operandTokens, hopen, encloseIf, if_neg Bool.false_ne_true, tokens_not,
      List.cons_append]
    refine expression_of_stops ?_ ends_nil.stops
    rw [operand_not (by decide), hnull]
    rfl
  rw [tokens] at hread
  simp [Descriptor.readExpression, text, hlex, hread]

end Expr

open Grammar Piece

variable {d : Descriptor}

/-- Conjuncts as they are read: AND associates to the left. -/
def Tree.conjoin (first : Tree) (rest : List Tree) : Tree := rest.foldl (.binary .and) first

theorem tokens_conjunction (e : Expr) (rest : List Expr) :
    (conjunctionPieces d (e :: rest)).flatMap d.tokens =
      e.tokens d ++ rest.flatMap fun c => BinaryOp.and.token :: c.tokens d := by
  induction rest generalizing e with
  | nil => simp [conjunctionPieces, separated, Expr.tokens]
  | cons next rest ih =>
    have hnext := ih next
    simp only [conjunctionPieces, List.map_cons, separated, List.flatMap_append, List.flatMap_cons,
      Expr.tokens_around "AND" (by decide)] at hnext ⊢
    rw [hnext]
    simp [Expr.tokens, BinaryOp.token, BinaryOp.text]

/-- Every conjunct ends before the next AND, and a negation does too. -/
theorem ends_conjunct (es : List Expr) :
    Stops notLevel (es.flatMap fun c => BinaryOp.and.token :: c.tokens d) ∧
      Detached (es.flatMap fun c => BinaryOp.and.token :: c.tokens d) := by
  cases es with
  | nil => exact ⟨ends_nil.stops.mono (by decide), ends_nil.detached⟩
  | cons e rest => exact ⟨stops_operator (by decide) _, detached_operator .and _⟩

theorem continued_conjuncts {es : List Expr} (h : ∀ e ∈ es, e.Reads d) (left : Tree) :
    read (.continued 1 left) (es.flatMap fun c => BinaryOp.and.token :: c.tokens d) =
      some (left.conjoin (es.map (Expr.tree d)), []) := by
  induction es generalizing left with
  | nil => exact continued_of_stops ends_nil.stops
  | cons e rest ih =>
    obtain ⟨he, hrest⟩ := List.forall_mem_cons.mp h
    obtain ⟨hs, hd⟩ := ends_conjunct (d := d) rest
    have hright := (he.whole notLevel _ (Nat.le_refl _) hs hd).trans (continued_of_stops hs)
    have hlevel : BinaryOp.and.level + 1 = notLevel := rfl
    rw [List.flatMap_cons, List.cons_append, continued_operator (by decide), hlevel, hright,
      Option.bind_some, ih hrest]
    rfl

/-- Conjuncts with AND between them are read as such. -/
theorem readExpression_conjunction {e : Expr} {rest : List Expr}
    (h : ∀ c ∈ e :: rest, ∀ p ∈ c.parts, p.isWorded d = true)
    (hn : ∀ c ∈ e :: rest, ∀ p ∈ c.parts, p.takesNegation = false) :
    d.readExpression (d.text (conjunctionPieces d (e :: rest))) =
      some ((e.tree d).conjoin (rest.map (Expr.tree d))) := by
  have hlex := (spells_conjunction fun c hc => Expr.spells_pieces c (h c hc)).lex
  obtain ⟨he, hrest⟩ := List.forall_mem_cons.mp fun c (hc : c ∈ e :: rest) =>
    Expr.reads c fun p hp => ⟨h c hc p hp, hn c hc p hp⟩
  obtain ⟨hs, hd⟩ := ends_conjunct (d := d) rest
  have hread := he.whole 1 _ (by decide) hs hd
  rw [continued_conjuncts hrest, ← tokens_conjunction] at hread
  simp [Descriptor.readExpression, hlex, hread]

end PlanSql.Sql
