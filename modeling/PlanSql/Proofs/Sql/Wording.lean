import PlanSql.Proofs.Sql.Grammar
import PlanSql.Proofs.Sql.Spelling
import PlanSql.Proofs.Sql.Statements
import PlanSql.Proofs.Text.Digits

/-!
# The words of a statement

Names of functions, fields and types are words without a sign, and numbers are finite. The text of a
statement of which that is true has the tokens of its pieces and no others.
-/
namespace PlanSql

namespace Binary64

theorem digitText_all (d : Decimal) : ∀ c ∈ d.digitText, c.isDigit = true :=
  fun _ hc => Nat.isDigit_of_mem_toDigits (by decide) (by decide) hc

theorem positional_all (d : Decimal) : ∀ c ∈ d.positional, c.isDigit = true ∨ c = '.' := by
  have hd := digitText_all d
  have hz : ∀ n, ∀ c ∈ List.replicate n '0', c.isDigit = true := by
    intro n c hc
    rw [List.eq_of_mem_replicate hc]
    decide
  intro c hc
  unfold Decimal.positional at hc
  split at hc
  · split at hc
    · obtain rfl := List.mem_singleton.mp hc
      exact .inl (by decide)
    · rcases List.mem_append.mp hc with hc | hc
      · exact .inl (hd c hc)
      · exact .inl (hz _ c hc)
  · simp only at hc
    split at hc
    · rcases List.mem_append.mp hc with hc | hc
      · exact .inl (hd c (List.mem_of_mem_take hc))
      · rcases List.mem_cons.mp hc with rfl | hc
        · exact .inr rfl
        · exact .inl (hd c (List.mem_of_mem_drop hc))
    · simp only [List.cons_append, List.mem_cons, List.mem_append] at hc
      rcases hc with rfl | rfl | hc | hc
      · exact .inl (by decide)
      · exact .inr rfl
      · exact .inl (hz _ c hc)
      · exact .inl (hd c hc)

theorem positional_head (d : Decimal) : ∃ c cs, d.positional = c :: cs ∧ c.isDigit = true := by
  have hne : d.digitText ≠ [] := Nat.toDigits_ne_nil
  obtain ⟨c, cs, hc⟩ := List.exists_cons_of_ne_nil hne
  have hd : c.isDigit = true := digitText_all d c (by simp [hc])
  unfold Decimal.positional
  split
  · split
    · exact ⟨'0', [], rfl, by decide⟩
    · exact ⟨c, _, by rw [hc]; rfl, hd⟩
  · simp only
    split
    · next hlt =>
      obtain ⟨k, hk⟩ : ∃ k, d.digitText.length - (-d.exponent).toNat = k + 1 :=
        Nat.exists_eq_add_one_of_ne_zero (by omega)
      exact ⟨c, _, by rw [hk, hc]; rfl, hd⟩
    · exact ⟨'0', _, rfl, by decide⟩

end Binary64

namespace Sql

theorem isNumeral_positional (x : Binary64.Decimal) : isNumeral x.positional = true := by
  have hall := Binary64.positional_all x
  obtain ⟨c, cs, hc, hd⟩ := Binary64.positional_head x
  rw [hc] at hall ⊢
  simp only [isNumeral, hd, Bool.true_and, List.all_eq_true]
  intro c' hc'
  rcases hall c' (List.mem_cons_of_mem _ hc') with h | rfl
  · simp [isNumberChar, isWordChar, Char.isAlphanum, h]
  · decide

theorem isNumeral_append {cs cs' : List Char} (h : isNumeral cs = true)
    (h' : cs'.all isNumberChar = true) : isNumeral (cs ++ cs') = true := by
  cases cs with
  | nil => simp [isNumeral] at h
  | cons c cs => simp_all [isNumeral]

theorem isNumeral_nat (n : Nat) : isNumeral (Nat.toDigits 10 n) = true := by
  have hall : ∀ c ∈ Nat.toDigits 10 n, c.isDigit = true := fun _ hc =>
    Nat.isDigit_of_mem_toDigits (by decide) (by decide) hc
  obtain ⟨c, cs, hc⟩ := List.exists_cons_of_ne_nil (Nat.toDigits_ne_nil (b := 10) (n := n))
  rw [hc] at hall ⊢
  simp only [isNumeral, hall c List.mem_cons_self, Bool.true_and, List.all_eq_true]
  intro c' hc'
  simp [isNumberChar, isWordChar, Char.isAlphanum, hall c' (List.mem_cons_of_mem _ hc')]

theorem isBareText_signed (negative : Bool) {cs : List Char} (h : isNumeral cs = true) :
    isBareText (Binary64.signed negative cs) = true := by
  have hall := all_of_isNumeral h
  cases negative with
  | true => simpa [isBareText, Binary64.signed] using hall
  | false => exact isBareText_of_isPlainText (by simpa [isPlainText, Binary64.signed] using hall)

/-- A number has one token, after a minus sign if it is negative. -/
theorem tokens_signed (d : Descriptor) (negative : Bool) {cs : List Char}
    (h : isNumeral cs = true) : d.tokens (.word (Binary64.signed negative cs)) =
      (if negative then [.symbol "-"] else []) ++ [.number (String.ofList cs)] := by
  have hnumber := Descriptor.lexes_numeral (d := d) h
  refine Descriptor.tokens_word ?_
  cases negative with
  | false => simpa [Binary64.signed] using hnumber
  | true =>
    have hhead : ∀ c ∈ cs.head?, signPair? '-' c = none := fun c hc =>
      signPair?_bare '-' (List.all_eq_true.mp (all_of_isNumeral h) c (List.mem_of_mem_head? hc))
    simpa [Binary64.signed] using hnumber.afterSign (c := '-') (by decide) hhead

theorem floatText_eq {x : Binary64} (h : x.isFinite = true) :
    ∃ cs, isNumeral cs = true ∧ floatText x = Binary64.signed x.negative cs := by
  have hfin : x.magnitude < Binary64.infiniteMagnitude := by simpa [Binary64.isFinite] using h
  have hn : x.isNaN = false := by simp [Binary64.isNaN]; omega
  have hi : x.isInfinite = false := by simp [Binary64.isInfinite]; omega
  have hplain : x.plain = Binary64.signed x.negative x.shortest.positional := by
    simp [Binary64.plain, hn, hi]
  have hnum := isNumeral_positional x.shortest
  unfold floatText
  rw [hplain]
  split
  · exact ⟨_, hnum, rfl⟩
  · refine ⟨x.shortest.positional ++ ['.', '0'], isNumeral_append hnum (by decide), ?_⟩
    unfold Binary64.signed
    split <;> simp [String.ext_iff]

theorem isPlainText_nat (n : Nat) : isPlainText (toString n) = true := by
  rw [Nat.toString_eq_ofList_toDigits, isPlainText, String.toList_ofList]
  exact all_of_isNumeral (isNumeral_nat n)

namespace Expr

/-- The words of a node are such as stand for what they do wherever an expression is read. -/
def isWorded (d : Descriptor) : Expr → Bool
  | .literal (.value (.float x)) => x.isFinite
  | .literal (.number text) => isNumeral text.toList
  | .call name _ _ _ _ => isWordText name && !Grammar.reserved.contains name
  | .extract field _ => isWordText field
  | .cast _ typeName =>
    isPlainText typeName && Grammar.isBalanced 0 (d.tokens (.word typeName))
  | _ => true

variable {d : Descriptor}

theorem isWorded_call {name : String} {args : List Expr} {distinct : Bool} {filter : Option Expr}
    {window : Option (Over Expr)} (h : (call name args distinct filter window).isWorded d = true) :
    isPlainText name = true ∧ isWordText name = true ∧ name ∉ Grammar.reserved := by
  obtain ⟨hw, hr⟩ : isWordText name = true ∧ name ∉ Grammar.reserved := by
    simpa [isWorded] using h
  exact ⟨isPlainText_of_isWordText hw, hw, hr⟩

theorem isWorded_cast {operand : Expr} {typeName : String}
    (h : (cast operand typeName).isWorded d = true) :
    isPlainText typeName = true ∧ Grammar.isBalanced 0 (d.tokens (.word typeName)) = true := by
  simpa [isWorded] using h

open Piece

theorem listPieces_eq (d : Descriptor) (es : List Expr) :
    listPieces d es = separated comma (es.map (pieces d)) := by
  induction es with
  | nil => rfl
  | cons e rest ih =>
    cases rest with
    | nil => rfl
    | cons next rest => simp [listPieces, separated, ih]

theorem keyPieces_eq (d : Descriptor) (keys : List (SortKey Expr)) :
    keyPieces d keys =
      separated comma (keys.map fun k => SortKey.directed k.descending (k.expr.pieces d)) := by
  induction keys with
  | nil => rfl
  | cons k rest ih =>
    cases rest with
    | nil => rfl
    | cons next rest => simp [keyPieces, separated, ih]

theorem spells_literal {l : Literal} (h : (Expr.literal l).isWorded d = true) :
    d.Spells (l.pieces d) := by
  have temporal : ∀ {keyword text : String}, isBareText keyword = true →
      d.Spells (temporalPieces d keyword text) := by
    intro keyword text hk
    unfold temporalPieces
    split
    · exact (d.spells_string text).keyword keyword hk
    · exact d.spells_string text
  cases l with
  | number text => exact d.spells_word _ (isBareText_of_isPlainText (all_of_isNumeral h))
  | value v =>
    cases v with
    | null => exact d.spells_word _ (by decide)
    | bool b => cases b <;> exact d.spells_word _ (by decide)
    | int i =>
      refine d.spells_word _ ?_
      rw [toString_int]
      exact isBareText_signed _ (isNumeral_nat _)
    | float x =>
      obtain ⟨cs, hcs, hx⟩ := floatText_eq h
      refine d.spells_word _ ?_
      rw [hx]
      exact isBareText_signed _ hcs
    | text s => exact d.spells_string s
    | date t => exact temporal (by decide)
    | timestamp t => exact temporal (by decide)

theorem spells_operator (op : BinaryOp) : d.Spells [operatorPiece op] := by
  cases op with
  | and | or | like => exact d.spells_word _ (by decide)
  | notEq => exact d.spells_pair '<' '>' (by decide) rfl
  | ltEq => exact d.spells_pair '<' '=' (by decide) rfl
  | gtEq => exact d.spells_pair '>' '=' (by decide) rfl
  | plus => exact d.spells_sign (c := '+') (by decide)
  | minus => exact d.spells_sign (c := '-') (by decide)
  | multiply => exact d.spells_sign (c := '*') (by decide)
  | divide => exact d.spells_sign (c := '/') (by decide)
  | modulo => exact d.spells_sign (c := '%') (by decide)
  | eq => exact d.spells_sign (c := '=') (by decide)
  | lt => exact d.spells_sign (c := '<') (by decide)
  | gt => exact d.spells_sign (c := '>') (by decide)

theorem head_ne_minus {name : String} (h : isPlainText name = true) :
    ∀ c ∈ name.toList.head?, c ≠ '-' := by
  intro c hc
  have hb : isBareChar c = true := List.all_eq_true.mp h c (List.mem_of_mem_head? hc)
  exact ne_of_isBareChar hb (by decide)

/-- What a minus sign stands before does not begin with another. -/
theorem head_operand_ne_minus {e : Expr} (h : e.isWorded d = true) :
    ∀ c ∈ (d.text (parensIf (!e.standsAfter .minus) (e.pieces d))).toList.head?, c ≠ '-' := by
  have hm : d.quote.mark ≠ '-' := by cases d.quote <;> decide
  cases hs : e.standsAfter .minus with
  | false =>
    simp [parensIf, parens, Descriptor.toList_text, Descriptor.pieceText]
  | true =>
    simp only [parensIf, Bool.not_true, Bool.false_eq_true, if_false, Descriptor.toList_text]
    cases e with
    | column q n =>
      cases q <;> simp [pieces, Descriptor.pieceText, Descriptor.identifierText, hm]
    | call name args distinct filter window =>
      have hn := head_ne_minus (isWorded_call h).1
      cases hc : name.toList <;> simp_all [pieces, parens, Descriptor.pieceText]
    | extract field operand | cast operand typeName =>
      simp [pieces, Descriptor.pieceText]
    | _ => simp [standsAfter, isAtomic, isLiteral] at hs

theorem spells_over {w : Over Expr} {ps : List Piece} (hp : d.Spells ps)
    (hparts : d.Spells (listPieces d w.partitionBy)) (hkeys : d.Spells (keyPieces d w.orderBy)) :
    d.Spells (ps ++ overPieces d (some w)) := by
  obtain ⟨partitionBy, orderBy⟩ := w
  have hpartition : d.Spells
      (.word "PARTITION" :: .space :: .word "BY" :: .space :: listPieces d partitionBy) :=
    (hparts.keyword _ (by decide)).keyword _ (by decide)
  have horder : d.Spells
      (.word "ORDER" :: .space :: .word "BY" :: .space :: keyPieces d orderBy) :=
    (hkeys.keyword _ (by decide)).keyword _ (by decide)
  refine hp.glue (g := .space) rfl (.keyword _ (by decide) (.parens ?_))
  cases hpe : partitionBy.isEmpty <;> cases hoe : orderBy.isEmpty
  · simpa using hpartition.glue (g := .space) rfl horder
  · simpa using hpartition
  · simpa using horder
  · exact d.spells_nil

theorem spells_branches {branches : List (Expr × Expr)} {ps : List Piece} (hp : d.Spells ps)
    (hb : ∀ b ∈ branches, d.Spells (b.1.pieces d) ∧ d.Spells (b.2.pieces d)) :
    d.Spells (ps ++ branchPieces d branches) := by
  induction branches generalizing ps with
  | nil => simpa [branchPieces] using hp
  | cons b rest ih =>
    obtain ⟨⟨hc, hr⟩, hrest⟩ := List.forall_mem_cons.mp hb
    have hwhen := hp.around "WHEN" (by decide) hc
    simpa [branchPieces] using ih (hwhen.around "THEN" (by decide) hr) hrest

theorem spells_negation (negated : Bool) {ps : List Piece} (hp : d.Spells ps) :
    d.Spells (negation negated ++ ps) := by
  cases negated
  · exact hp
  · exact hp.keyword _ (by decide)

theorem spells_directed (descending : Bool) {ps : List Piece} (hp : d.Spells ps) :
    d.Spells (SortKey.directed descending ps) := by
  refine hp.glue (g := .space) rfl (d.spells_word _ ?_)
  cases descending <;> decide

/-- The text of an expression has the tokens of its pieces. -/
theorem spells_pieces (e : Expr) (h : ∀ p ∈ e.parts, p.isWorded d = true) :
    d.Spells (e.pieces d) := by
  induction e using induct with
  | step e ih =>
    have own : e.isWorded d = true := h e (mem_parts_self e)
    have below : ∀ c ∈ e.children, d.Spells (c.pieces d) := fun c hc =>
      ih c hc fun p hp => h p (mem_parts_of_child hc hp)
    have list : ∀ es : List Expr, (∀ c ∈ es, c ∈ e.children) → d.Spells (listPieces d es) := by
      intro es hes
      rw [listPieces_eq]
      refine .listed ?_
      simpa using fun c hc => below c (hes c hc)
    cases e with
    | column q n =>
      cases q with
      | none => exact d.spells_identifier n
      | some q => exact d.spells_qualified q n
    | literal l => exact spells_literal own
    | star => exact d.spells_sign (c := '*') (by decide)
    | unary op operand =>
      have ho := (below operand (by simp [children])).parensIf (!operand.standsAfter op)
      cases op with
      | not => exact ho.keyword _ (by decide)
      | minus =>
        refine ho.minus (head_operand_ne_minus (h operand ?_))
        exact mem_parts_of_child (by simp [children]) (mem_parts_self operand)
    | binary op left right =>
      have hl := (below left (by simp [children])).parensIf left.isOpen
      have hr := (below right (by simp [children])).parensIf right.isOpen
      refine Descriptor.Spells.parensIf _ ?_
      have ho := (spells_operator (d := d) op).glue (g := .space) rfl hr
      simpa using hl.glue (g := .space) rfl ho
    | call name args distinct filter window =>
      have hargs := list args fun c hc => by simp [children, hc]
      have hcall : d.Spells (.word name :: parens
          ((if distinct then [Piece.word "DISTINCT", .space] else []) ++ listPieces d args)) := by
        refine .applied (isBareText_of_isPlainText (isWorded_call own).1) ?_
        cases distinct
        · exact hargs
        · exact hargs.keyword _ (by decide)
      have hfilter : d.Spells (Piece.word name :: parens
          ((if distinct then [Piece.word "DISTINCT", .space] else []) ++ listPieces d args)
            ++ filterPieces d filter) := by
        cases filter with
        | none => simpa [filterPieces] using hcall
        | some condition =>
          have hc := below condition (by simp [children])
          have hwhere := (hc.keyword "WHERE" (by decide)).parens
          exact hcall.glue (g := .space) rfl (hwhere.keyword _ (by decide))
      cases window with
      | none => simpa [pieces, overPieces] using hfilter
      | some w =>
        refine spells_over hfilter (list w.partitionBy fun c hc => ?_) ?_
        · simp [children, Over.keys, hc]
        · rw [keyPieces_eq]
          refine .listed ?_
          simp only [List.forall_mem_map]
          intro k hk
          have hmem : k.expr ∈ (call name args distinct filter (some w)).children := by
            simp only [children, Over.keys, List.mem_append, List.mem_flatMap, List.mem_map]
            exact .inr ⟨w, by simp, .inr ⟨k, hk, rfl⟩⟩
          exact spells_directed k.descending (below k.expr hmem)
    | extract field operand =>
      have ho := below operand (by simp [children])
      have hfield : isPlainText field = true := isPlainText_of_isWordText own
      have hf := (d.spells_word _ (isBareText_of_isPlainText hfield)).around "FROM"
        (by decide) ho
      exact .applied (by decide) hf
    | case branches otherwise =>
      have hbranches : d.Spells ([.word "CASE"] ++ branchPieces d branches) := by
        refine spells_branches (d.spells_word _ (by decide)) fun b hb => ?_
        have hmem : ∀ e ∈ [b.1, b.2], e ∈ (case branches otherwise).children := fun e he =>
          List.mem_append_left _ (List.mem_flatMap.mpr ⟨b, hb, he⟩)
        exact ⟨below b.1 (hmem _ (by simp)), below b.2 (hmem _ (by simp))⟩
      have helse : d.Spells ([.word "CASE"] ++ branchPieces d branches ++ elsePieces d otherwise) :=
          by
        cases otherwise with
        | none => simpa [elsePieces] using hbranches
        | some e =>
          have he := hbranches.around "ELSE" (by decide) (below e (by simp [children]))
          simpa [elsePieces] using he
      exact helse.glue (g := .space) rfl (d.spells_word _ (by decide))
    | inList operand list' negated =>
      have ho := (below operand (by simp [children])).parensIf operand.isOpen
      have hin := (list list' fun c hc => by simp [children, hc]).parens.keyword "IN"
        (by decide)
      simpa [pieces] using ho.glue (g := .space) rfl (spells_negation negated hin)
    | isNull operand negated =>
      have ho := (below operand (by simp [children])).parensIf operand.isOpen
      have hnull := spells_negation negated (d.spells_word "NULL" (by decide))
      simpa [pieces] using ho.around "IS" (by decide) hnull
    | cast operand typeName =>
      have ho := below operand (by simp [children])
      have htype := d.spells_word _ (isBareText_of_isPlainText (isWorded_cast own).1)
      have hc := ho.around "AS" (by decide) htype
      exact .applied (by decide) hc

end Expr

variable {d : Dialect}

theorem spells_conjunction {d : Descriptor} {es : List Expr}
    (h : ∀ e ∈ es, d.Spells (e.pieces d)) : d.Spells (conjunctionPieces d es) := by
  refine .separated (fun hp hq => hp.around _ (by decide) hq) ?_
  simpa using h

theorem spells_list {d : Descriptor} {es : List Expr} (h : ∀ e ∈ es, d.Spells (e.pieces d)) :
    d.Spells (Expr.listPieces d es) := by
  rw [Expr.listPieces_eq]
  refine .listed ?_
  simpa using h

theorem spells_keys {d : Descriptor} {ks : List (SortKey Expr)}
    (h : ∀ k ∈ ks, d.Spells (k.expr.pieces d)) : d.Spells (Expr.keyPieces d ks) := by
  rw [Expr.keyPieces_eq]
  refine .listed ?_
  simpa using fun k hk => Expr.spells_directed k.descending (h k hk)

/-- A clause after other pieces. -/
theorem spells_clause {d : Descriptor} {ps content : List Piece} (hp : d.Spells ps)
    (keywords : List String) (hk : ∀ k ∈ keywords, isBareText k = true) (hc : d.Spells content) :
    d.Spells (ps ++ clausePieces keywords content) := by
  have hwords : d.Spells (Piece.separated [.space] (keywords.map fun k => [.word k])) := by
    refine .separated (fun hp hq => ?_) ?_
    · simpa using hp.glue (g := .space) rfl hq
    · simpa using fun k hm => d.spells_word k (hk k hm)
  have h := hp.glue (g := .space) rfl (hwords.glue (g := .space) rfl hc)
  simpa [clausePieces] using h

theorem spells_clauseUnless {d : Descriptor} {ps content : List Piece} (hp : d.Spells ps)
    (isEmpty : Bool) (keywords : List String) (hk : ∀ k ∈ keywords, isBareText k = true)
    (hc : d.Spells content) : d.Spells (ps ++ clauseUnless isEmpty keywords content) := by
  cases isEmpty
  · exact spells_clause hp keywords hk hc
  · simpa [clauseUnless] using hp

theorem spells_count {d : Descriptor} (n : Nat) : d.Spells (countPiece n) :=
  d.spells_word _ (isBareText_of_isPlainText (isPlainText_nat n))

theorem spells_limit {ps : List Piece} (hp : d.descriptor.Spells ps) (limit : Option Nat)
    (offset : Nat) : d.descriptor.Spells (ps ++ limitPieces d.descriptor limit offset) := by
  have limited : ∀ n, d.descriptor.Spells (ps ++ clausePieces ["LIMIT"] (countPiece n)) := fun n =>
    spells_clause hp _ (by decide) (spells_count n)
  by_cases ho : offset = 0
  · cases limit with
    | none => simpa [limitPieces, ho] using hp
    | some n => simpa [limitPieces, ho] using limited n
  · have skipped : ∀ {ps : List Piece}, d.descriptor.Spells ps →
        d.descriptor.Spells (ps ++ clausePieces ["OFFSET"] (countPiece offset)) := fun hp =>
      spells_clause hp _ (by decide) (spells_count offset)
    cases limit with
    | some n => simpa [limitPieces, ho] using skipped (limited n)
    | none =>
      cases hs : d.descriptor.offsetWithoutLimit with
      | bare => simpa [limitPieces, ho, hs] using skipped hp
      | limitSentinel all =>
        have ha : isBareText all = true := by
          cases d <;> simp [Dialect.descriptor] at hs <;> subst hs <;> decide
        have h := spells_clause hp ["LIMIT"] (by decide) (d.descriptor.spells_word all ha)
        simpa [limitPieces, ho, hs] using skipped h

theorem spells_alias {d : Descriptor} {ps : List Piece} (hp : d.Spells ps)
    (aliasName : Option String) : d.Spells (ps ++ aliasPieces aliasName) := by
  cases aliasName with
  | none => simpa [aliasPieces] using hp
  | some name => simpa [aliasPieces] using hp.around _ (by decide) (d.spells_identifier name)

/-- A statement around a source, of whose clauses the expressions are worded. -/
theorem spells_around {F : Type} {s : SelectOver F} {source : List Piece}
    (hs : ∀ e ∈ s.expressions, ∀ p ∈ e.parts, p.isWorded d.descriptor = true)
    (hsource : d.descriptor.Spells source) :
    d.descriptor.Spells (s.piecesAround d.descriptor source) := by
  obtain ⟨hpr, hse, hgr, hha, hqu, hor⟩ := SelectOver.forall_mem_expressions.mp fun e he =>
    Expr.spells_pieces (d := d.descriptor) e (hs e he)
  have hprojection : d.descriptor.Spells (projectionPieces d.descriptor s.projection) := by
    cases hp : s.projection with
    | none => exact d.descriptor.spells_sign (c := '*') (by decide)
    | some items =>
      rw [hp] at hpr
      refine .listed ?_
      simp only [List.forall_mem_map]
      exact fun item hi => spells_alias (hpr item hi) item.aliasName
  have hselect : d.descriptor.Spells (.word "SELECT" :: .space ::
      ((if s.distinct then [Piece.word "DISTINCT", .space] else [])
        ++ projectionPieces d.descriptor s.projection)) := by
    refine .keyword _ (by decide) ?_
    cases s.distinct
    · exact hprojection
    · exact hprojection.keyword _ (by decide)
  have hfrom := spells_clause hselect ["FROM"] (by decide) hsource
  have hwhere := spells_clauseUnless hfrom s.selection.isEmpty ["WHERE"]
    (by decide) (spells_conjunction hse)
  have hgroup := spells_clauseUnless hwhere s.groupBy.isEmpty ["GROUP", "BY"]
    (by decide) (spells_list hgr)
  have hhaving := spells_clauseUnless hgroup s.having.isEmpty ["HAVING"]
    (by decide) (spells_conjunction hha)
  have hqualify := spells_clauseUnless hhaving s.qualify.isEmpty ["QUALIFY"]
    (by decide) (spells_conjunction hqu)
  have horder := spells_clauseUnless hqualify s.orderBy.isEmpty ["ORDER", "BY"]
    (by decide) (spells_keys hor)
  exact spells_limit horder s.limit s.offset

/-- The text of a source has the tokens of its pieces. -/
theorem FromItem.spells_pieces : ∀ source : FromItem,
    (∀ e ∈ source.expressions, ∀ p ∈ e.parts, p.isWorded d.descriptor = true) →
    d.descriptor.Spells (source.pieces d.descriptor)
  | .table name aliasName, _ => by
    simpa [pieces] using spells_alias (d.descriptor.spells_identifier name) aliasName
  | .derived s aliasName, h => by
    obtain ⟨hs, hsource⟩ := List.forall_mem_append.mp h
    exact spells_alias (spells_around hs (spells_pieces s.source hsource)).parens (some aliasName)
  | .join left right op on, h => by
    simp only [expressions, List.forall_mem_append] at h
    have hleft := spells_pieces left h.1.1
    have hjoin := spells_clause hleft op.keywords (by cases op <;> decide)
      (spells_pieces right h.1.2)
    exact spells_clauseUnless hjoin _ _ (by decide)
      (spells_conjunction fun e he => Expr.spells_pieces e (h.2 e he))

theorem Select.spells_pieces {s : Select}
    (h : ∀ e ∈ s.allExpressions, ∀ p ∈ e.parts, p.isWorded d.descriptor = true) :
    d.descriptor.Spells (Select.pieces d.descriptor s) := by
  obtain ⟨hs, hsource⟩ := List.forall_mem_append.mp h
  exact spells_around hs (FromItem.spells_pieces s.source hsource)

end Sql

end PlanSql
