import PlanSql.Proofs.Sql.Rules

/-!
# How reading goes on

An operand ends where what follows does not prolong it, and the operators of a level end where what
follows binds less tightly. Expressions that stand by themselves have tokens after them that end
both: a parenthesis, a comma or a keyword.
-/
namespace PlanSql.Sql

/-- Tokens between parentheses. -/
def enclose (ts : List Token) : List Token := .symbol "(" :: ts ++ [.symbol ")"]

def encloseIf (b : Bool) (ts : List Token) : List Token := if b then enclose ts else ts

/-- The tokens of a list after a word and BY, if it is not empty. -/
def byTokens (word : String) (isEmpty : Bool) (ts : List Token) : List Token :=
  if isEmpty then [] else .word word :: .word "BY" :: ts

/-- The token of an operator. -/
def BinaryOp.token (op : BinaryOp) : Token :=
  match op with
  | .and | .or | .like => .word op.text
  | _ => .symbol op.text

theorem operator?_token (op : BinaryOp) : Grammar.operator? op.token = some op := by
  cases op <;> decide

namespace Grammar

variable {d : Descriptor} {level : Nat} {left t : Tree} {ts : List Token}

/-- Tokens that an operand would go on with. -/
def prolongs : Token → Bool
  | .symbol text => text = "." || text = "("
  | .string _ => true
  | .word text => text = "FILTER" || text = "OVER"
  | _ => false

/-- Tokens at which the operators of a level come to an end. -/
def stopsAt (level : Nat) (t : Token) : Bool :=
  match operator? t with
  | some op => op.level < level
  | none => testLevel < level || (t ≠ .word "IS" && t ≠ .word "NOT" && t ≠ .word "IN")

/-- What follows an operand does not belong to it. -/
def Detached (ts : List Token) : Prop := ∀ t ∈ ts.head?, prolongs t = false

/-- What follows an expression of a level does not belong to it. -/
def Stops (level : Nat) (ts : List Token) : Prop := ∀ t ∈ ts.head?, stopsAt level t = true

/-- What follows any expression. -/
structure Ends (ts : List Token) : Prop where
  detached : Detached ts
  stops : Stops 1 ts

/-- The tokens around expressions that stand by themselves. -/
def closers : List Token :=
  [.symbol ")", .symbol ",", .word "AS", .word "WHEN", .word "THEN", .word "ELSE", .word "END",
    .word "ASC", .word "DESC", .word "ORDER"]

theorem ends_nil : Ends [] := ⟨by simp [Detached], by simp [Stops]⟩

theorem ends_closer (token : Token) (h : token ∈ closers) (ts : List Token) :
    Ends (token :: ts) := by
  have hall : ∀ token ∈ closers, prolongs token = false ∧ stopsAt 1 token = true := by decide
  exact ⟨by simpa [Detached] using (hall token h).1, by simpa [Stops] using (hall token h).2⟩

theorem Stops.mono {level' : Nat} (h : Stops level ts) (hl : level ≤ level') : Stops level' ts := by
  intro t ht
  have := h t ht
  unfold stopsAt at this ⊢
  cases ho : operator? t with
  | some op =>
    simp only [ho, decide_eq_true_eq] at this ⊢
    omega
  | none =>
    simp only [ho, Bool.or_eq_true, decide_eq_true_eq] at this ⊢
    exact this.imp_left fun h => Nat.lt_of_lt_of_le h hl

theorem Detached.ne (h : Detached ts) {token : Token} (ht : prolongs token = true)
    (rest : List Token) : ts ≠ token :: rest := by
  rintro rfl
  simpa [ht] using h token rfl

theorem detached_operator (op : BinaryOp) (ts : List Token) : Detached (op.token :: ts) := by
  cases op <;> simp [Detached, prolongs, BinaryOp.token, BinaryOp.text]

theorem stops_operator {op : BinaryOp} (h : op.level < level) (ts : List Token) :
    Stops level (op.token :: ts) := by
  simp [Stops, stopsAt, operator?_token, h]

theorem takes_of_ne {token : Token} (h : ∀ rest, ts ≠ token :: rest) :
    takes token ts = (false, ts) := by
  cases ts with
  | nil => rfl
  | cons t rest =>
    have ht : t ≠ token := fun he => h rest (he ▸ rfl)
    simp [takes, ht]

theorem continued_of_stops (h : Stops level ts) :
    read (.continued level left) ts = some (left, ts) := by
  cases ts with
  | nil => rw [read_eq, rule, continuedRule]
  | cons t rest =>
    have ht : stopsAt level t = true := h t rfl
    unfold stopsAt at ht
    rw [read_eq, rule, continuedRule]
    cases ho : operator? t with
    | some op =>
      have hlt : ¬ level ≤ op.level := by simpa [ho] using ht
      simp [hlt]
    | none =>
      simp only [ho, Bool.or_eq_true, decide_eq_true_eq, Bool.and_eq_true] at ht
      rcases ht with ht | ⟨⟨his, hnot⟩, hin⟩
      · simp [ht]
      · simp [takes, his, hnot, hin]

theorem continued_operator {op : BinaryOp} (h : level ≤ op.level) (ts : List Token) :
    read (.continued level left) (op.token :: ts) =
      (read (.expression (op.level + 1)) ts).bind fun x =>
        read (.continued level (.binary op left x.1)) x.2 := by
  rw [read_eq, rule, continuedRule]
  simp [operator?_token, h]

theorem continued_isNull (h : level ≤ testLevel) (negated : Bool) (ts : List Token) :
    read (.continued level left) (.word "IS" :: ((if negated then [.word "NOT"] else [])
      ++ .word "NULL" :: ts)) = read (.continued level (.isNull left negated)) ts := by
  have ho : operator? (.word "IS") = none := by decide
  rw [read_eq, rule, continuedRule]
  cases negated <;> simp [ho, Nat.not_lt.mpr h, takes, skip]

theorem continued_inList (h : level ≤ testLevel) (negated : Bool) (ts : List Token) :
    read (.continued level left) ((if negated then [.word "NOT"] else [])
      ++ .word "IN" :: .symbol "(" :: ts) = (read .enclosed ts).bind fun x =>
        read (.continued level (.inList left x.1 negated)) x.2 := by
  have hnot : operator? (.word "NOT") = none := by decide
  have hin : operator? (.word "IN") = none := by decide
  cases negated
  · simp only [Bool.false_eq_true, if_false, List.nil_append]
    rw [read_eq, rule, continuedRule]
    simp [hin, Nat.not_lt.mpr h, takes, skip]
  · simp only [if_true, List.cons_append, List.nil_append]
    rw [read_eq, rule, continuedRule]
    simp [hnot, Nat.not_lt.mpr h, takes, skip]

theorem leaf_qualified (qualifier name : String) (ts : List Token) :
    leaf (.identifier qualifier :: .symbol "." :: .identifier name :: ts) =
      some (.column (some qualifier) name, ts) := rfl

theorem leaf_identifier (name : String) (h : ∀ rest, ts ≠ .symbol "." :: rest) :
    leaf (.identifier name :: ts) = some (.column none name, ts) := by
  have hcolumn : columnAfter name ts = (.column none name, ts) := by
    rw [columnAfter, takes_of_ne h]
  exact congrArg some hcolumn

theorem leaf_number (text : String) (ts : List Token) :
    leaf (.number text :: ts) = some (.literal [.number text], ts) := rfl

theorem leaf_string (value : String) (ts : List Token) :
    leaf (.string value :: ts) = some (.literal [.string value], ts) := rfl

theorem leaf_star (ts : List Token) : leaf (.symbol "*" :: ts) = some (.star, ts) := rfl

theorem leaf_symbol {text : String} (h : text ≠ "*") (ts : List Token) :
    leaf (.symbol text :: ts) = none :=
  if_neg h

theorem leaf_temporal {keyword : String} (h : keyword = "DATE" ∨ keyword = "TIMESTAMP")
    (value : String) (ts : List Token) : leaf (.word keyword :: .string value :: ts) =
      some (.literal [.word keyword, .string value], ts) :=
  if_pos h

theorem leaf_word {text : String} (h : text = "NULL" ∨ text = "TRUE" ∨ text = "FALSE")
    (hs : ∀ value rest, ts ≠ .string value :: rest) :
    leaf (.word text :: ts) = some (.literal [.word text], ts) := by
  cases ts with
  | nil => exact if_pos h
  | cons t rest =>
    cases t with
    | string value => exact absurd rfl (hs value rest)
    | _ => exact if_pos h

/-- Any other word is no constant. -/
theorem leaf_keyword {text : String}
    (h : text ∉ ["DATE", "TIMESTAMP", "NULL", "TRUE", "FALSE"]) (ts : List Token) :
    leaf (.word text :: ts) = none := by
  simp only [List.mem_cons, List.not_mem_nil, or_false, not_or] at h
  obtain ⟨hdate, htimestamp, hrest⟩ := h
  have hconst : ¬ (text = "NULL" ∨ text = "TRUE" ∨ text = "FALSE") := by simpa using hrest
  cases ts with
  | nil => exact if_neg hconst
  | cons t rest =>
    cases t with
    | string value => exact if_neg (by simp [hdate, htimestamp])
    | _ => exact if_neg hconst

/-- A leaf is an operand, if it is not the name of a function. -/
theorem operand_of_leaf {x : Tree × List Token} (h : leaf ts = some x)
    (hcall : ∀ name rest, ts ≠ .word name :: .symbol "(" :: rest) :
    read (.operand level) ts = some x := by
  cases ts with
  | nil => simp [leaf] at h
  | cons t rest =>
    cases t with
    | symbol text =>
      obtain rfl : text = "*" := by
        by_contra ht
        simp [leaf_symbol ht] at h
      rw [read_eq, rule, operandRule]
      simpa using h
    | word text =>
      have hopens : takes (.symbol "(") rest = (false, rest) :=
        takes_of_ne fun rest' he => hcall text rest' (he ▸ rfl)
      have hkeyword : text ≠ "NOT" ∧ text ≠ "CASE" := by
        constructor <;> rintro rfl <;> simp [leaf_keyword] at h
      rw [read_eq, rule, operandRule]
      simpa [hkeyword, hopens] using h
    | identifier | string | number | comment =>
      rw [read_eq, rule]
      exact h

theorem operand_not (h : level ≤ notLevel) (ts : List Token) :
    read (.operand level) (.word "NOT" :: ts) = (read (.expression notLevel) ts).bind fun x =>
      some (.unary .not x.1, x.2) := by
  rw [read_eq, rule, operandRule]
  simp [h]

theorem operand_minus (ts : List Token) :
    read (.operand level) (.symbol "-" :: ts) = (read (.operand minusLevel) ts).bind fun x =>
      some (.unary .minus x.1, x.2) := by
  rw [read_eq, rule, operandRule]
  simp

theorem operand_enclose {inner : List Token}
    (h : read (.expression 1) (inner ++ .symbol ")" :: ts) = some (t, .symbol ")" :: ts)) :
    read (.operand level) (enclose inner ++ ts) = some (t, ts) := by
  rw [enclose, List.cons_append, List.cons_append, read_eq, rule, operandRule]
  simp [h, skip]

theorem operand_applied {name : String} (h : name ≠ "NOT" ∧ name ≠ "CASE") (ts : List Token) :
    read (.operand level) (.word name :: .symbol "(" :: ts) = read (.applied name) ts := by
  rw [read_eq, rule, operandRule]
  simp [h, takes]

theorem list_close (ts : List Token) : read .list (.symbol ")" :: ts) = none := by
  have ho : read (.operand 1) (.symbol ")" :: ts) = none := by
    rw [read_eq, rule, operandRule]
    simp [leaf_symbol]
  rw [read_eq, rule, listRule, read_eq, rule, expressionRule, ho]
  rfl

theorem enclosed_distinct (ts : List Token) : read .enclosed (.word "DISTINCT" :: ts) = none := by
  have ho : read (.operand 1) (.word "DISTINCT" :: ts) = none := by
    rw [read_eq, rule, operandRule]
    cases hopens : (takes (.symbol "(") ts).1
    · simp [hopens, leaf_keyword]
    · simp [hopens, read_eq, rule, appliedRule]
  have hl : read .list (.word "DISTINCT" :: ts) = none := by
    rw [read_eq, rule, listRule, read_eq, rule, expressionRule, ho]
    rfl
  rw [read_eq, rule, enclosedRule]
  simp [takes, hl]

theorem byClause_byTokens {α : Type} {word : String} {part : Part (List α)} {isEmpty : Bool}
    {items : List α} {us : List Token} (hnone : isEmpty = true → items = [])
    (hread : isEmpty = false → read part (us ++ ts) = some (items, ts))
    (hw : takes (.word word) ts = (false, ts)) :
    byClause read word part (byTokens word isEmpty us ++ ts) = some (items, ts) := by
  cases isEmpty with
  | true => simp [byTokens, byClause, hw, hnone rfl]
  | false => simp [byTokens, byClause, takes, skip, hread rfl]

theorem expression_eq {t : Tree} {ts' : List Token} (h : read (.operand level) ts = some (t, ts')) :
    read (.expression level) ts = read (.continued level t) ts' := by
  rw [read_eq, rule, expressionRule, h]
  rfl

theorem expression_of_stops {t : Tree} {ts' : List Token}
    (h : read (.operand level) ts = some (t, ts')) (hs : Stops level ts') :
    read (.expression level) ts = some (t, ts') := by
  rw [expression_eq h, continued_of_stops hs]

theorem expression_binary {op : BinaryOp} {us vs : List Token} {right : Tree}
    (hl : read (.operand level) (us ++ op.token :: (vs ++ ts)) =
      some (left, op.token :: (vs ++ ts)))
    (hr : read (.operand (op.level + 1)) (vs ++ ts) = some (right, ts)) (hlevel : level ≤ op.level)
    (hs : Stops (op.level + 1) ts) : read (.expression level) (us ++ op.token :: (vs ++ ts)) =
      read (.continued level (.binary op left right)) ts := by
  rw [expression_eq hl, continued_operator hlevel, expression_of_stops hr hs]
  rfl

end Grammar

end PlanSql.Sql
