import PlanSql.Json.Reader
import PlanSql.Json.Text
import PlanSql.Proofs.Text.Digits

/-!
# Numbers in JSON text

What follows a number has no part in reading it, as long as it cannot be taken for more of the
number. Whole numbers of 64 bits read back from their text; whether a binary number does is a matter
of its digits alone.
-/
namespace PlanSql.Json

/-- Text that a number before it does not run into. -/
def EndsNumber (rest : List Char) : Prop :=
  ∀ c ∈ rest.head?, c.isDigit = false ∧ c ≠ '.' ∧ c ≠ 'e' ∧ c ≠ 'E'

/-- The digits of an exponent after its sign. -/
def exponentOf (negative : Bool) (cs : List Char) : Option (Int × List Char) :=
  if (cs.takeWhile Char.isDigit).isEmpty then none
  else
    let e : Int := Text.digitsValue (cs.takeWhile Char.isDigit)
    some (if negative then -e else e, cs.dropWhile Char.isDigit)

/-- The exponent of a numeral whose digits have been read. -/
def numeralWith (negative : Bool) (whole fraction cs : List Char) :
    Option ((Numeral × Bool) × List Char) :=
  match cs with
  | 'e' :: rest | 'E' :: rest => do
    let (e, cs) ← Numeral.readExponent rest
    some ((⟨negative, whole, fraction, e⟩, false), cs)
  | cs => some ((⟨negative, whole, fraction, 0⟩, fraction.isEmpty), cs)

/-- A numeral after its sign. -/
def numeralOf (negative : Bool) (cs : List Char) : Option ((Numeral × Bool) × List Char) :=
  let whole := cs.takeWhile Char.isDigit
  if whole.isEmpty || (whole.head? == some '0' && 1 < whole.length) then none
  else do
    let (fraction, cs) ← readFraction (cs.dropWhile Char.isDigit)
    numeralWith negative whole fraction cs

theorem readExponent_digits {c : Char} {cs : List Char} (hp : c ≠ '+') (hm : c ≠ '-') :
    Numeral.readExponent (c :: cs) = exponentOf false (c :: cs) := by
  unfold Numeral.readExponent
  split
  next negative cs' heq =>
  split at heq <;> simp_all [exponentOf]

theorem readNumeral_minus (cs : List Char) : readNumeral ('-' :: cs) = numeralOf true cs := rfl

theorem readNumeral_digits {c : Char} {cs : List Char} (hm : c ≠ '-') :
    readNumeral (c :: cs) = numeralOf false (c :: cs) := by
  unfold readNumeral
  split
  next negative cs' heq =>
  split at heq
  · simp_all
  · obtain ⟨rfl, rfl⟩ := Prod.mk.inj heq
    rfl

namespace EndsNumber

variable {rest : List Char}

theorem notDigit (h : EndsNumber rest) : ∀ c ∈ rest.head?, c.isDigit = false :=
  fun c hc => (h c hc).1

theorem readFraction_append (h : EndsNumber rest) {cs ds left : List Char}
    (hr : readFraction cs = some (ds, left)) :
    readFraction (cs ++ rest) = some (ds, left ++ rest) := by
  unfold readFraction at hr
  split at hr
  · next cs =>
    simp only [List.cons_append, readFraction, Text.takeWhile_append h.notDigit,
      Text.dropWhile_append h.notDigit]
    by_cases he : (cs.takeWhile Char.isDigit).isEmpty = true
    · simp [he] at hr
    · simp_all
  · next cs' hne =>
    obtain ⟨rfl, rfl⟩ : [] = ds ∧ cs = left := by simpa using hr
    unfold readFraction
    split
    · next heq =>
      cases cs with
      | nil => exact absurd rfl (h '.' (by simp_all)).2.1
      | cons c cs => simp_all
    · rfl

theorem exponentOf_append (h : EndsNumber rest) {negative : Bool} {cs left : List Char} {e : Int}
    (hr : exponentOf negative cs = some (e, left)) :
    exponentOf negative (cs ++ rest) = some (e, left ++ rest) := by
  unfold exponentOf at hr ⊢
  rw [Text.takeWhile_append h.notDigit, Text.dropWhile_append h.notDigit]
  split at hr
  · simp at hr
  · next he => simp_all

theorem readExponent_append (h : EndsNumber rest) {cs left : List Char} {e : Int}
    (hr : Numeral.readExponent cs = some (e, left)) :
    Numeral.readExponent (cs ++ rest) = some (e, left ++ rest) := by
  cases cs with
  | nil => simp [Numeral.readExponent] at hr
  | cons c cs =>
    by_cases hp : c = '+'
    · subst hp
      exact h.exponentOf_append hr
    by_cases hm : c = '-'
    · subst hm
      exact h.exponentOf_append hr
    rw [readExponent_digits hp hm] at hr
    rw [List.cons_append, readExponent_digits hp hm]
    exact h.exponentOf_append hr

theorem numeralWith_append (h : EndsNumber rest) {negative : Bool} {whole fraction cs : List Char}
    {n : Numeral × Bool} {left : List Char}
    (hr : numeralWith negative whole fraction cs = some (n, left)) :
    numeralWith negative whole fraction (cs ++ rest) = some (n, left ++ rest) := by
  cases cs with
  | nil =>
    obtain ⟨rfl, rfl⟩ : _ = n ∧ [] = left := by simpa [numeralWith] using hr
    cases rest with
    | nil => rfl
    | cons c rest =>
      -- what follows would be read as an exponent if it began like one
      obtain ⟨-, -, he, hE⟩ := h c (by simp)
      simp [numeralWith, he, hE]
  | cons c cs =>
    by_cases hc : c = 'e' ∨ c = 'E'
    · rcases hc with rfl | rfl
      all_goals
        obtain ⟨⟨e, cs'⟩, he, hr⟩ := Option.bind_eq_some_iff.mp hr
        obtain ⟨rfl, rfl⟩ : _ = n ∧ cs' = left := by simpa using hr
        simp [numeralWith, h.readExponent_append he]
    · obtain ⟨he, hE⟩ := not_or.mp hc
      obtain ⟨rfl, rfl⟩ : _ = n ∧ c :: cs = left := by simpa [numeralWith, he, hE] using hr
      simp [numeralWith, he, hE]

theorem numeralOf_append (h : EndsNumber rest) {negative : Bool} {cs : List Char}
    {n : Numeral × Bool} {left : List Char} (hr : numeralOf negative cs = some (n, left)) :
    numeralOf negative (cs ++ rest) = some (n, left ++ rest) := by
  unfold numeralOf at hr ⊢
  rw [Text.takeWhile_append h.notDigit, Text.dropWhile_append h.notDigit]
  dsimp only at hr ⊢
  split at hr
  · simp at hr
  · next hw =>
    obtain ⟨⟨fraction, cs'⟩, hf, hr⟩ := Option.bind_eq_some_iff.mp hr
    rw [if_neg hw, h.readFraction_append hf]
    exact h.numeralWith_append hr

/-- A number is read in the same way when something follows that ends it. -/
theorem readNumber_append (h : EndsNumber rest) {cs : List Char} {n : Number} {left : List Char}
    (hr : readNumber cs = some (n, left)) : readNumber (cs ++ rest) = some (n, left ++ rest) := by
  obtain ⟨⟨⟨m, isWhole⟩, cs'⟩, hm, hr⟩ := Option.bind_eq_some_iff.mp hr
  have hm : readNumeral (cs ++ rest) = some ((m, isWhole), cs' ++ rest) := by
    cases cs with
    | nil => simp [readNumeral] at hm
    | cons c cs =>
      by_cases hc : c = '-'
      · subst hc
        exact h.numeralOf_append hm
      · rw [readNumeral_digits hc] at hm
        rw [List.cons_append, readNumeral_digits hc]
        exact h.numeralOf_append hm
  obtain ⟨v, hv, hr⟩ := Option.bind_eq_some_iff.mp hr
  obtain ⟨rfl, rfl⟩ : v = n ∧ cs' = left := by simpa using hr
  simp [readNumber, hm, hv]

end EndsNumber

/-- A number that its own text reads back as. -/
def Number.Rereads (n : Number) : Prop := readNumber n.text.toList = some (n, [])

/-- A number is binary, or a whole number of 64 bits, signed or unsigned. -/
def Number.InRange : Number → Prop
  | .int i => -(pow2 63 : Int) ≤ i ∧ i < pow2 64
  | .float _ => True

theorem numeralOf_toDigits (negative : Bool) (n : Nat) :
    numeralOf negative (Nat.toDigits 10 n) = some ((⟨negative, Nat.toDigits 10 n, [], 0⟩, true), [])
    := by
  have hall := Text.isDigit_toDigits n
  have htake : (Nat.toDigits 10 n).takeWhile Char.isDigit = Nat.toDigits 10 n := by
    simpa using @List.takeWhile_append_of_pos _ _ _ [] hall
  have hdrop : (Nat.toDigits 10 n).dropWhile Char.isDigit = [] := by
    simpa using @List.dropWhile_append_of_pos _ _ _ [] hall
  have hzero : (Nat.toDigits 10 n).head? = some '0' → (Nat.toDigits 10 n).length = 1 := by
    intro h
    rw [Text.eq_zero_of_leading_zero n h]
    rfl
  simp only [numeralOf, htake, hdrop]
  rw [if_neg]
  · rfl
  · simp only [Bool.or_eq_true, List.isEmpty_iff, Nat.toDigits_ne_nil, false_or, Bool.and_eq_true,
      beq_iff_eq, decide_eq_true_eq, not_and]
    intro h
    exact Nat.not_lt.mpr (Nat.le_of_eq (hzero h))

theorem readNumeral_toDigits (n : Nat) : readNumeral (Nat.toDigits 10 n) =
    some ((⟨false, Nat.toDigits 10 n, [], 0⟩, true), []) := by
  obtain ⟨c, cs, hc⟩ := List.exists_cons_of_ne_nil (Nat.toDigits_ne_nil (b := 10) (n := n))
  have hd : c.isDigit = true := Text.isDigit_toDigits n c (by simp [hc])
  rw [← numeralOf_toDigits, hc, readNumeral_digits]
  rintro rfl
  exact absurd hd (by decide)

theorem readNumber_toDigits {n : Nat} (h : n < pow2 64) :
    readNumber (Nat.toDigits 10 n) = some (.int n, []) := by
  simp [readNumber, readNumeral_toDigits, Number.ofNumeral?, Text.digitsValue_toDigits, h]

theorem readNumber_minus_toDigits {n : Nat} (hpos : 0 < n) (h : n ≤ pow2 63) :
    readNumber ('-' :: Nat.toDigits 10 n) = some (.int (-n), []) := by
  simp [readNumber, readNumeral_minus, numeralOf_toDigits, Number.ofNumeral?,
    Text.digitsValue_toDigits, hpos, h]

theorem Number.text_int (i : Int) : (Number.int i).text.toList =
    if i < 0 then '-' :: Nat.toDigits 10 i.natAbs else Nat.toDigits 10 i.natAbs := by
  rw [Number.text, toString_int, Binary64.signed, String.toList_ofList]
  simp

/-- A whole number of 64 bits reads back from its text. -/
theorem Number.rereads_int {i : Int} (h : (Number.int i).InRange) : (Number.int i).Rereads := by
  obtain ⟨hlow, hhigh⟩ := h
  unfold Rereads
  rw [text_int]
  split
  · next hneg =>
    have hi : -(i.natAbs : Int) = i := by omega
    rw [readNumber_minus_toDigits (by omega) (by omega), hi]
  · next hpos =>
    have hi : (i.natAbs : Int) = i := by omega
    rw [readNumber_toDigits (by omega), hi]

/-- Whole numbers read from text have 64 bits. -/
theorem inRange_of_readNumber {cs rest : List Char} {n : Number}
    (h : readNumber cs = some (n, rest)) : n.InRange := by
  obtain ⟨⟨⟨m, isWhole⟩, cs'⟩, -, h⟩ := Option.bind_eq_some_iff.mp h
  obtain ⟨v, hv, h⟩ := Option.bind_eq_some_iff.mp h
  obtain ⟨rfl, -⟩ : v = n ∧ cs' = rest := by simpa using h
  unfold Number.ofNumeral? at hv
  dsimp only at hv
  split at hv
  · next hc =>
    obtain rfl := Option.some.inj hv
    simp only [Bool.and_eq_true, decide_eq_true_eq] at hc
    exact ⟨by omega, by omega⟩
  · split at hv
    · next hc =>
      obtain rfl := Option.some.inj hv
      simp only [Bool.and_eq_true, decide_eq_true_eq] at hc
      exact ⟨by omega, by omega⟩
    · obtain ⟨x, -, rfl⟩ := Option.map_eq_some_iff.mp hv
      trivial

end PlanSql.Json
