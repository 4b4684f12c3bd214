import PlanSql.Number.Layout
import PlanSql.Text.Digits

/-!
# Digits of whole numbers

The decimal digits of a whole number denote it, and only zero starts with a zero. A run of digits
ends where something else begins, whatever follows.
-/
namespace PlanSql

theorem toString_int (i : Int) :
    toString i = Binary64.signed (i < 0) (Nat.toDigits 10 i.natAbs) := by
  cases i with
  | ofNat n => exact Nat.toString_eq_ofList_toDigits
  | negSucc n =>
    have hs : toString (Int.negSucc n) = "-" ++ toString (n + 1) := rfl
    rw [hs, Nat.toString_eq_ofList_toDigits]
    simp [Binary64.signed, String.ofList_cons]

namespace Text

theorem digitsValue_toDigits (n : Nat) : digitsValue (Nat.toDigits 10 n) = n :=
  Nat.ofDigitChars_toDigits (by decide) (by decide)

theorem isDigit_toDigits (n : Nat) : ∀ c ∈ Nat.toDigits 10 n, c.isDigit = true :=
  fun _ hc => Nat.isDigit_of_mem_toDigits (by decide) (by decide) hc

theorem digitsValue_append (ds es : List Char) : digitsValue (ds ++ es) =
    es.foldl (fun n c => 10 * n + (c.toNat - '0'.toNat)) (digitsValue ds) :=
  List.foldl_append

/-- Zeros in front do not count. -/
theorem digitsValue_padded (width n : Nat) : digitsValue (padded 10 width n).toList = n := by
  have hzeros (k : Nat) : digitsValue (List.replicate k '0') = 0 := by
    induction k with
    | zero => rfl
    | succ k ih =>
      rw [List.replicate_succ', digitsValue_append, ih]
      rfl
  rw [padded, String.toList_ofList, digitsValue_append, hzeros]
  exact digitsValue_toDigits n

theorem isDigit_padded (width n : Nat) : ∀ c ∈ (padded 10 width n).toList, c.isDigit = true := by
  intro c hc
  rw [padded, String.toList_ofList, List.mem_append] at hc
  rcases hc with hc | hc
  · rw [List.eq_of_mem_replicate hc]
    rfl
  · exact isDigit_toDigits n c hc

/-- Only zero is written with a zero in front. -/
theorem eq_zero_of_leading_zero (n : Nat) (h : (Nat.toDigits 10 n).head? = some '0') : n = 0 := by
  induction n using Nat.strongRecOn with
  | ind n ih =>
    rw [Nat.toDigits_eq_if (by decide)] at h
    split at h
    · next hlt =>
      have hdigit : ∀ m < 10, [Nat.digitChar m].head? = some '0' → m = 0 := by decide
      exact hdigit n hlt h
    · next hge =>
      obtain ⟨c, cs, hc⟩ := List.exists_cons_of_ne_nil (Nat.toDigits_ne_nil (b := 10) (n := n / 10))
      have hz := ih (n / 10) (Nat.div_lt_self (by omega) (by decide)) (by simpa [hc] using h)
      omega

theorem takeWhile_append {α : Type} {p : α → Bool} {rest : List α}
    (h : ∀ c ∈ rest.head?, p c = false) (cs : List α) :
    (cs ++ rest).takeWhile p = cs.takeWhile p := by
  induction cs with
  | nil =>
    cases rest with
    | nil => rfl
    | cons c rest => simp [h c (by simp)]
  | cons c cs ih => simp [List.takeWhile_cons, ih]

theorem dropWhile_append {α : Type} {p : α → Bool} {rest : List α}
    (h : ∀ c ∈ rest.head?, p c = false) (cs : List α) :
    (cs ++ rest).dropWhile p = cs.dropWhile p ++ rest := by
  induction cs with
  | nil =>
    cases rest with
    | nil => rfl
    | cons c rest => simp [h c (by simp)]
  | cons c cs ih =>
    simp only [List.cons_append, List.dropWhile_cons, ih]
    split <;> rfl

end Text

end PlanSql
