import PlanSql.Json.Reader
import PlanSql.Json.Text

/-!
# Strings in JSON text

A string reads back from its text: each character does, those with a meaning of their own by an
escape, and nothing inside ends the string.
-/
namespace PlanSql.Json

theorem stringBody_quote (cs : List Char) : stringBody ('"' :: cs) = some ([], cs) := by
  rw [stringBody.eq_def]
  rfl

theorem stringBody_escape {e c : Char} (he : e ≠ 'u') (h : shortEscape? e = some c)
    (cs : List Char) : stringBody ('\\' :: e :: cs) =
      (stringBody cs).map fun (body, rest) => (c :: body, rest) := by
  rw [stringBody.eq_def]
  simp [he, h]

theorem stringBody_unicode {a b c d : Char} {n : Nat} (h : codeUnit? a b c d = some n)
    (hn : n < 0xD800) (cs : List Char) : stringBody ('\\' :: 'u' :: a :: b :: c :: d :: cs) =
      (stringBody cs).map fun (body, rest) => (Char.ofNat n :: body, rest) := by
  have hhigh : ¬ (0xD800 ≤ n ∧ n < 0xDC00) := by omega
  have hlow : ¬ (0xDC00 ≤ n ∧ n < 0xE000) := by omega
  rw [stringBody.eq_def]
  simp [h, hhigh, hlow]

theorem stringBody_plain {c : Char} (hq : c ≠ '"') (hs : c ≠ '\\') (hc : ¬ c.toNat < 32)
    (cs : List Char) : stringBody (c :: cs) =
      (stringBody cs).map fun (body, rest) => (c :: body, rest) := by
  rw [stringBody.eq_def]
  simp [hq, hs, hc]

/-- Control characters are written by four hexadecimal digits. -/
theorem codeUnit?_control : ∀ n < 32,
    (Text.padded 16 4 n).toList = ['0', '0', Nat.digitChar (n / 16), Nat.digitChar (n % 16)] ∧
      codeUnit? '0' '0' (Nat.digitChar (n / 16)) (Nat.digitChar (n % 16)) = some n := by
  decide

/-- A character reads back from its text inside a string. -/
theorem stringBody_charText (c : Char) (cs : List Char) :
    stringBody ((charText c).toList ++ cs) =
      (stringBody cs).map fun (body, rest) => (c :: body, rest) := by
  unfold charText
  split
  · exact stringBody_escape (by decide) rfl cs
  · exact stringBody_escape (by decide) rfl cs
  · exact stringBody_escape (by decide) rfl cs
  · exact stringBody_escape (by decide) rfl cs
  · exact stringBody_escape (by decide) rfl cs
  · exact stringBody_escape (by decide) rfl cs
  · exact stringBody_escape (by decide) rfl cs
  · next hquote hslash _ _ _ _ _ =>
    split
    · next h =>
      obtain ⟨htext, hunit⟩ := codeUnit?_control c.toNat h
      rw [String.toList_append, htext]
      exact (stringBody_unicode hunit (by omega) cs).trans (by rw [Char.ofNat_toNat])
    · next h =>
      rw [Char.toString, String.toList_singleton]
      exact stringBody_plain hquote hslash h cs

theorem stringBody_chars (cs rest : List Char) :
    stringBody (cs.flatMap (fun c => (charText c).toList) ++ '"' :: rest) = some (cs, rest) := by
  induction cs with
  | nil => exact stringBody_quote rest
  | cons c cs ih => rw [List.flatMap_cons, List.append_assoc, stringBody_charText, ih]; rfl

theorem stringText_toList (s : String) : (stringText s).toList =
    '"' :: (s.toList.flatMap (fun c => (charText c).toList) ++ ['"']) := by
  simp [stringText, String.toList_join, List.flatMap_map]

/-- A string reads back from its text after the opening quote. -/
theorem readString_stringText (s : String) (rest : List Char) :
    ∃ cs, (stringText s).toList ++ rest = '"' :: cs ∧ readString cs = some (s, rest) := by
  refine ⟨s.toList.flatMap (fun c => (charText c).toList) ++ '"' :: rest, ?_, ?_⟩
  · simp [stringText_toList]
  · rw [readString, stringBody_chars, Option.map_some]
    simp

end PlanSql.Json
