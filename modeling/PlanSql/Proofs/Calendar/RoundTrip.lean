import Mathlib.Data.List.TakeWhile
import PlanSql.Calendar.Text
import PlanSql.Proofs.Text.Digits

/-!
# Dates and timestamps read back

A reader takes a part from the front of a text, and what follows the part has no say in it unless it
starts with another digit. So the readers of the parts of a date take what was written for them one
after the other, and every date and every timestamp reads back from its text, leap seconds and years
of five and six digits among them.
-/
namespace PlanSql

namespace Text

theorem padded_ne_nil (width n : Nat) : (padded 10 width n).toList ≠ [] := by
  rw [padded, String.toList_ofList]
  exact List.append_ne_nil_of_right_ne_nil _ Nat.toDigits_ne_nil

/-- A number that fits the width is written in that many digits. -/
theorem length_padded {width n : Nat} (hw : 0 < width) (hn : n < pow10 width) :
    (padded 10 width n).toList.length = width := by
  have hle : (Nat.toDigits 10 n).length ≤ width :=
    (Nat.length_toDigits_le_iff (by decide) hw).mpr hn
  rw [padded, String.toList_ofList, List.length_append, List.length_replicate]
  omega

theorem isBlank_of_isDigit {c : Char} (h : c.isDigit = true) : isBlank c = false := by
  have hascending : CodePointRange.Ascending blankRanges := by
    unfold CodePointRange.Ascending
    decide
  have hc : 48 ≤ c.toNat ∧ c.toNat ≤ 57 := by
    simpa [Char.isDigit, UInt32.le_iff_toNat_le] using h
  have hapart : ∀ r ∈ blankRanges, r.2 < 48 ∨ 57 < r.1 := by decide
  rw [isBlank, Bool.eq_false_iff, Ne, CodePointRange.covers_iff hascending]
  rintro ⟨r, hr, hlow, hhigh⟩
  have := hapart r hr
  omega

end Text

namespace Calendar

/-- Text that digits before it do not run into. -/
def EndsDigits (rest : List Char) : Prop := ∀ c ∈ rest.head?, c.isDigit = false

theorem endsDigits_nil : EndsDigits [] := by simp [EndsDigits]

theorem endsDigits_cons {c : Char} {rest : List Char} (h : c.isDigit = false) :
    EndsDigits (c :: rest) := by simpa [EndsDigits] using h

/-- The reader takes the text from the front of whatever it does not run into. -/
def Takes {α : Type} (read : Reader α) (text : List Char) (a : α) : Prop :=
  ∀ rest, EndsDigits rest → read (text ++ rest) = .ok (a, rest)

theorem takes_number {width : Nat} {ds : List Char} (hd : ∀ c ∈ ds, c.isDigit = true)
    (hne : ds ≠ []) (hw : ds.length ≤ width) : Takes (number width) ds (Text.digitsValue ds) := by
  intro rest hrest
  have hends : ∀ c ∈ (rest.take (width - ds.length)).head?, c.isDigit = false := by
    intro c hc
    cases rest with
    | nil => simp at hc
    | cons r rest =>
      cases hk : width - ds.length with
      | zero => simp [hk] at hc
      | succ k =>
        rw [hk, List.take_succ_cons] at hc
        exact hrest c hc
  have htaken : ((ds ++ rest).take width).takeWhile Char.isDigit = ds := by
    rw [List.take_append, List.take_of_length_le hw, Text.takeWhile_append hends]
    exact List.takeWhile_eq_self_iff.mpr hd
  unfold number
  split
  · next hnil => exact absurd (List.append_eq_nil_iff.mp hnil).1 hne
  · simp [htaken, hne]

theorem takes_padded {width n : Nat} (hw : 0 < width) (hn : n < pow10 width) :
    Takes (number width) (Text.padded 10 width n).toList n := by
  have h := takes_number (Text.isDigit_padded width n) (Text.padded_ne_nil width n)
    (Nat.le_of_eq (Text.length_padded hw hn))
  rwa [Text.digitsValue_padded] at h

/-- No white space stands before digits. -/
theorem skipBlank_digits {ds : List Char} (hd : ∀ c ∈ ds, c.isDigit = true) (hne : ds ≠ [])
    (rest : List Char) : skipBlank (ds ++ rest) = ds ++ rest := by
  obtain ⟨c, cs, rfl⟩ := List.exists_cons_of_ne_nil hne
  rw [List.cons_append, skipBlank, List.dropWhile_cons,
    Text.isBlank_of_isDigit (hd c List.mem_cons_self)]
  rfl

theorem skipBlank_space (cs : List Char) : skipBlank (' ' :: cs) = skipBlank cs := rfl

theorem skipBlank_padded (width n : Nat) (rest : List Char) :
    skipBlank ((Text.padded 10 width n).toList ++ rest) = (Text.padded 10 width n).toList ++ rest :=
  skipBlank_digits (Text.isDigit_padded width n) (Text.padded_ne_nil width n) rest

theorem takes_field {low high n : Nat} (hlow : low ≤ n) (hhigh : n ≤ high) (hn : n < 100) :
    Takes (field low high) (Text.padded 10 2 n).toList n := by
  intro rest hrest
  have hread := takes_padded (by decide : 0 < 2) hn rest hrest
  simp [field, skipBlank_padded, hread, bind, Except.bind, hlow, hhigh]

/-- A sign lets a number have as many digits as follow it. -/
theorem number_signed (n : Nat) {rest : List Char} (h : EndsDigits rest) :
    number ((Text.padded 10 4 n).toList ++ rest).length ((Text.padded 10 4 n).toList ++ rest) =
      .ok (n, rest) := by
  have hw : (Text.padded 10 4 n).toList.length ≤ ((Text.padded 10 4 n).toList ++ rest).length := by
    simp
  have hread := takes_number (Text.isDigit_padded 4 n) (Text.padded_ne_nil 4 n) hw rest h
  rwa [Text.digitsValue_padded] at hread

theorem year_minus {n : Nat} (hn : n ≤ 2147483648) {rest : List Char} (h : EndsDigits rest) :
    year ('-' :: ((Text.padded 10 4 n).toList ++ rest)) = .ok (-(n : Int), rest) := by
  have hblank : ∀ cs, skipBlank ('-' :: cs) = '-' :: cs := fun _ => rfl
  simp [year, hblank, -List.length_append, number_signed n h, bind, Except.bind, hn]

theorem year_plus {n : Nat} (hn : n ≤ 2147483647) {rest : List Char} (h : EndsDigits rest) :
    year ('+' :: ((Text.padded 10 4 n).toList ++ rest)) = .ok ((n : Int), rest) := by
  have hblank : ∀ cs, skipBlank ('+' :: cs) = '+' :: cs := fun _ => rfl
  simp [year, hblank, -List.length_append, number_signed n h, bind, Except.bind, hn]

theorem year_unsigned {n : Nat} (hn : n < 10000) {rest : List Char} (h : EndsDigits rest) :
    year ((Text.padded 10 4 n).toList ++ rest) = .ok ((n : Int), rest) := by
  have hread := takes_padded (by decide : 0 < 4) hn rest h
  have hblank := skipBlank_padded 4 n rest
  obtain ⟨c, cs, hcs⟩ := List.exists_cons_of_ne_nil (Text.padded_ne_nil 4 n)
  have hc : c.isDigit = true := Text.isDigit_padded 4 n c (hcs ▸ List.mem_cons_self)
  -- a digit is no sign
  have hminus : c ≠ '-' := by rintro rfl; exact absurd hc (by decide)
  have hplus : c ≠ '+' := by rintro rfl; exact absurd hc (by decide)
  rw [year, hblank]
  simp only [hcs, List.cons_append] at hread ⊢
  split <;> simp_all [bind, Except.bind]

theorem takes_year {y : Int} (hlow : -2147483648 ≤ y) (hhigh : y ≤ 2147483647) :
    Takes year (yearText y).toList y := by
  intro rest hrest
  unfold yearText
  split
  · next hshort =>
    rw [year_unsigned (by omega) hrest]
    congr 2
    omega
  · split
    · next hneg =>
      rw [String.toList_append, List.append_assoc, show "-".toList = ['-'] from rfl,
        List.singleton_append, year_minus (by omega) hrest]
      congr 2
      omega
    · next hpos =>
      rw [String.toList_append, List.append_assoc, show "+".toList = ['+'] from rfl,
        List.singleton_append, year_plus (by omega) hrest]
      congr 2
      omega

theorem expect_cons (c : Char) (rest : List Char) : expect c (c :: rest) = .ok ((), rest) := by
  simp [expect]

theorem daysInMonth_le (year : Int) (month : Nat) : daysInMonth year month ≤ 31 := by
  unfold daysInMonth
  grind

theorem takes_dateParts (d : Date) : Takes dateParts d.text.toList (d.year, d.month, d.day) := by
  intro rest hrest
  obtain ⟨y, m, dd, hy, hm, hd⟩ := d
  have hdash : ∀ cs, EndsDigits ('-' :: cs) := fun _ => endsDigits_cons (by decide)
  have hday : dd ≤ 31 := Nat.le_trans hd.2 (daysInMonth_le y m)
  have hyear := takes_year (by omega : -2147483648 ≤ y) (by omega) _
    (hdash ((Text.padded 10 2 m).toList ++ '-' :: ((Text.padded 10 2 dd).toList ++ rest)))
  have hmonth := takes_field hm.1 hm.2 (by omega) _ (hdash ((Text.padded 10 2 dd).toList ++ rest))
  have hdays := takes_field hd.1 hday (by omega) rest hrest
  simp [Date.text, dateParts, hyear, hmonth, hdays, expect_cons, bind, Except.bind]

/-- Digits of a fraction that stand for so many nanoseconds. -/
theorem fraction_padded (width : Nat) {n nanosecond : Nat} (hw : 0 < width) (hwidth : width ≤ 9)
    (hn : n < pow10 width) (hnano : n * pow10 (9 - width) = nanosecond) :
    fraction ('.' :: (Text.padded 10 width n).toList) = .ok (nanosecond, []) := by
  have hd := Text.isDigit_padded width n
  have hlength := Text.length_padded hw hn
  have hvalue := Text.digitsValue_padded width n
  have htaken : (Text.padded 10 width n).toList.takeWhile Char.isDigit =
      (Text.padded 10 width n).toList := List.takeWhile_eq_self_iff.mpr hd
  have hleft : (Text.padded 10 width n).toList.dropWhile Char.isDigit = [] :=
    List.dropWhile_eq_nil_iff.mpr hd
  have hkept := List.take_of_length_le (hlength ▸ hwidth)
  obtain ⟨c, cs, hcs⟩ := List.exists_cons_of_ne_nil (Text.padded_ne_nil width n)
  rw [hcs] at htaken hleft hkept hvalue hlength ⊢
  rw [fraction]
  · simp only [htaken, hleft, hkept, hvalue, hlength, hnano]
    rfl
  · simp

theorem point_toList (s : String) : ("." ++ s).toList = '.' :: s.toList := by
  rw [String.toList_append]
  rfl

/-- However many digits a fraction is written with, it reads back. -/
theorem fraction_fractionText {n : Nat} (hn : n < 1000000000) :
    fraction (fractionText n).toList = .ok (n, []) := by
  unfold fractionText
  split
  · next h => rw [h]; rfl
  split
  · rw [point_toList]
    exact fraction_padded 3 (by decide) (by decide) (by show n / 1000000 < 1000; omega)
      (by show n / 1000000 * 1000000 = n; omega)
  split
  · rw [point_toList]
    exact fraction_padded 6 (by decide) (by decide) (by show n / 1000 < 1000000; omega)
      (by show n / 1000 * 1000 = n; omega)
  · rw [point_toList]
    exact fraction_padded 9 (by decide) (by decide) hn (Nat.mul_one n)

theorem endsDigits_fractionText (n : Nat) : EndsDigits (fractionText n).toList := by
  unfold fractionText
  split
  · exact endsDigits_nil
  split
  · rw [point_toList]
    exact endsDigits_cons (by decide)
  split <;> rw [point_toList] <;> exact endsDigits_cons (by decide)

/-- The text of a time of day. -/
def timeText (t : Timestamp) : List Char :=
  (Text.padded 10 2 t.hour).toList ++ ':' :: ((Text.padded 10 2 t.minute).toList ++
    ':' :: ((Text.padded 10 2 t.second).toList ++ (fractionText t.nanosecond).toList))

theorem timestamp_text_toList (t : Timestamp) :
    t.text.toList = t.date.text.toList ++ ' ' :: timeText t := by
  simp [Timestamp.text, timeText]

theorem timeParts_timeText (t : Timestamp) :
    timeParts (timeText t) = .ok ((t.hour, t.minute, t.second, t.nanosecond), []) := by
  obtain ⟨date, h, mi, s, n, hh, hmi, hs, hn⟩ := t
  have hcolon : ∀ cs, EndsDigits (':' :: cs) := fun _ => endsDigits_cons (by decide)
  have hour := takes_field (Nat.zero_le h) (by omega : h ≤ 23) (by omega) _
    (hcolon ((Text.padded 10 2 mi).toList ++ ':' :: ((Text.padded 10 2 s).toList ++
      (fractionText n).toList)))
  have hminute := takes_field (Nat.zero_le mi) (by omega : mi ≤ 59) (by omega) _
    (hcolon ((Text.padded 10 2 s).toList ++ (fractionText n).toList))
  have hsecond := takes_field (Nat.zero_le s) hs (by omega) _ (endsDigits_fractionText n)
  simp [timeText, timeParts, hour, hminute, hsecond, fraction_fractionText hn, expect_cons, bind,
    Except.bind]

end Calendar

/-- Every date reads back from its text. -/
theorem Date.ofText_text (d : Date) : Date.ofText d.text = .ok d := by
  have hparts := Calendar.takes_dateParts d [] Calendar.endsDigits_nil
  rw [List.append_nil] at hparts
  have hdate : Date.of? d.year d.month d.day = some d := by simp
  simp [Date.ofText, hparts, hdate, bind, Except.bind]

theorem Date.text_inj {d d' : Date} : d.text = d'.text ↔ d = d' := by
  refine ⟨fun h => ?_, fun h => by rw [h]⟩
  have hd := d.ofText_text
  rw [h, d'.ofText_text] at hd
  exact (Except.ok.inj hd).symm

/-- Every timestamp reads back from its text. -/
theorem Timestamp.ofText?_text (t : Timestamp) : Timestamp.ofText? t.text = some t := by
  have hdate := Calendar.takes_dateParts t.date (' ' :: Calendar.timeText t)
    (Calendar.endsDigits_cons (by decide))
  have htime := Calendar.timeParts_timeText t
  have hspace : Calendar.skipBlank (' ' :: Calendar.timeText t) = Calendar.timeText t := by
    rw [Calendar.skipBlank_space, Calendar.timeText, Calendar.skipBlank_padded]
  have hof : Date.of? t.date.year t.date.month t.date.day = some t.date := by simp
  have hat : Timestamp.of? t.date t.hour t.minute t.second t.nanosecond = some t := by
    rw [Timestamp.of?, dif_pos t.isTime]
  simp [Timestamp.ofText?, Timestamp.ofParts?, Calendar.timestamp_text_toList, hdate, htime, hspace,
    hof, hat, Except.toOption]

theorem Timestamp.text_inj {t t' : Timestamp} : t.text = t'.text ↔ t = t' := by
  refine ⟨fun h => ?_, fun h => by rw [h]⟩
  have ht := t.ofText?_text
  rw [h, t'.ofText?_text] at ht
  exact (Option.some.inj ht).symm

/-- A date is never written as a timestamp is. -/
theorem Date.text_ne_timestamp (d : Date) (t : Timestamp) : d.text ≠ t.text := by
  intro h
  have hdate := Calendar.takes_dateParts d [] Calendar.endsDigits_nil
  have htime := Calendar.takes_dateParts t.date (' ' :: Calendar.timeText t)
    (Calendar.endsDigits_cons (by decide))
  rw [← Calendar.timestamp_text_toList, ← h] at htime
  rw [List.append_nil, htime] at hdate
  simp at hdate

end PlanSql
