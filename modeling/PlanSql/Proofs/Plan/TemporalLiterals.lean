import PlanSql.Plan.Resolution
import PlanSql.Proofs.Calendar.RoundTrip
import PlanSql.Sql.Rendering

/-!
# Literals of dates and timestamps

A plan names a date or timestamp in many ways: with years of any length and sign, fields of one
digit, a space or a `T` before the time, white space, fractions of any length. Statements know one
way for each. Its text has no character that a string would have to escape, so it stands in the
statement as it is, and read as a literal of a plan it names the same value again.
-/
namespace PlanSql

namespace Calendar

/-- The characters that dates and timestamps are written with. -/
def isWritten (c : Char) : Bool := c.isDigit || c ∈ ['+', '-', '.', ':', ' ']

theorem isWritten_padded (width n : Nat) :
    ∀ c ∈ (Text.padded 10 width n).toList, isWritten c = true := by
  intro c hc
  rw [isWritten, Text.isDigit_padded width n c hc]
  rfl

theorem isWritten_yearText (y : Int) : ∀ c ∈ (yearText y).toList, isWritten c = true := by
  unfold yearText
  split
  · exact isWritten_padded 4 _
  · intro c hc
    rw [String.toList_append, List.mem_append] at hc
    rcases hc with hc | hc
    · split at hc <;> (obtain rfl := List.mem_singleton.mp hc; rfl)
    · exact isWritten_padded 4 _ c hc

theorem isWritten_fractionText (n : Nat) : ∀ c ∈ (fractionText n).toList, isWritten c = true := by
  have point : ∀ width m, ∀ c ∈ ("." ++ Text.padded 10 width m).toList, isWritten c = true := by
    intro width m c hc
    rw [String.toList_append, List.mem_append] at hc
    rcases hc with hc | hc
    · obtain rfl := List.mem_singleton.mp hc
      rfl
    · exact isWritten_padded width m c hc
  unfold fractionText
  split
  · simp
  split
  · exact point 3 _
  split
  · exact point 6 _
  · exact point 9 _

theorem isWritten_date (d : Date) : ∀ c ∈ d.text.toList, isWritten c = true := by
  intro c hc
  simp only [Date.text, String.toList_append, List.mem_append] at hc
  rcases hc with (((hc | hc) | hc) | hc) | hc
  · exact isWritten_yearText d.year c hc
  · obtain rfl := List.mem_singleton.mp hc
    rfl
  · exact isWritten_padded 2 d.month c hc
  · obtain rfl := List.mem_singleton.mp hc
    rfl
  · exact isWritten_padded 2 d.day c hc

theorem isWritten_timestamp (t : Timestamp) : ∀ c ∈ t.text.toList, isWritten c = true := by
  intro c hc
  simp only [timestamp_text_toList, timeText, List.mem_append, List.mem_cons] at hc
  rcases hc with hc | rfl | hc | rfl | hc | rfl | hc | hc
  · exact isWritten_date t.date c hc
  · rfl
  · exact isWritten_padded 2 t.hour c hc
  · rfl
  · exact isWritten_padded 2 t.minute c hc
  · rfl
  · exact isWritten_padded 2 t.second c hc
  · exact isWritten_fractionText t.nanosecond c hc

end Calendar

/-- Nothing in the text of a date or timestamp is escaped. -/
theorem Descriptor.stringText_written (d : Descriptor) {text : String}
    (h : ∀ c ∈ text.toList, Calendar.isWritten c = true) :
    d.stringText text = "'" ++ text ++ "'" := by
  have hchar : ∀ c ∈ text.toList, Sql.stringChar d.stringEscape c = [c] := by
    intro c hc
    have hquote : c ≠ '\'' := by rintro rfl; exact absurd (h _ hc) (by decide)
    have hslash : c ≠ '\\' := by rintro rfl; exact absurd (h _ hc) (by decide)
    unfold Sql.stringChar
    split <;> simp [hquote, hslash]
  have hall : text.toList.flatMap (Sql.stringChar d.stringEscape) = text.toList := by
    rw [List.flatMap_def, List.map_congr_left hchar, ← List.flatMap_def, List.flatMap_singleton']
  rw [← String.toList_inj]
  simp [stringText, hall]

namespace Sql.Expr

/-- The keyword of the literals of a type. -/
def keyword (type : DataType) : String := if type = .date then "DATE" else "TIMESTAMP"

/-- What stands before the apostrophes of a literal. -/
def opening (d : Descriptor) (type : DataType) : String :=
  if d.typedTemporalLiterals then keyword type ++ " " else ""

theorem text_temporal (d : Descriptor) (type : DataType) {text : String}
    (h : ∀ c ∈ text.toList, Calendar.isWritten c = true) :
    d.text (temporalPieces d (keyword type) text) = opening d type ++ ("'" ++ text ++ "'") := by
  unfold temporalPieces opening
  split <;> simp [Descriptor.text, Descriptor.pieceText, String.join, d.stringText_written h]

theorem text_date (d : Descriptor) (x : Date) :
    (literal (.value (.date x))).text d = opening d .date ++ ("'" ++ x.text ++ "'") :=
  text_temporal d .date (Calendar.isWritten_date x)

theorem text_timestamp (d : Descriptor) (x : Timestamp) :
    (literal (.value (.timestamp x))).text d = opening d .timestamp ++ ("'" ++ x.text ++ "'") :=
  text_temporal d .timestamp (Calendar.isWritten_timestamp x)

theorem text_date_inj (d : Descriptor) {x y : Date} :
    (literal (.value (.date x))).text d = (literal (.value (.date y))).text d ↔ x = y := by
  rw [text_date, text_date, ← Date.text_inj]
  simp

theorem text_timestamp_inj (d : Descriptor) {x y : Timestamp} :
    (literal (.value (.timestamp x))).text d = (literal (.value (.timestamp y))).text d ↔ x = y := by
  rw [text_timestamp, text_timestamp, ← Timestamp.text_inj]
  simp

/-- In the dialects without typed literals the text alone tells a date from a timestamp. -/
theorem text_date_ne_timestamp (d : Descriptor) (x : Date) (y : Timestamp) :
    (literal (.value (.date x))).text d ≠ (literal (.value (.timestamp y))).text d := by
  rw [text_date, text_timestamp]
  unfold opening
  split
  · intro h
    simpa [keyword] using congrArg (fun s => s.toList.head?) h
  · simpa using x.text_ne_timestamp y

end Sql.Expr

namespace Term

theorem constant_date_iff {s : String} {v : Value} :
    constant (.string s) (some .date) = .ok v ↔ ∃ x, v = .date x ∧ Date.ofText s = .ok x := by
  rw [constant]
  cases Date.ofText s <;> simp [eq_comm]

theorem constant_timestamp_iff {s : String} {v : Value} :
    constant (.string s) (some .timestamp) = .ok v ↔
      ∃ x, v = .timestamp x ∧ Timestamp.ofText? s = some x := by
  rw [constant]
  cases Timestamp.ofText? s <;> simp [eq_comm]

/-- The values that strings name as dates and timestamps are told apart by their literals. -/
theorem text_eq_iff_of_constant (d : Descriptor) {s s' : String} {t t' : DataType} {v v' : Value}
    (ht : t = .date ∨ t = .timestamp) (h : constant (.string s) (some t) = .ok v)
    (ht' : t' = .date ∨ t' = .timestamp) (h' : constant (.string s') (some t') = .ok v') :
    (Sql.Expr.literal (.value v)).text d = (Sql.Expr.literal (.value v')).text d ↔ v = v' := by
  rcases ht with rfl | rfl
  · obtain ⟨x, rfl, -⟩ := constant_date_iff.mp h
    rcases ht' with rfl | rfl
    · obtain ⟨y, rfl, -⟩ := constant_date_iff.mp h'
      simp [Sql.Expr.text_date_inj]
    · obtain ⟨y, rfl, -⟩ := constant_timestamp_iff.mp h'
      simp [Sql.Expr.text_date_ne_timestamp]
  · obtain ⟨x, rfl, -⟩ := constant_timestamp_iff.mp h
    rcases ht' with rfl | rfl
    · obtain ⟨y, rfl, -⟩ := constant_date_iff.mp h'
      simp [(Sql.Expr.text_date_ne_timestamp d y x).symm]
    · obtain ⟨y, rfl, -⟩ := constant_timestamp_iff.mp h'
      simp [Sql.Expr.text_timestamp_inj]

/-- The text between the apostrophes of a date or timestamp names the same value as the string that
the plan gave, and two strings are written alike exactly when they name the same value. -/
theorem constant_roundTrip (d : Descriptor) {t : DataType} (ht : t = .date ∨ t = .timestamp)
    {s : String} {v : Value} (h : constant (.string s) (some t) = .ok v) :
    v.dataType = t ∧
      (∃ text, (Sql.Expr.literal (.value v)).text d =
          Sql.Expr.opening d t ++ ("'" ++ text ++ "'") ∧
        constant (.string text) (some t) = .ok v) ∧
      ∀ (t' : DataType) (s' : String) (v' : Value), t' = .date ∨ t' = .timestamp →
        constant (.string s') (some t') = .ok v' →
          ((Sql.Expr.literal (.value v)).text d = (Sql.Expr.literal (.value v')).text d ↔
            v = v') := by
  have halike : ∀ (t' : DataType) (s' : String) (v' : Value), t' = .date ∨ t' = .timestamp →
      constant (.string s') (some t') = .ok v' →
        ((Sql.Expr.literal (.value v)).text d = (Sql.Expr.literal (.value v')).text d ↔ v = v') :=
    fun _ _ _ ht' h' => text_eq_iff_of_constant d ht h ht' h'
  rcases ht with rfl | rfl
  · obtain ⟨x, rfl, -⟩ := constant_date_iff.mp h
    exact ⟨rfl, ⟨x.text, Sql.Expr.text_date d x, constant_date_iff.mpr ⟨x, rfl, x.ofText_text⟩⟩,
      halike⟩
  · obtain ⟨x, rfl, -⟩ := constant_timestamp_iff.mp h
    exact ⟨rfl, ⟨x.text, Sql.Expr.text_timestamp d x,
      constant_timestamp_iff.mpr ⟨x, rfl, x.ofText?_text⟩⟩, halike⟩

/-- A leap second of a leap year before the year 0, with digits that are dropped. -/
theorem constant_roundTrip_leapSecond :
    let leapSecond : Value := .timestamp ⟨⟨-4, 2, 29, by decide⟩, 7, 5, 60, 123456789, by decide⟩
    constant (.string " -4-2-29T7:05:60.1234567899") (some .timestamp) = .ok leapSecond ∧
      ∃ text, (Sql.Expr.literal (.value leapSecond)).text Dialect.sqlite.descriptor =
          Sql.Expr.opening Dialect.sqlite.descriptor .timestamp ++ ("'" ++ text ++ "'") ∧
        constant (.string text) (some .timestamp) = .ok leapSecond :=
  have hread : constant (.string " -4-2-29T7:05:60.1234567899") (some .timestamp) =
      .ok (.timestamp ⟨⟨-4, 2, 29, by decide⟩, 7, 5, 60, 123456789, by decide⟩) := rfl
  ⟨hread, (constant_roundTrip Dialect.sqlite.descriptor (.inr rfl) hread).2.1⟩

end Term

end PlanSql
