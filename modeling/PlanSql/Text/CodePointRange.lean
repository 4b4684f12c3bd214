/-!
# Sets of code points

Sets of code points given as ascending lists of closed ranges. Membership stops at the first range
that ends at or after the code point, which is enough for a list that ascends.
-/
namespace PlanSql.Text

/-- A closed range of code points. -/
abbrev CodePointRange := Nat × Nat

namespace CodePointRange

/-- Membership in an ascending list of ranges. -/
def covers : List CodePointRange → Nat → Bool
  | [], _ => false
  | (low, high) :: rest, c => if c ≤ high then decide (low ≤ c) else covers rest c

/-- Each range ends before every later one starts. -/
def Ascending (ranges : List CodePointRange) : Prop :=
  ranges.Pairwise fun r s => r.2 < s.1

theorem covers_iff {ranges : List CodePointRange} (h : Ascending ranges) {c : Nat} :
    covers ranges c = true ↔ ∃ r ∈ ranges, r.1 ≤ c ∧ c ≤ r.2 := by
  induction ranges with
  | nil => simp [covers]
  | cons r rest ih =>
    obtain ⟨low, high⟩ := r
    obtain ⟨later, tail⟩ := List.pairwise_cons.1 h
    rw [covers]
    split
    · rename_i hc
      constructor
      · intro hlow
        exact ⟨(low, high), by simp, by simpa using hlow, hc⟩
      · rintro ⟨r, hr, hlow, hhigh⟩
        rcases List.mem_cons.1 hr with rfl | hr
        · simpa using hlow
        · have := later r hr
          simp only at this
          omega
    · rename_i hc
      rw [ih tail]
      constructor
      · rintro ⟨r, hr, hb⟩
        exact ⟨r, List.mem_cons_of_mem _ hr, hb⟩
      · rintro ⟨r, hr, hlow, hhigh⟩
        rcases List.mem_cons.1 hr with rfl | hr
        · exact absurd hhigh hc
        · exact ⟨r, hr, hlow, hhigh⟩

end CodePointRange

end PlanSql.Text
