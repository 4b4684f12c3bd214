import Mathlib.Data.List.Sort

/-!
# Stable sorting

A stable sort is determined by two things: elements stand in order, and those that are tied keep the
order they had. So sorting commutes with filters, and sorting by one order after another is sorting
once, ties in the last order being broken by the one before.
-/
namespace PlanSql

variable {α : Type}

/-- Any two elements are ordered in one way or both, and transitively so. -/
structure Orders (le : α → α → Bool) : Prop where
  total (a b : α) : (le a b || le b a) = true
  trans (a b c : α) : le a b → le b c → le a c

/-- Each of two elements may stand before the other. -/
def tied (le : α → α → Bool) (a b : α) : Bool := le a b && le b a

/-- The order in which ties are broken by another. -/
def thenBy (le le' : α → α → Bool) (a b : α) : Bool := le a b && (!le b a || le' a b)

theorem thenBy_assoc (le le' le'' : α → α → Bool) :
    thenBy (thenBy le le') le'' = thenBy le (thenBy le' le'') := by
  funext a b
  unfold thenBy
  cases le a b <;> cases le b a <;> simp

namespace Orders

variable {le le' : α → α → Bool}

theorem refl (h : Orders le) (a : α) : le a a = true := by
  simpa using h.total a a

theorem tied_trans (h : Orders le) {a b c : α} (hab : tied le a b) (hac : tied le a c) :
    le b c = true := by
  obtain ⟨-, hba⟩ := Bool.and_eq_true_iff.mp hab
  obtain ⟨hac, -⟩ := Bool.and_eq_true_iff.mp hac
  exact h.trans b a c hba hac

theorem thenBy (h : Orders le) (h' : Orders le') : Orders (thenBy le le') where
  total a b := by
    have ht := h.total a b
    have ht' := h'.total a b
    unfold PlanSql.thenBy
    cases hab : le a b <;> cases hba : le b a <;> simp_all
  trans a b c hab hbc := by
    unfold PlanSql.thenBy at hab hbc ⊢
    simp only [Bool.and_eq_true, Bool.or_eq_true, Bool.not_eq_true'] at hab hbc ⊢
    obtain ⟨hab, hab'⟩ := hab
    obtain ⟨hbc, hbc'⟩ := hbc
    refine ⟨h.trans a b c hab hbc, ?_⟩
    cases hca : le c a with
    | false => exact .inl rfl
    | true =>
      have hba : le b a = true := h.trans b c a hbc hca
      have hcb : le c b = true := h.trans c a b hca hab
      simp only [hba, hcb, Bool.true_eq_false, false_or] at hab' hbc'
      exact .inr (h'.trans a b c hab' hbc')

/-- Tied elements stay in order. -/
theorem filter_tied_mergeSort (h : Orders le) (a : α) (l : List α) :
    (l.mergeSort le).filter (tied le a) = l.filter (tied le a) := by
  have hties : (l.filter (tied le a)).Pairwise (le · ·) := by
    apply List.pairwise_of_forall_mem_list
    intro b hb c hc
    exact h.tied_trans (List.mem_filter.mp hb).2 (List.mem_filter.mp hc).2
  have hsub : (l.filter (tied le a)).Sublist (l.mergeSort le) :=
    List.sublist_mergeSort h.trans h.total hties List.filter_sublist
  have hsub := hsub.filter (tied le a)
  simp only [List.filter_filter, Bool.and_self] at hsub
  have hlen := ((List.mergeSort_perm l le).filter (tied le a)).length_eq
  exact (hsub.eq_of_length hlen.symm).symm

/-- Two lists that are in order and have their ties in the same order are the same. -/
theorem eq_of_ties (h : Orders le) {l l' : List α} (hl : l.Pairwise (le · ·))
    (hl' : l'.Pairwise (le · ·)) (ht : ∀ a, l.filter (tied le a) = l'.filter (tied le a)) :
    l = l' := by
  have hself : ∀ a, tied le a a = true := fun a => by simp [tied, h.refl a]
  induction l generalizing l' with
  | nil =>
    cases l' with
    | nil => rfl
    | cons b l' =>
      have hb := ht b
      simp [hself b] at hb
  | cons a l ih =>
    cases l' with
    | nil =>
      have ha := ht a
      simp [hself a] at ha
    | cons b l' =>
      obtain ⟨hal, htail⟩ := List.pairwise_cons.mp hl
      obtain ⟨hbl, htail'⟩ := List.pairwise_cons.mp hl'
      -- the heads are tied, being the least of one list and a member of the other
      have hmem : ∀ {c : α} {m m' : List α}, c ∈ m →
          m.filter (tied le c) = m'.filter (tied le c) → c ∈ m' := by
        intro c m m' hc he
        have hf : c ∈ m.filter (tied le c) := List.mem_filter.mpr ⟨hc, hself c⟩
        rw [he] at hf
        exact (List.mem_filter.mp hf).1
      have hba : le b a = true := by
        rcases List.mem_cons.mp (hmem List.mem_cons_self (ht a)) with rfl | ha
        · exact h.refl a
        · exact hbl a ha
      have hab : le a b = true := by
        rcases List.mem_cons.mp (hmem List.mem_cons_self (ht b).symm) with rfl | hb
        · exact h.refl b
        · exact hal b hb
      have hheads := ht a
      rw [List.filter_cons_of_pos (hself a), List.filter_cons_of_pos (by simp [tied, hab, hba])]
        at hheads
      obtain rfl : a = b := (List.cons.inj hheads).1
      refine congrArg (a :: ·) (ih htail htail' fun c => ?_)
      have hc := ht c
      simp only [List.filter_cons] at hc
      split at hc
      · exact (List.cons.inj hc).2
      · exact hc

/-- Sorted rows that are filtered are filtered rows that are sorted. -/
theorem filter_mergeSort (h : Orders le) (p : α → Bool) (l : List α) :
    (l.mergeSort le).filter p = (l.filter p).mergeSort le := by
  have hsorted : ∀ m : List α, (m.mergeSort le).Pairwise (le · ·) :=
    List.pairwise_mergeSort h.trans h.total
  apply h.eq_of_ties ((hsorted l).filter p) (hsorted _)
  intro a
  rw [List.filter_comm, h.filter_tied_mergeSort, h.filter_tied_mergeSort, List.filter_comm]

/-- Of two sorts the second decides, and the first breaks its ties. -/
theorem mergeSort_mergeSort (h : Orders le) (h' : Orders le') (l : List α) :
    (l.mergeSort le').mergeSort le = l.mergeSort (PlanSql.thenBy le le') := by
  have hboth := h.thenBy h'
  have hsorted : ((l.mergeSort le').mergeSort le).Pairwise (le · ·) :=
    List.pairwise_mergeSort h.trans h.total _
  have hsorted' : (l.mergeSort le').Pairwise (le' · ·) :=
    List.pairwise_mergeSort h'.trans h'.total l
  refine hboth.eq_of_ties (List.pairwise_iff_forall_sublist.mpr fun {a b} hab => ?_)
    (List.pairwise_mergeSort hboth.trans hboth.total l) fun a => ?_
  · have hle : le a b = true := List.pairwise_iff_forall_sublist.mp hsorted hab
    unfold PlanSql.thenBy
    rw [hle]
    cases hba : le b a with
    | false => rfl
    | true =>
      -- tied, so the two stand as the first sort has put them
      have hties := hab.filter (tied le a)
      rw [h.filter_tied_mergeSort, List.filter_cons_of_pos (by simp [tied, h.refl a]),
        List.filter_cons_of_pos (by simp [tied, hle, hba])] at hties
      have hsub := hties.trans List.filter_sublist
      simpa using List.pairwise_iff_forall_sublist.mp hsorted' hsub
  · have hsplit : ∀ m : List α, m.filter (tied (PlanSql.thenBy le le') a) =
        (m.filter (tied le a)).filter (tied le' a) := by
      intro m
      rw [List.filter_filter]
      apply List.filter_congr
      intro b _
      unfold tied PlanSql.thenBy
      cases le a b <;> cases le b a <;> simp
    rw [hsplit, h.filter_tied_mergeSort, List.filter_comm, h'.filter_tied_mergeSort,
      List.filter_comm, ← hsplit, hboth.filter_tied_mergeSort]

end Orders

end PlanSql
