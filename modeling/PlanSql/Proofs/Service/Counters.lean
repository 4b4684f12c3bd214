import PlanSql.Proofs.Json.Sorting
import PlanSql.Service.Metrics

/-!
# Counters and their counts

A counter lists the series that were counted in the order of their names, each of them once and none
with a count of zero. So the counts tell the counter, and whatever is published from it: two
counters in which every series was counted equally often are the same list.
-/
namespace PlanSql

theorem Dialect.name_inj {d d' : Dialect} : d.name = d'.name ↔ d = d' := by
  cases d <;> cases d' <;> decide

namespace Service

namespace Series

variable {s t u : Series}

theorem before_iff : s.before t = true ↔
    s.dialect.name < t.dialect.name ∨ s.dialect.name = t.dialect.name ∧ s.outcome < t.outcome := by
  simp [before]

theorem not_before_self (s : Series) : ¬s.before s = true := by
  rw [before_iff]
  rintro (h | ⟨-, h⟩) <;> exact String.lt_irrefl _ h

theorem before_trans (h : s.before t = true) (h' : t.before u = true) : s.before u = true := by
  rw [before_iff] at *
  rcases h with h | ⟨h, ho⟩
  · rcases h' with h' | ⟨h', -⟩
    · exact .inl (String.lt_trans h h')
    · exact .inl (h' ▸ h)
  · rcases h' with h' | ⟨h', ho'⟩
    · exact .inl (h ▸ h')
    · exact .inr ⟨h.trans h', String.lt_trans ho ho'⟩

theorem before_of_not_before (hne : s ≠ t) (h : ¬s.before t = true) : t.before s = true := by
  rw [before_iff] at *
  obtain ⟨hd, ho⟩ := not_or.mp h
  by_cases hname : s.dialect.name = t.dialect.name
  · have hout : s.outcome ≠ t.outcome := by
      intro hout
      obtain ⟨d, o⟩ := s
      obtain ⟨d', o'⟩ := t
      obtain rfl : d = d' := Dialect.name_inj.mp hname
      obtain rfl : o = o' := hout
      exact hne rfl
    exact .inr ⟨hname.symm, Json.lt_of_not_lt_of_ne (fun hlt => ho ⟨hname, hlt⟩) hout⟩
  · exact .inl (Json.lt_of_not_lt_of_ne hd hname)

end Series

namespace Counter

variable {c c' : Counter} {s t : Series} {n : Nat}

theorem count_cons (t : Series) (n : Nat) (c : Counter) (s : Series) :
    count ((t, n) :: c) s = (if t = s then n else 0) + c.count s := by
  simp [count, tally]

theorem count_increment (c : Counter) (s t : Series) :
    (c.increment s).count t = c.count t + if s = t then 1 else 0 := by
  simp [count, tally_increment]

/-- What all counters are like: the series are in order, and each of them was counted. -/
structure Listed (c : Counter) : Prop where
  ordered : c.Pairwise fun a b => a.1.before b.1 = true
  positive : ∀ entry ∈ c, 0 < entry.2

theorem listed_nil : Listed [] := ⟨.nil, by simp⟩

theorem listed_cons :
    Listed ((t, n) :: c) ↔ 0 < n ∧ (∀ entry ∈ c, t.before entry.1 = true) ∧ c.Listed := by
  constructor
  · rintro ⟨ho, hp⟩
    obtain ⟨hbefore, ho⟩ := List.pairwise_cons.mp ho
    obtain ⟨hn, hp⟩ := List.forall_mem_cons.mp hp
    exact ⟨hn, hbefore, ho, hp⟩
  · rintro ⟨hn, hbefore, ho, hp⟩
    exact ⟨List.pairwise_cons.mpr ⟨hbefore, ho⟩, List.forall_mem_cons.mpr ⟨hn, hp⟩⟩

theorem mem_increment {entry : Series × Nat} (h : entry ∈ c.increment s) :
    entry.1 = s ∨ ∃ entry' ∈ c, entry'.1 = entry.1 := by
  fun_induction increment s c with
  | case1 => exact .inl (by simp_all)
  | case2 n rest =>
    rcases List.mem_cons.mp h with rfl | h
    · exact .inl rfl
    · exact .inr ⟨entry, List.mem_cons_of_mem _ h, rfl⟩
  | case3 t n rest hne hb =>
    rcases List.mem_cons.mp h with rfl | h
    · exact .inl rfl
    · exact .inr ⟨entry, h, rfl⟩
  | case4 t n rest hne hb ih =>
    rcases List.mem_cons.mp h with rfl | h
    · exact .inr ⟨_, List.mem_cons_self, rfl⟩
    · exact (ih h).imp_right fun ⟨entry', hm, he⟩ => ⟨entry', List.mem_cons_of_mem _ hm, he⟩

theorem Listed.increment (h : c.Listed) (s : Series) : (c.increment s).Listed := by
  fun_induction Counter.increment s c with
  | case1 => exact listed_cons.mpr ⟨by decide, by simp, listed_nil⟩
  | case2 n rest =>
    obtain ⟨-, hbefore, hrest⟩ := listed_cons.mp h
    exact listed_cons.mpr ⟨Nat.succ_pos n, hbefore, hrest⟩
  | case3 t n rest hne hb =>
    obtain ⟨-, hbefore, -⟩ := listed_cons.mp h
    refine listed_cons.mpr ⟨by decide, List.forall_mem_cons.mpr ⟨hb, fun entry hm => ?_⟩, h⟩
    exact Series.before_trans hb (hbefore entry hm)
  | case4 t n rest hne hb ih =>
    obtain ⟨hn, hbefore, hrest⟩ := listed_cons.mp h
    refine listed_cons.mpr ⟨hn, fun entry hm => ?_, ih hrest⟩
    rcases mem_increment hm with hs | ⟨entry', hm', he⟩
    · rw [hs]
      exact Series.before_of_not_before hne hb
    · rw [← he]
      exact hbefore entry' hm'

theorem Listed.record (h : c.Listed) (s : Option Series) : (c.record s).Listed := by
  cases s with
  | none => exact h
  | some s => exact h.increment s

theorem count_eq_zero (h : ∀ entry ∈ c, s.before entry.1 = true) : c.count s = 0 := by
  induction c with
  | nil => rfl
  | cons entry rest ih =>
    obtain ⟨hs, hrest⟩ := List.forall_mem_cons.mp h
    have hne : entry.1 ≠ s := by
      intro he
      exact s.not_before_self (he ▸ hs)
    obtain ⟨t, n⟩ := entry
    rw [count_cons, if_neg hne, ih hrest]

theorem Listed.count_head (h : Listed ((t, n) :: c)) : count ((t, n) :: c) t = n := by
  obtain ⟨-, hbefore, -⟩ := listed_cons.mp h
  rw [count_cons, if_pos rfl, count_eq_zero hbefore, Nat.add_zero]

/-- The series at the head of a counter is not before all series of one with the same counts. -/
theorem Listed.not_before_head {t' : Series} {n' : Nat} (h : Listed ((t, n) :: c))
    (h' : Listed ((t', n') :: c'))
    (hcount : ∀ s, count ((t, n) :: c) s = count ((t', n') :: c') s) : ¬t.before t' = true := by
  intro hb
  obtain ⟨-, hbefore', -⟩ := listed_cons.mp h'
  have hzero : count ((t', n') :: c') t = 0 := count_eq_zero <|
    List.forall_mem_cons.mpr ⟨hb, fun entry hm => Series.before_trans hb (hbefore' entry hm)⟩
  have hn := (listed_cons.mp h).1
  rw [← hcount, h.count_head] at hzero
  omega

/-- The counts tell the counter. -/
theorem Listed.ext (h : c.Listed) (h' : c'.Listed) (hcount : ∀ s, c.count s = c'.count s) :
    c = c' := by
  induction c generalizing c' with
  | nil =>
    cases c' with
    | nil => rfl
    | cons entry rest =>
      obtain ⟨t, n⟩ := entry
      have hn := (listed_cons.mp h').1
      have hzero : 0 = n := (hcount t).trans h'.count_head
      omega
  | cons entry rest ih =>
    obtain ⟨t, n⟩ := entry
    cases c' with
    | nil =>
      have hn := (listed_cons.mp h).1
      have hzero : n = 0 := h.count_head.symm.trans (hcount t)
      omega
    | cons entry' rest' =>
      obtain ⟨t', n'⟩ := entry'
      have hsame : t = t' := Decidable.byContradiction fun hne =>
        h'.not_before_head h (fun s => (hcount s).symm)
          (Series.before_of_not_before hne (h.not_before_head h' hcount))
      subst hsame
      have hn : n = n' := by rw [← h.count_head, hcount t, h'.count_head]
      subst hn
      refine congrArg _ (ih (listed_cons.mp h).2.2 (listed_cons.mp h').2.2 fun s => ?_)
      have hs := hcount s
      rw [count_cons, count_cons] at hs
      omega

end Counter

end Service

end PlanSql
