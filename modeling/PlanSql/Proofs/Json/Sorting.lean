import PlanSql.Proofs.Json.RoundTrip

/-!
# Sorted members

Sorting the members of all objects of a value leaves nothing to be sorted, and it adds no numbers.
-/
namespace PlanSql.Json

theorem lt_of_not_lt_of_ne {a b : String} (h : ¬ a < b) (hne : a ≠ b) : b < a := by
  rcases Decidable.em (b < a) with hlt | hlt
  · exact hlt
  · exact absurd (String.le_antisymm (String.not_lt.mp hlt) (String.not_lt.mp h)) hne

/-- Members in key order, no two with the same key. -/
abbrev InKeyOrder (members : List (String × Json)) : Prop := members.Pairwise fun a b => a.1 < b.1

section Members

variable {key : String} {value : Json} {members done : List (String × Json)}

theorem mem_insertMember {m : String × Json} (h : m ∈ insertMember key value members) :
    m = (key, value) ∨ m ∈ members := by
  fun_induction insertMember key value members with
  | case1 => simpa using h
  | case2 k v rest hlt => simpa using h
  | case3 v rest hlt =>
    rcases List.mem_cons.mp h with rfl | h
    · exact .inl rfl
    · exact .inr (List.mem_cons_of_mem _ h)
  | case4 k v rest hlt hne ih =>
    rcases List.mem_cons.mp h with rfl | h
    · exact .inr List.mem_cons_self
    · exact (ih h).imp_right (List.mem_cons_of_mem _)

theorem InKeyOrder.insertMember (h : InKeyOrder members) :
    InKeyOrder (insertMember key value members) := by
  fun_induction Json.insertMember key value members with
  | case1 => simp
  | case2 k v rest hlt =>
    refine List.pairwise_cons.mpr ⟨fun m hm => ?_, h⟩
    rcases List.mem_cons.mp hm with rfl | hm
    · exact hlt
    · exact String.lt_trans hlt ((List.pairwise_cons.mp h).1 m hm)
  | case3 v rest hlt => exact List.pairwise_cons.mpr (List.pairwise_cons.mp h)
  | case4 k v rest hlt hne ih =>
    obtain ⟨hk, hrest⟩ := List.pairwise_cons.mp h
    refine List.pairwise_cons.mpr ⟨fun m hm => ?_, ih hrest⟩
    rcases mem_insertMember hm with rfl | hm
    · exact lt_of_not_lt_of_ne hlt hne
    · exact hk m hm

theorem insertMember_last (h : ∀ m ∈ members, m.1 < key) :
    insertMember key value members = members ++ [(key, value)] := by
  induction members with
  | nil => rfl
  | cons m rest ih =>
    obtain ⟨hm, hrest⟩ := List.forall_mem_cons.mp h
    have hne : key ≠ m.1 := by
      rintro rfl
      exact String.lt_irrefl _ hm
    rw [insertMember, if_neg (String.lt_asymm hm), if_neg hne, ih hrest]
    rfl

theorem inKeyOrder_sortedMembers (h : InKeyOrder done) :
    InKeyOrder (sortedMembers members done) := by
  induction members generalizing done with
  | nil => exact h
  | cons m rest ih => exact ih h.insertMember

/-- What holds of the sorted values of all members holds of the values of the sorted members. -/
theorem forall_sortedMembers {P : Json → Prop} (hd : ∀ m ∈ done, P m.2)
    (hm : ∀ m ∈ members, P m.2.sorted) : ∀ m ∈ sortedMembers members done, P m.2 := by
  induction members generalizing done with
  | nil => exact hd
  | cons m rest ih =>
    obtain ⟨hfirst, hrest⟩ := List.forall_mem_cons.mp hm
    refine ih (fun m' hmem => ?_) hrest
    rcases mem_insertMember hmem with rfl | hmem
    · exact hfirst
    · exact hd m' hmem

theorem sortedMembers_eq (ho : InKeyOrder (done ++ members))
    (hs : ∀ m ∈ members, m.2.sorted = m.2) : sortedMembers members done = done ++ members := by
  induction members generalizing done with
  | nil => simp [sortedMembers]
  | cons m rest ih =>
    obtain ⟨hfirst, hrest⟩ := List.forall_mem_cons.mp hs
    have hlast : ∀ m' ∈ done, m'.1 < m.1 := fun m' hm' =>
      (List.pairwise_append.mp ho).2.2 m' hm' m List.mem_cons_self
    have hsplit : done ++ m :: rest = (done ++ [m]) ++ rest := by simp
    rw [sortedMembers, hfirst, insertMember_last hlast, ih (hsplit ▸ ho) hrest, hsplit]

end Members

theorem sortedItems_eq (items : List Json) : sortedItems items = items.map sorted := by
  induction items with
  | nil => rfl
  | cons item rest ih => rw [sortedItems, ih, List.map_cons]

theorem sorted_sorted (j : Json) : j.sorted.sorted = j.sorted := by
  induction j using induct with
  | step j ih =>
    cases j with
    | null | bool | number | string => rfl
    | array items =>
      simpa [sorted, sortedItems_eq, children] using ih
    | object members =>
      have hs : ∀ m ∈ sortedMembers members [], m.2.sorted = m.2 :=
        forall_sortedMembers (P := fun j => j.sorted = j) (by simp)
          fun m hm => ih _ (List.mem_map_of_mem hm)
      rw [sorted, sorted, sortedMembers_eq (inKeyOrder_sortedMembers .nil) hs]
      rfl

theorem InRange.sorted {j : Json} (h : j.InRange) : j.sorted.InRange := by
  induction j using induct with
  | step j ih =>
    cases j with
    | null | bool | number | string => exact h
    | array items =>
      simp only [Json.sorted, sortedItems_eq, inRange_array, List.forall_mem_map] at h ⊢
      exact fun item hi => ih item hi (h item hi)
    | object members =>
      rw [Json.sorted, inRange_object] at *
      exact forall_sortedMembers (by simp) fun m hm => ih _ (List.mem_map_of_mem hm) (h m hm)

end PlanSql.Json
