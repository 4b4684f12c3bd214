import PlanSql.Json.Record
import PlanSql.Proofs.Json.Sorting

/-!
# What records hold

The fields of a record are values inside of it, so that whatever a reader makes of any value in
range, it makes of a field, of the items of an array and of what may be `null`. The other way round,
what reads back does so as a field and in a list.
-/
namespace PlanSql

theorem bind_some {α β : Type} {o : Option α} {f : α → Option β} {a : α} {b : β}
    (ho : o = some a) (hf : f a = some b) : o.bind f = some b := by
  rw [ho]
  exact hf

theorem mapM_map_eq_some {α β : Type} {read : β → Option α} {write : α → β} {as : List α}
    (h : ∀ a ∈ as, read (write a) = some a) : (as.map write).mapM read = some as := by
  induction as with
  | nil => rfl
  | cons a rest ih =>
    obtain ⟨ha, hrest⟩ := List.forall_mem_cons.mp h
    simp [ha, ih hrest]

theorem forall_of_mapM {α β : Type} {read : α → Option β} {P : β → Prop} {as : List α}
    {bs : List β} (hr : ∀ a ∈ as, ∀ b, read a = some b → P b) (h : as.mapM read = some bs) :
    ∀ b ∈ bs, P b := by
  induction as generalizing bs with
  | nil =>
    obtain rfl : [] = bs := by simpa using h
    simp
  | cons a rest ih =>
    obtain ⟨ha, hrest⟩ := List.forall_mem_cons.mp hr
    rw [List.mapM_cons] at h
    obtain ⟨b, hb, h⟩ := Option.bind_eq_some_iff.mp h
    obtain ⟨more, hmore, h⟩ := Option.bind_eq_some_iff.mp h
    obtain rfl : b :: more = bs := by simpa using h
    exact List.forall_mem_cons.mpr ⟨ha b hb, ih hrest hmore⟩

/-- Every whole number in the fields has 64 bits. -/
def Fields.InRange (fields : Fields Json) : Prop := ∀ m ∈ fields, m.2.InRange

namespace Json

variable {α : Type} {read : Json → Option α} {P : α → Prop}

/-- Whatever the reader makes of a value in range has the property. -/
def Yields (read : Json → Option α) (P : α → Prop) : Prop :=
  ∀ j a, j.InRange → read j = some a → P a

namespace Yields

theorem get? {fields : Fields Json} (hf : fields.InRange) {name : String} {j : Json}
    (h : fields.get? name = some j) : j.InRange := by
  obtain ⟨before, after, rfl, -⟩ := List.lookup_eq_some_iff.mp h
  exact hf (name, j) (by simp)

theorem required (hr : Yields read P) {fields : Fields Json} (hf : fields.InRange) {name : String}
    {a : α} (h : fields.required name read = some a) : P a := by
  obtain ⟨j, hj, h⟩ := Option.bind_eq_some_iff.mp h
  exact hr j a (get? hf hj) h

theorem withDefault (hr : Yields read P) {fields : Fields Json} (hf : fields.InRange)
    {name : String} {default a : α} (hd : P default)
    (h : fields.withDefault name default read = some a) : P a := by
  unfold Fields.withDefault at h
  split at h
  · obtain rfl := Option.some.inj h
    exact hd
  · next j hj => exact hr j a (get? hf hj) h

theorem orNull (hr : Yields read P) : Yields (orNull? read) fun o => ∀ a ∈ o, P a := by
  intro j o hj h
  unfold orNull? at h
  split at h
  · obtain rfl := Option.some.inj h
    simp
  · obtain ⟨a, ha, rfl⟩ := Option.map_eq_some_iff.mp h
    simpa using hr j a hj ha

theorem items (hr : Yields read P) : Yields (items? read) fun as => ∀ a ∈ as, P a := by
  intro j as hj h
  unfold items? at h
  split at h
  · next items => exact forall_of_mapM (fun i hi a => hr i a (inRange_array.mp hj i hi)) h
  · simp at h

theorem optionalField (hr : Yields read P) {fields : Fields Json} (hf : fields.InRange)
    {name : String} {o : Option α} (h : Json.optionalField fields name read = some o) :
    ∀ a ∈ o, P a :=
  hr.orNull.withDefault hf (by simp) h

end Yields

theorem inRange_ofMembers {names : List String} {members : List (String × Json)}
    {fields : Fields Json} (hm : ∀ m ∈ members, m.2.InRange)
    (h : Fields.ofMembers? names members = some fields) : fields.InRange := by
  unfold Fields.ofMembers? at h
  dsimp only at h
  split at h
  · simp at h
  · obtain rfl := Option.some.inj h
    exact fun m hmem => hm m (List.mem_filter.mp hmem).1

theorem inRange_ofItems {names : List String} {items : List Json} {fields : Fields Json}
    (hi : ∀ i ∈ items, i.InRange) (h : Fields.ofItems? names items = some fields) :
    fields.InRange := by
  unfold Fields.ofItems? at h
  split at h
  · obtain rfl := Option.some.inj h
    exact fun m hmem => hi m.2 (List.of_mem_zip hmem).2
  · simp at h

theorem inRange_fields {names : List String} {j : Json} {fields : Fields Json} (hj : j.InRange)
    (h : j.fields? names = some fields) : fields.InRange := by
  cases j with
  | object members => exact inRange_ofMembers (inRange_object.mp hj) h
  | array items => exact inRange_ofItems (inRange_array.mp hj) h
  | null | bool | number | string => simp [fields?] at h

theorem inRange_tagged {tag : String} {shapes : Shapes} {byPosition : Bool} {j : Json}
    {shape : String} {fields : Fields Json} (hj : j.InRange)
    (h : j.tagged? tag shapes byPosition = some (shape, fields)) : fields.InRange := by
  unfold tagged? at h
  split at h
  · next members =>
    split at h
    · obtain ⟨⟨name, names⟩, -, h⟩ := Option.bind_eq_some_iff.mp h
      obtain ⟨fs, hfs, h⟩ := Option.bind_eq_some_iff.mp h
      obtain ⟨-, rfl⟩ := Prod.mk.inj (Option.some.inj h)
      exact inRange_ofMembers
        (fun m hm => inRange_object.mp hj m (List.mem_filter.mp hm).1) hfs
    · simp at h
  · next t items =>
    obtain ⟨⟨name, names⟩, -, h⟩ := Option.bind_eq_some_iff.mp h
    obtain ⟨fs, hfs, h⟩ := Option.bind_eq_some_iff.mp h
    obtain ⟨-, rfl⟩ := Prod.mk.inj (Option.some.inj h)
    exact inRange_ofItems (fun i hi => inRange_array.mp hj i (List.mem_cons_of_mem _ hi)) hfs
  · simp at h

theorem orNull?_eq_some {j : Json} {a : α} (hn : j ≠ .null) (h : read j = some a) :
    orNull? read j = some (some a) := by
  cases j with
  | null => exact absurd rfl hn
  | _ => exact Option.map_eq_some_iff.mpr ⟨a, h, rfl⟩

theorem natUpTo?_nat {most n : Nat} (h : n ≤ most) : natUpTo? most (nat n) = some n := by
  simp [natUpTo?, nat, h]

theorem yields_natUpTo (most : Nat) : Yields (natUpTo? most) fun n => n ≤ most := by
  intro j n _ h
  unfold natUpTo? at h
  split at h
  · split at h
    · obtain rfl := Option.some.inj h
      omega
    · simp at h
  · simp at h

theorem inRange_nat {n : Nat} (h : n < pow2 64) : (nat n).InRange := by
  refine inRange_number.mpr ⟨?_, ?_⟩ <;> omega

theorem depthOfItems_le {items : List Json} {d : Nat} :
    depthOfItems items ≤ d ↔ ∀ i ∈ items, i.depth ≤ d := by
  induction items with
  | nil => simp [depthOfItems]
  | cons i rest ih => rw [depthOfItems, Nat.max_le, ih, List.forall_mem_cons]

theorem depthOfMembers_le {members : List (String × Json)} {d : Nat} :
    depthOfMembers members ≤ d ↔ ∀ m ∈ members, m.2.depth ≤ d := by
  induction members with
  | nil => simp [depthOfMembers]
  | cons m rest ih => rw [depthOfMembers, Nat.max_le, ih, List.forall_mem_cons]

theorem depth_item_le {items : List Json} {d : Nat} (h : (array items).depth ≤ d) :
    ∀ i ∈ items, i.depth ≤ d := by
  rw [depth] at h
  exact depthOfItems_le.mp (Nat.le_of_succ_le h)

theorem depth_member_le {members : List (String × Json)} {d : Nat}
    (h : (object members).depth ≤ d) : ∀ m ∈ members, m.2.depth ≤ d := by
  rw [depth] at h
  exact depthOfMembers_le.mp (Nat.le_of_succ_le h)

theorem inRange_content {j : Json} {name : String} {content : Json} (hj : j.InRange)
    (h : j.alternative? = some (name, some content)) : content.InRange := by
  unfold alternative? at h
  split at h
  · simp at h
  · obtain ⟨rfl, rfl⟩ : _ = name ∧ _ = content := by simpa using h
    exact inRange_object.mp hj _ List.mem_cons_self
  · simp at h

end Json

end PlanSql
