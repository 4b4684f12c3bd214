import PlanSql.Proofs.Relation.Session

/-!
# What references denote

A reference taken from a relation by a column's name denotes that column, in the relation and above
a join of it: under a qualifier it carries the origin, which the join keeps, and without one the
name, which a join keeps for its left side. So a reference denotes the column that it was taken from
or is refused as ambiguous. The right side of a join is the exception: a relation that has no
qualifier is asked by name there, although its columns may have been renamed. In the relation itself
there is no exception: its columns have different names, and each name leads to its column.
-/
namespace PlanSql

section positions

variable {α : Type} {p : α → Bool} {xs : List α} {i : Nat}

theorem mem_positions : i ∈ positions p xs ↔ ∃ x, xs[i]? = some x ∧ p x = true := by
  simp [positions, List.mem_zipIdx_iff_getElem?]

theorem nodup_positions (p : α → Bool) (xs : List α) : (positions p xs).Nodup := by
  have hs : List.Sublist (positions p xs) (xs.zipIdx.map (·.2)) := List.filter_sublist.map _
  rw [List.zipIdx_map_snd] at hs
  exact hs.nodup List.nodup_range'

theorem positions_eq_nil :
    positions p xs = [] ↔ ∀ x ∈ xs, p x = false := by
  simp only [List.eq_nil_iff_forall_not_mem, mem_positions, not_exists, not_and,
    Bool.not_eq_true]
  constructor
  · intro h x hx
    obtain ⟨i, hi⟩ := List.mem_iff_getElem?.mp hx
    exact h i x hi
  · exact fun h i x hi => h x (List.mem_of_getElem? hi)

theorem positions_eq_of_mem (hi : i ∈ positions p xs) (hu : ∀ j ∈ positions p xs, j = i) :
    positions p xs = [i] := by
  have hrep := List.eq_replicate_of_mem hu
  have hlen := List.nodup_replicate.mp (hrep ▸ nodup_positions p xs)
  have hone : (positions p xs).length = 1 := by
    have := List.length_pos_of_mem hi
    omega
  rw [hrep, hone]
  rfl

theorem positions_eq_singleton {x : α} (hx : xs[i]? = some x) (hp : p x = true)
    (hu : ∀ j y, xs[j]? = some y → p y = true → j = i) : positions p xs = [i] := by
  refine positions_eq_of_mem (mem_positions.mpr ⟨x, hx, hp⟩) fun j hj => ?_
  obtain ⟨y, hy, hpy⟩ := mem_positions.mp hj
  exact hu j y hy hpy

theorem mem_positions_of_leading {ys : List α} (h : xs <+: ys) :
    i ∈ positions p xs ↔ i ∈ positions p ys ∧ i < xs.length := by
  obtain ⟨rest, rfl⟩ := h
  simp only [mem_positions]
  constructor
  · rintro ⟨x, hx, hp⟩
    have hlt := (List.getElem?_eq_some_iff.mp hx).1
    exact ⟨⟨x, by rwa [List.getElem?_append_left hlt], hp⟩, hlt⟩
  · rintro ⟨⟨x, hx, hp⟩, hlt⟩
    exact ⟨x, by rwa [List.getElem?_append_left hlt] at hx, hp⟩

end positions

namespace Schema

theorem names_getElem? {schema : Schema} {i : Nat} {f : Field} (h : schema[i]? = some f) :
    schema.names[i]? = some f.name := by
  simp [names, h]

/-- Among columns of different names a name stands at one position. -/
theorem eq_of_names_eq {schema : Schema} (hd : schema.names.Nodup) {i j : Nat} {f g : Field}
    (hf : schema[i]? = some f) (hg : schema[j]? = some g) (h : f.name = g.name) : i = j := by
  have hi := names_getElem? hf
  have hj := names_getElem? hg
  rw [← h] at hj
  exact (List.getElem?_inj (List.getElem?_eq_some_iff.mp hi).1 hd).mp (hi.trans hj.symm)

theorem find?_name {schema : Schema} (hd : schema.names.Nodup) {i : Nat} {f : Field}
    (hf : schema[i]? = some f) : schema.find? f.name = some f := by
  have hmem := List.mem_of_getElem? hf
  cases h : schema.find? f.name with
  | none => simpa using List.find?_eq_none.mp h f hmem
  | some g =>
    have hname : g.name = f.name := by simpa using List.find?_some h
    obtain ⟨j, hj⟩ := List.mem_iff_getElem?.mp (List.mem_of_find?_eq_some h)
    obtain rfl := eq_of_names_eq hd hj hf hname
    exact hj.symm.trans hf

end Schema

namespace Header

variable {h g : Header} {ref : ColumnRef} {i : Nat}

/-- Under a qualifier every column belongs to it. -/
def Owned (h : Header) : Prop :=
  ∀ q, h.qualifier = some q → h.origins = h.fields.map fun f => some ⟨q, f.name⟩

theorem owned_make (q : Option String) (fields : Schema) (inherited : List (Option Origin)) :
    (make q fields inherited).Owned := by
  rintro _ rfl
  rfl

/-- A reference denotes the column at a position, or it is refused since it could mean another one
as well. -/
def DenotesOnly (h : Header) (ref : ColumnRef) (i : Nat) : Prop :=
  h.resolve ref = .ok i ∨
    ∃ candidates, h.resolve ref = .error (.ambiguousColumn ref.text candidates)

theorem denotesOnly_of_mem_hits (hi : i ∈ h.hits ref) : h.DenotesOnly ref i := by
  unfold DenotesOnly resolve lookup
  split
  · next heq => split at heq <;> simp_all
  · next heq => split at heq <;> simp_all
  · exact .inr ⟨_, rfl⟩

/-- A column is among those that its name under the qualifier could mean. -/
theorem Owned.mem_hits (ho : h.Owned) {f : Field} (hf : h.fields[i]? = some f) :
    i ∈ h.hits ⟨h.qualifier, f.name⟩ := by
  unfold hits
  cases hq : h.qualifier with
  | none => exact mem_positions.mpr ⟨f, hf, by simp⟩
  | some q => exact mem_positions.mpr ⟨some ⟨q, f.name⟩, by simp [ho q hq, hf], by simp⟩

/-- Among columns of different names a name by itself means one column. -/
theorem lookup_plain (hd : h.fields.names.Nodup) {f : Field} (hf : h.fields[i]? = some f) :
    h.lookup ⟨none, f.name⟩ = .found i := by
  rw [lookup_eq_found]
  change positions (fun g => g.name = f.name) h.fields = [i]
  refine positions_eq_singleton hf (by simp) fun j g hg hn => ?_
  exact Schema.eq_of_names_eq hd hg hf (by simpa using hn)

/-- Among columns of different names its name means that column only. -/
theorem Owned.lookup_name (ho : h.Owned) (hd : h.fields.names.Nodup) {f : Field}
    (hf : h.fields[i]? = some f) : h.lookup ⟨h.qualifier, f.name⟩ = .found i := by
  cases hq : h.qualifier with
  | none => exact lookup_plain hd hf
  | some q =>
    rw [lookup_eq_found]
    unfold hits
    have horigins := ho q hq
    refine positions_eq_singleton (x := some ⟨q, f.name⟩) (by simp [horigins, hf]) (by simp)
      fun j o hj hn => ?_
    obtain ⟨g, hg, rfl⟩ : ∃ g, h.fields[j]? = some g ∧ some ⟨q, g.name⟩ = o := by
      simpa [horigins, Option.map_eq_some_iff] using hj
    exact Schema.eq_of_names_eq hd hg hf (by simpa using hn)

theorem column_name (hd : h.fields.names.Nodup) {f : Field} (hf : h.fields[i]? = some f) :
    h.column f.name = .ok (.column ⟨h.qualifier, f.name⟩ f.dataType) := by
  simp [column, Schema.find?_name hd hf]

/-- The columns of the one header come first in the other. -/
def Heads (h g : Header) : Prop := h.fields <+: g.fields ∧ h.origins <+: g.origins

theorem Heads.refl (h : Header) : h.Heads h := ⟨List.prefix_refl _, List.prefix_refl _⟩

theorem Heads.trans {k : Header} (hg : h.Heads g) (hk : g.Heads k) : h.Heads k :=
  ⟨hg.1.trans hk.1, hg.2.trans hk.2⟩

theorem Heads.mem_hits (hg : h.Heads g) (hi : i ∈ h.hits ref) : i ∈ g.hits ref := by
  unfold hits at hi ⊢
  split at hi
  · exact ((mem_positions_of_leading hg.1).mp hi).1
  · exact ((mem_positions_of_leading hg.2).mp hi).1

/-- A reference to a column denotes it also without the columns that follow. -/
theorem Heads.lookup_of_lt (hg : h.Heads g) (ha : h.Aligned) (hl : g.lookup ref = .found i)
    (hlt : i < h.fields.length) : h.lookup ref = .found i := by
  have hhits := lookup_eq_found.mp hl
  have hall : ∀ j ∈ h.hits ref, j = i := fun j hj => by simpa [hhits] using hg.mem_hits hj
  have hmem : i ∈ g.hits ref := by simp [hhits]
  rw [lookup_eq_found]
  unfold hits at hall hmem ⊢
  split
  · next heq =>
    simp only [heq] at hall hmem
    exact positions_eq_of_mem ((mem_positions_of_leading hg.1).mpr ⟨hmem, hlt⟩) hall
  · next heq =>
    simp only [heq] at hall hmem
    exact positions_eq_of_mem ((mem_positions_of_leading hg.2).mpr ⟨hmem, ha ▸ hlt⟩) hall

end Header

namespace Relation

theorem owned_header (r : Relation) : r.header.Owned := by
  induction r with
  | table | project | aggregate | window => exact Header.owned_make _ _ _
  | join => exact fun _ hq => absurd hq (by simp [header])
  | filter id input _ ih | sort id input _ ih | limit id input _ _ ih | distinct id input ih =>
    exact ih

/-- A column of the right side of a join, as the join shows it. -/
def joinedRight (left : Schema) (f : Field) : Field :=
  if left.names.contains f.name then { f with name := f.name ++ "_right" } else f

theorem joinedRight_of_not_mem {left : Schema} {f : Field} (h : f.name ∉ left.names) :
    joinedRight left f = f := by
  simp [joinedRight, h]

theorem joinFields_eq (left right : Schema) :
    joinFields left right = left ++ right.map (joinedRight left) := rfl

theorem joinFields_left {left : Schema} (right : Schema) {i : Nat} {f : Field}
    (h : left[i]? = some f) : (joinFields left right)[i]? = some f := by
  rw [joinFields_eq, List.getElem?_append_left (List.getElem?_eq_some_iff.mp h).1, h]

theorem joinFields_right (left : Schema) {right : Schema} {i : Nat} {f : Field}
    (h : right[i]? = some f) :
    (joinFields left right)[left.length + i]? = some (joinedRight left f) := by
  rw [joinFields_eq, List.getElem?_append_right (Nat.le_add_right _ _), Nat.add_sub_cancel_left,
    List.getElem?_map, h]
  rfl

/-- The sides of a join have columns of different names. -/
theorem nodup_of_joinFields {left right : Schema} (h : (joinFields left right).names.Nodup) :
    left.names.Nodup ∧ right.names.Nodup := by
  rw [joinFields_eq, Schema.names, List.map_append, List.map_map] at h
  refine ⟨(List.nodup_append.mp h).1, ?_⟩
  have hright := (List.nodup_append.mp h).2.1
  -- what a column is renamed to is a matter of its name alone, so equal names would stay equal
  have hname : Field.name ∘ joinedRight left =
      (fun n => if left.names.contains n then n ++ "_right" else n) ∘ Field.name := by
    funext f
    simp only [Function.comp_apply, joinedRight]
    split <;> rfl
  rw [hname, ← List.map_map] at hright
  exact List.Pairwise.of_map _ (fun _ _ hne he => hne (by rw [he])) hright

theorem heads_join (id : NodeId) (left right : Relation) (kind : JoinKind) (cs : List Expr) :
    left.header.Heads (join id left right kind cs).header :=
  ⟨List.prefix_append _ _, List.prefix_append _ _⟩

theorem heads_window (id : NodeId) (input : Relation) (exprs : List NamedExpr) :
    input.header.Heads (window id input exprs).header := by
  refine ⟨List.prefix_append _ _, ?_⟩
  simp only [header, Header.make]
  cases hq : input.header.qualifier with
  | none => exact List.prefix_append _ _
  | some q =>
    rw [owned_header input q hq]
    dsimp only
    rw [List.map_append]
    exact List.prefix_append _ _

/-- A relation made of another by calls that pass its columns on: rows are dropped, ordered or
extended. -/
inductive Continues (r : Relation) : Relation → Prop
  | refl : Continues r r
  | restrict {id : NodeId} {k n : Relation} {conditions : List Expr} (hk : Continues r k)
      (hc : ∀ c ∈ conditions, c.Made) (h : restrict id k conditions = .ok n) : Continues r n
  | sortBy {id : NodeId} {k n : Relation} {keys : List (SortKey Expr)} (hk : Continues r k)
      (hm : ∀ key ∈ keys, key.expr.Made) (h : sortBy id k keys = .ok n) : Continues r n
  | slice {id : NodeId} {k n : Relation} {count : Option Nat} {offset : Nat} (hk : Continues r k)
      (h : slice id k count offset = .ok n) : Continues r n
  | extend {id : NodeId} {k n : Relation} {exprs : List NamedExpr} (hk : Continues r k)
      (he : ∀ e ∈ exprs, e.expr.Made) (h : extend id k exprs = .ok n) : Continues r n
  | deduplicate {id : NodeId} {k : Relation} (hk : Continues r k) :
      Continues r (deduplicate id k)

theorem Continues.heads {r k : Relation} (h : r.Continues k) : r.header.Heads k.header := by
  induction h with
  | refl => exact Header.Heads.refl _
  | restrict hk hc h ih =>
    obtain ⟨rfl, -⟩ := restrict_eq_ok hc h
    exact ih
  | sortBy hk hm h ih =>
    obtain ⟨rfl, -⟩ := sortBy_eq_ok hm h
    exact ih
  | slice hk h ih =>
    obtain ⟨rfl, -⟩ := slice_eq_ok h
    exact ih
  | extend hk he h ih =>
    obtain ⟨rfl, -⟩ := extend_eq_ok he h
    exact ih.trans (heads_window _ _ _)
  | deduplicate hk ih => exact ih

/-- In a join a column of the right side is among those that its name there could mean, unless the
right side has no qualifier and the left side has the name. -/
theorem mem_hits_right {id : NodeId} {left right : Relation} {kind : JoinKind} {cs : List Expr}
    {i : Nat} {f : Field} (hf : right.schema[i]? = some f)
    (hn : right.header.qualifier = none → f.name ∉ left.schema.names) :
    left.schema.length + i ∈
      (join id left right kind cs).header.hits ⟨right.header.qualifier, f.name⟩ := by
  unfold Header.hits
  cases hq : right.header.qualifier with
  | none =>
    have hj := joinFields_right left.schema hf
    rw [joinedRight_of_not_mem (hn hq)] at hj
    exact mem_positions.mpr ⟨f, hj, by simp⟩
  | some q =>
    have hlen : left.header.origins.length = left.schema.length := aligned_header left
    refine mem_positions.mpr ⟨some ⟨q, f.name⟩, ?_, by simp⟩
    change (left.header.origins ++ right.header.origins)[left.schema.length + i]? = _
    rw [← hlen, List.getElem?_append_right (Nat.le_add_right _ _), Nat.add_sub_cancel_left,
      owned_header right q hq, List.getElem?_map]
    exact congrArg (Option.map _) hf

/-- A reference taken by name from a side of a join never denotes another column, in the join or
above it: it denotes the column of that side, or it is refused since it could mean another one as
well. For the right side this takes that the side has a qualifier, or that the left side does not
have the name. -/
theorem join_reference_kept {id : NodeId} {left right j k : Relation} {kind : JoinKind}
    {conditions : List Expr} (hc : ∀ c ∈ conditions, c.Made)
    (hj : joinWith id left right kind conditions = .ok j) (hk : j.Continues k) :
    (∀ i f, left.schema[i]? = some f → ∃ ref,
      left.header.column f.name = .ok (.column ref f.dataType) ∧
      j.schema[i]? = some f ∧ k.header.DenotesOnly ref i) ∧
    ∀ i f, right.schema[i]? = some f →
      (right.header.qualifier = none → f.name ∉ left.schema.names) → ∃ ref,
        right.header.column f.name = .ok (.column ref f.dataType) ∧
        j.schema[left.schema.length + i]? = some (joinedRight left.schema f) ∧
        k.header.DenotesOnly ref (left.schema.length + i) := by
  obtain ⟨rfl, hchecked⟩ := joinWith_eq_ok hc hj
  obtain ⟨hdl, hdr⟩ := nodup_of_joinFields hchecked.2.2
  have hheads := hk.heads
  refine ⟨fun i f hf => ?_, fun i f hf hn => ?_⟩
  · refine ⟨_, Header.column_name hdl hf, joinFields_left _ hf, ?_⟩
    apply Header.denotesOnly_of_mem_hits
    exact ((heads_join _ _ _ _ _).trans hheads).mem_hits ((owned_header left).mem_hits hf)
  · refine ⟨_, Header.column_name hdr hf, joinFields_right _ hf, ?_⟩
    apply Header.denotesOnly_of_mem_hits
    exact hheads.mem_hits (mem_hits_right hf hn)

/-- Customers and the orders they placed, both with a column of the same name. -/
def placements : Relation :=
  .join 2 (.table 0 "customers" none [⟨"id", .int64, false⟩])
    (.table 1 "orders" none [⟨"id", .int64, false⟩, ⟨"customer", .int64, true⟩]) .inner
    [.binary .eq (.column ⟨some "customers", "id"⟩ .int64)
      (.column ⟨some "orders", "customer"⟩ .int64)]

/-- The renamed column of the right side is found again above the join. -/
theorem placements_reference_kept :
    placements.Continues (.distinct 4 (.limit 3 placements (some 5) 0)) ∧ ∃ ref,
      Header.column (header (.table 1 "orders" none
        [⟨"id", .int64, false⟩, ⟨"customer", .int64, true⟩])) "id" = .ok (.column ref .int64) ∧
      placements.schema[1]? = some ⟨"id_right", .int64, false⟩ ∧
      (header (.distinct 4 (.limit 3 placements (some 5) 0))).DenotesOnly ref 1 := by
  have hj : joinWith 2 (.table 0 "customers" none [⟨"id", .int64, false⟩])
      (.table 1 "orders" none [⟨"id", .int64, false⟩, ⟨"customer", .int64, true⟩]) .inner
      [.binary .eq (.column ⟨some "customers", "id"⟩ .int64)
        (.column ⟨some "orders", "customer"⟩ .int64)] = .ok placements := rfl
  have he : Expr.applyBinary .eq (.column ⟨some "customers", "id"⟩ .int64)
      (.column ⟨some "orders", "customer"⟩ .int64) = .ok _ := rfl
  have hl : slice 3 placements (some 5) 0 = .ok _ := rfl
  have hk : placements.Continues (.distinct 4 (.limit 3 placements (some 5) 0)) :=
    .deduplicate (.slice .refl hl)
  exact ⟨hk, (join_reference_kept (by simpa using .binary (.column _ _) (.column _ _) he) hj hk).2 0
    ⟨"id", .int64, false⟩ rfl (by simp [header, Header.make])⟩

/-- Two tables paired up. -/
def pairedTables : Relation :=
  .join 3 (.table 1 "b" none [⟨"id", .int64, false⟩]) (.table 2 "c" none [⟨"x", .int64, false⟩])
    .cross []

/-- A table paired up with pairs. -/
def nestedPairs : Relation :=
  .join 4 (.table 0 "a" none [⟨"id", .int64, false⟩]) pairedTables .cross []

theorem valid_nestedPairs : nestedPairs.Valid := by
  have ha : scan 0 "a" none [⟨"id", .int64, false⟩] = .ok _ := rfl
  have hb : scan 1 "b" none [⟨"id", .int64, false⟩] = .ok _ := rfl
  have hc : scan 2 "c" none [⟨"x", .int64, false⟩] = .ok _ := rfl
  have hp : joinWith 3 (.table 1 "b" none [⟨"id", .int64, false⟩])
      (.table 2 "c" none [⟨"x", .int64, false⟩]) .cross [] = .ok pairedTables := rfl
  have hn : joinWith 4 (.table 0 "a" none [⟨"id", .int64, false⟩]) pairedTables .cross [] =
      .ok nestedPairs := rfl
  exact ⟨_, .call (.call (.call (.call (.call .start (.scan ha) (by simp)) (.scan hb)
    (by simp [id])) (.scan hc) (by simp [id])) (.joinWith (by simp) (by simp) (by simp) hp)
    (by simp [id, pairedTables])) (.joinWith (by simp) (by simp) (by simp) hn)
    (by simp [id, pairedTables, nestedPairs]), List.mem_cons_self⟩

/-- A reference taken from the right side of a join, itself a join, denotes another column above it:
the column of the left side that has the name. -/
theorem reference_slips_above_join : nestedPairs.Valid ∧
    joinWith 4 (.table 0 "a" none [⟨"id", .int64, false⟩]) pairedTables .cross [] =
      .ok nestedPairs ∧
    pairedTables.schema[0]? = some ⟨"id", .int64, false⟩ ∧
    nestedPairs.header.origins[1 + 0]? = some (some ⟨"b", "id"⟩) ∧
    ∃ ref, pairedTables.header.column "id" = .ok (.column ref .int64) ∧
      nestedPairs.header.resolve ref = .ok 0 :=
  ⟨valid_nestedPairs, rfl, rfl, rfl, _, rfl, rfl⟩

/-- A relation can name its own columns: they have different names and an entry for the origin each,
and the reference taken by the name of a column has the column's type and denotes it. -/
theorem Valid.column_resolves {r : Relation} (h : r.Valid) :
    r.schema.names.Nodup ∧ r.header.origins.length = r.schema.length ∧
      ∀ i f, r.schema[i]? = some f → ∃ ref,
        r.header.column f.name = .ok (.column ref f.dataType) ∧ r.header.resolve ref = .ok i := by
  have hd := h.wellFormed.nodup_names
  refine ⟨hd, aligned_header r, fun i f hf => ?_⟩
  refine ⟨_, Header.column_name hd hf, Header.resolve_eq_ok.mpr ?_⟩
  exact (owned_header r).lookup_name hd hf

/-- The pairs can name a column that they have renamed. -/
theorem nestedPairs_column_resolves : nestedPairs.Valid ∧ ∃ ref,
    nestedPairs.header.column "id_right" = .ok (.column ref .int64) ∧
      nestedPairs.header.resolve ref = .ok 1 :=
  ⟨valid_nestedPairs, valid_nestedPairs.column_resolves.2.2 1 ⟨"id_right", .int64, false⟩ rfl⟩

end Relation

end PlanSql
