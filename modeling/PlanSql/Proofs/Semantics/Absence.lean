import PlanSql.Proofs.Semantics.BagPreservation

/-!
# Columns that always have a value

A column that a table declares without absent values has a value in every row, and an operator that
passes the column on with its flag passes its values on: projections and aggregations forget the
flag, all other operators keep it. An outer join keeps it as well, although absent values stand for
the columns of a side where a row of the other side has no match; so the flag says the truth except
below such a join.
-/
namespace PlanSql

namespace Relation

/-- Whether absent values may stand for the column at a position: it comes from a side of an outer
join whose rows need not have a match. -/
def isPadded : Relation → Nat → Bool
  | .join _ left right kind _, i =>
    if i < left.schema.length then kind.keepsRight || left.isPadded i
    else kind.keepsLeft || right.isPadded (i - left.schema.length)
  | .filter _ input _, i | .sort _ input _, i | .limit _ input _ _, i | .window _ input _, i
  | .distinct _ input, i => input.isPadded i
  | .table _ _ _ _, _ | .project _ _ _, _ | .aggregate _ _ _ _ _, _ => false

section

variable {V : Type}

/-- The tables of a relation have a value in every column that is declared without absent values. -/
def FillsDeclared (r : Relation) (M : Meaning V) (db : Database V) : Prop :=
  ∀ n ∈ r.nodes, ∀ id name aliasName fields, n = .table id name aliasName fields →
    ∀ row ∈ (db name).rows, ∀ i field, fields[i]? = some field → field.nullable = false →
      M.cell row i ≠ M.null

variable {r n : Relation} {M : Meaning V} {db : Database V}

theorem Declares.node (h : r.Declares db) (hn : n ∈ r.nodes) : n.Declares db :=
  fun m hm => h m (mem_nodes_trans hn hm)

theorem Declares.input (h : r.Declares db) (hi : n ∈ r.inputs) : n.Declares db :=
  h.node (mem_nodes_of_input hi (mem_nodes_self n))

theorem FillsDeclared.node (h : r.FillsDeclared M db) (hn : n ∈ r.nodes) : n.FillsDeclared M db :=
  fun m hm => h m (mem_nodes_trans hn hm)

theorem FillsDeclared.input (h : r.FillsDeclared M db) (hi : n ∈ r.inputs) :
    n.FillsDeclared M db :=
  h.node (mem_nodes_of_input hi (mem_nodes_self n))

theorem mem_of_mem_limited {count : Option Nat} {offset : Nat} {rows : Multiset (List V)}
    {row : List V} (h : row ∈ limited count offset rows) : row ∈ rows :=
  Multiset.mem_toList.mp (mem_of_mem_cut (Multiset.mem_coe.mp h))

/-- A column of a join has the flag of the column of the side that it comes from. -/
theorem joinFields_getElem? {left right : Schema} {i : Nat} {field : Field}
    (h : (joinFields left right)[i]? = some field) :
    (i < left.length ∧ left[i]? = some field) ∨
      ∃ j f, i = left.length + j ∧ right[j]? = some f ∧ f.nullable = field.nullable := by
  unfold joinFields at h
  by_cases hi : i < left.length
  · rw [List.getElem?_append_left hi] at h
    exact .inl ⟨hi, h⟩
  · rw [List.getElem?_append_right (Nat.not_lt.mp hi), List.getElem?_map,
      Option.map_eq_some_iff] at h
    obtain ⟨f, hf, rfl⟩ := h
    exact .inr ⟨i - left.length, f, by omega, hf, by split <;> rfl⟩

end

variable {V : Type} [DecidableEq V] {M : Meaning V} {db : Database V}

/-- A row has a value, present or absent, for each column. -/
theorem length_of_mem_bag {r : Relation} (h : r.Declares db) {row : List V}
    (hrow : row ∈ r.bag M db) : row.length = r.schema.length := by
  induction r generalizing row with
  | table id name aliasName fields =>
    have hcols : (db name).columns = fields.names := h _ (mem_nodes_self _) _ _ _ _ rfl
    have hlen := (db name).shaped row hrow
    rw [hcols] at hlen
    simpa [schema, header, Schema.names] using hlen
  | project id input exprs ih =>
    obtain ⟨x, -, rfl⟩ := Multiset.mem_map.mp hrow
    simp [schema, header]
  | aggregate id input keys metrics having ih =>
    obtain ⟨x, -, rfl⟩ := Multiset.mem_map.mp hrow
    simp [schema, header]
  | window id input exprs ih =>
    obtain ⟨x, hx, rfl⟩ := Multiset.mem_map.mp hrow
    simpa [schema, header] using ih (h.input (by simp [inputs])) hx
  | join id left right kind cs ihl ihr =>
    have hl := h.input (n := left) (by simp [inputs])
    have hr := h.input (n := right) (by simp [inputs])
    exact (Meaning.length_of_mem_joined (fun _ => ihl hl) (fun _ => ihr hr) hrow).trans
      (by simp [schema, header])
  | filter id input cs ih =>
    exact ih (h.input (by simp [inputs])) (Multiset.mem_filter.mp hrow).1
  | sort id input keys ih => exact ih (h.input (by simp [inputs])) hrow
  | limit id input count offset ih =>
    exact ih (h.input (by simp [inputs])) (mem_of_mem_limited hrow)
  | distinct id input ih => exact ih (h.input (by simp [inputs])) (Multiset.mem_dedup.mp hrow)

/-- Neither matching nor keeping the rows of the other side makes a value absent. -/
theorem cell_ne_null_of_join {id : NodeId} {left right : Relation} {kind : JoinKind}
    {cs : List Expr} (hdl : left.Declares db)
    (hl : ∀ row ∈ left.bag M db, ∀ i field, left.schema[i]? = some field →
      field.nullable = false → left.isPadded i = false → M.cell row i ≠ M.null)
    (hr : ∀ row ∈ right.bag M db, ∀ i field, right.schema[i]? = some field →
      field.nullable = false → right.isPadded i = false → M.cell row i ≠ M.null)
    {row : List V} (hrow : row ∈ (Relation.join id left right kind cs).bag M db) {i : Nat}
    {field : Field} (hi : (Relation.join id left right kind cs).schema[i]? = some field)
    (hn : field.nullable = false)
    (hp : (Relation.join id left right kind cs).isPadded i = false) :
    M.cell row i ≠ M.null := by
  rcases joinFields_getElem? hi with ⟨hlt, hi⟩ | ⟨j, f, rfl, hj, hfn⟩
  · have hp : kind.keepsRight = false ∧ left.isPadded i = false := by
      simpa [isPadded, show i < left.schema.length from hlt] using hp
    have hside : ∀ l ∈ left.bag M db, ∀ other, M.cell (l ++ other) i ≠ M.null := by
      intro l hlm other
      rw [M.cell_append_left (by rw [length_of_mem_bag hdl hlm]; exact hlt)]
      exact hl l hlm i field hi hn hp.2
    rcases Meaning.mem_joined.mp hrow with
      ⟨l, hlm, r, -, -, rfl⟩ | ⟨-, l, hlm, -, rfl⟩ | ⟨hk, -⟩
    · exact hside l hlm r
    · exact hside l hlm _
    · exact absurd (hp.1.symm.trans hk) (by simp)
  · have hp : kind.keepsLeft = false ∧ right.isPadded j = false := by
      have hge : ¬ left.header.fields.length + j < left.schema.length := by simp [schema]
      unfold isPadded at hp
      rw [if_neg hge] at hp
      simpa [schema] using hp
    have hside : ∀ r ∈ right.bag M db, ∀ other : List V, other.length = left.schema.length →
        M.cell (other ++ r) (left.schema.length + j) ≠ M.null := by
      intro r hrm other hlen
      rw [M.cell_append_right hlen]
      exact hr r hrm j f hj (hfn.trans hn) hp.2
    rcases Meaning.mem_joined.mp hrow with
      ⟨l, hlm, r, hrm, -, rfl⟩ | ⟨hk, -⟩ | ⟨-, r, hrm, -, rfl⟩
    · exact hside r hrm l (length_of_mem_bag hdl hlm)
    · exact absurd (hp.1.symm.trans hk) (by simp)
    · exact hside r hrm _ List.length_replicate

/-- Columns that projections, aggregations and windows compute are not marked. -/
theorem nullable_of_getElem? {exprs : List NamedExpr} {i : Nat} {field : Field}
    (h : (exprs.map NamedExpr.field)[i]? = some field) : field.nullable = true := by
  obtain ⟨n, -, rfl⟩ := List.mem_map.mp (List.mem_of_getElem? h)
  rfl

theorem cell_ne_null {r : Relation} (h : r.Declares db) (hf : r.FillsDeclared M db) {row : List V}
    (hrow : row ∈ r.bag M db) {i : Nat} {field : Field} (hi : r.schema[i]? = some field)
    (hn : field.nullable = false) (hp : r.isPadded i = false) : M.cell row i ≠ M.null := by
  induction r generalizing row i field with
  | table id name aliasName fields =>
    exact hf _ (mem_nodes_self _) _ _ _ _ rfl row hrow i field hi hn
  | project id input exprs ih =>
    exact absurd ((nullable_of_getElem? hi).symm.trans hn) (by simp)
  | aggregate id input keys metrics having ih =>
    exact absurd ((nullable_of_getElem? hi).symm.trans hn) (by simp)
  | window id input exprs ih =>
    obtain ⟨x, hx, rfl⟩ := Multiset.mem_map.mp hrow
    have hd := h.input (n := input) (by simp [inputs])
    have hi : (input.schema ++ exprs.map NamedExpr.field)[i]? = some field := hi
    by_cases hlt : i < input.schema.length
    · rw [List.getElem?_append_left hlt] at hi
      rw [M.cell_append_left (by rwa [length_of_mem_bag hd hx])]
      exact ih hd (hf.input (by simp [inputs])) hx hi hn hp
    · rw [List.getElem?_append_right (Nat.not_lt.mp hlt)] at hi
      exact absurd ((nullable_of_getElem? hi).symm.trans hn) (by simp)
  | join id left right kind cs ihl ihr =>
    have hdl := h.input (n := left) (by simp [inputs])
    have hdr := h.input (n := right) (by simp [inputs])
    exact cell_ne_null_of_join hdl
      (fun row hrow i field => ihl hdl (hf.input (by simp [inputs])) hrow)
      (fun row hrow i field => ihr hdr (hf.input (by simp [inputs])) hrow) hrow hi hn hp
  | filter id input cs ih =>
    exact ih (h.input (by simp [inputs])) (hf.input (by simp [inputs]))
      (Multiset.mem_filter.mp hrow).1 hi hn hp
  | sort id input keys ih =>
    exact ih (h.input (by simp [inputs])) (hf.input (by simp [inputs])) hrow hi hn hp
  | limit id input count offset ih =>
    exact ih (h.input (by simp [inputs])) (hf.input (by simp [inputs]))
      (mem_of_mem_limited hrow) hi hn hp
  | distinct id input ih =>
    exact ih (h.input (by simp [inputs])) (hf.input (by simp [inputs]))
      (Multiset.mem_dedup.mp hrow) hi hn hp

/-- In every relation of a plan over tables that hold what they declare, a column that is marked as
having no absent values has a value in every row, unless an outer join may have filled it up. -/
theorem not_nullable_sound {r : Relation} (hd : r.Declares db) (hf : r.FillsDeclared M db)
    {n : Relation} (hn : n ∈ r.nodes) {i : Nat} {field : Field} (hi : n.schema[i]? = some field)
    (hmark : field.nullable = false) (hp : n.isPadded i = false) :
    ∀ row ∈ n.bag M db, M.cell row i ≠ M.null :=
  fun _ hrow => cell_ne_null (hd.node hn) (hf.node hn) hrow hi hmark hp

theorem cell_pairingTables {name : String} {row : List Value} (hrow : row ∈ (pairingTables name).rows)
    (M : Meaning Value) (hM : M.null = .null) : M.cell row 0 ≠ M.null := by
  have hrow : row = [.int 1] ∨ row = [.int 2] := by
    unfold pairingTables at hrow
    split at hrow
    · simpa using hrow
    · exact .inr (by simpa using hrow)
  rcases hrow with rfl | rfl <;> simp [Meaning.cell, hM]

/-- Two tables of one column each, neither with absent values, and all rows of the first one. -/
def keptRows : Relation :=
  .join 2 (.table 0 "a" none [⟨"x", .int64, false⟩]) (.table 1 "b" none [⟨"y", .int64, false⟩]) .left
    [.binary .eq (.column ⟨none, "x"⟩ .int64) (.column ⟨some "b", "y"⟩ .int64)]

theorem valid_keptRows : keptRows.Valid := by
  have ha : scan 0 "a" none [⟨"x", .int64, false⟩] = .ok _ := rfl
  have hb : scan 1 "b" none [⟨"y", .int64, false⟩] = .ok _ := rfl
  have he : Expr.applyBinary .eq (.column ⟨none, "x"⟩ .int64)
      (.column ⟨some "b", "y"⟩ .int64) = .ok _ := rfl
  have hj : joinWith 2 (.table 0 "a" none [⟨"x", .int64, false⟩])
      (.table 1 "b" none [⟨"y", .int64, false⟩]) .left
      [.binary .eq (.column ⟨none, "x"⟩ .int64) (.column ⟨some "b", "y"⟩ .int64)] =
      .ok keptRows := rfl
  refine ⟨_, .call (.call (.call .start (.scan ha) (by simp)) (.scan hb) (by simp [id]))
    (.joinWith (by simp) (by simp) ?_ hj) (by simp [id, keptRows]), List.mem_cons_self⟩
  simpa using .binary (.column _ _) (.column _ _) he

theorem declares_keptRows : keptRows.Declares pairingTables := by
  intro n hn id name aliasName fields he
  simp only [keptRows, nodes, List.mem_cons, List.mem_append, List.not_mem_nil, or_false] at hn
  rcases hn with rfl | rfl | rfl <;> cases he <;> rfl

theorem fillsDeclared_keptRows :
    keptRows.FillsDeclared (.ofSql .constants .comparing .mysql) pairingTables := by
  intro n hn id name aliasName fields he row hrow i field hi _
  have hi : i = 0 := by
    simp only [keptRows, nodes, List.mem_cons, List.mem_append, List.not_mem_nil, or_false] at hn
    rcases hn with rfl | rfl | rfl <;> cases he <;> cases i <;> simp_all
  rw [hi]
  exact cell_pairingTables hrow _ rfl

/-- The rows of the first table are kept as they are. -/
theorem keptRows_not_nullable_sound :
    keptRows.schema[0]? = some ⟨"x", .int64, false⟩ ∧
      ∀ row ∈ keptRows.bag (.ofSql .constants .comparing .mysql) pairingTables,
        Meaning.cell (.ofSql .constants .comparing .mysql) row 0 ≠ .null :=
  ⟨rfl, not_nullable_sound declares_keptRows fillsDeclared_keptRows (mem_nodes_self _) (i := 0)
    rfl rfl rfl⟩

/-- The column of the second table is still marked, and has no value in a row without a partner. -/
theorem null_in_marked_column : keptRows.Valid ∧ keptRows.Declares pairingTables ∧
    keptRows.FillsDeclared (.ofSql .constants .comparing .mysql) pairingTables ∧
    keptRows.schema[1]? = some ⟨"y", .int64, false⟩ ∧
    ∃ row ∈ keptRows.bag (.ofSql .constants .comparing .mysql) pairingTables,
      row[1]? = some (Meaning.ofSql .constants .comparing .mysql).null := by
  refine ⟨valid_keptRows, declares_keptRows, fillsDeclared_keptRows, rfl, [.int 1, .null], ?_, rfl⟩
  refine Meaning.mem_joined.mpr (.inr (.inl ⟨rfl, [.int 1], ?_, ?_, rfl⟩))
  · exact List.mem_cons_self
  · intro row hrow
    obtain rfl : row = [.int 2] := List.mem_singleton.mp hrow
    rfl

end Relation

end PlanSql
