import PlanSql.Proofs.Semantics.Bag

/-!
# How clauses act on bags

What a change of one clause does to the rows of a statement, how the groups of rows correspond to
the groups of what the rows stand for, and what joins depend on.
-/
namespace PlanSql

variable {V : Type} {M : Meaning V}

section Joins

variable {keepLeft keepRight : Bool} {on on' : List V → List V → Bool} {m n : Nat}
  {left right : Multiset (List V)}

theorem Meaning.joined_congr (h : ∀ l ∈ left, ∀ r ∈ right, on l r = on' l r) :
    M.joined keepLeft keepRight on m n left right =
      M.joined keepLeft keepRight on' m n left right := by
  have hpairs : (left ×ˢ right).filter (fun pair => on pair.1 pair.2) =
      (left ×ˢ right).filter fun pair => on' pair.1 pair.2 := by
    apply Multiset.filter_congr
    intro pair hp
    obtain ⟨hl, hr⟩ := Multiset.mem_product.mp hp
    rw [h pair.1 hl pair.2 hr]
  have halone : left.filter (fun l => ∀ r ∈ right, on l r = false) =
      left.filter fun l => ∀ r ∈ right, on' l r = false :=
    Multiset.filter_congr fun l hl => forall₂_congr fun r hr => by rw [h l hl r hr]
  have hothers : right.filter (fun r => ∀ l ∈ left, on l r = false) =
      right.filter fun r => ∀ l ∈ left, on' l r = false :=
    Multiset.filter_congr fun r hr => forall₂_congr fun l hl => by rw [h l hl r hr]
  unfold joined
  simp only [hpairs, halone, hothers]

/-- A joined row is a pair that matches, or a row without a match that is kept and filled up. -/
theorem Meaning.mem_joined {row : List V} :
    row ∈ M.joined keepLeft keepRight on m n left right ↔
      (∃ l ∈ left, ∃ r ∈ right, on l r = true ∧ l ++ r = row) ∨
      (keepLeft = true ∧ ∃ l ∈ left, (∀ r ∈ right, on l r = false) ∧
        l ++ List.replicate n M.null = row) ∨
      (keepRight = true ∧ ∃ r ∈ right, (∀ l ∈ left, on l r = false) ∧
        List.replicate m M.null ++ r = row) := by
  unfold joined
  rw [Multiset.mem_add, Multiset.mem_add, or_assoc]
  refine or_congr ?_ (or_congr ?_ ?_)
  · simp only [Multiset.mem_map, Multiset.mem_filter, Multiset.mem_product, Prod.exists]
    constructor
    · rintro ⟨l, r, ⟨⟨hl, hr⟩, hon⟩, he⟩
      exact ⟨l, hl, r, hr, hon, he⟩
    · rintro ⟨l, hl, r, hr, hon, he⟩
      exact ⟨l, r, ⟨⟨hl, hr⟩, hon⟩, he⟩
  · cases keepLeft <;> simp [and_assoc]
  · cases keepRight <;> simp [and_assoc]

theorem Meaning.length_of_mem_joined (hl : ∀ l ∈ left, l.length = m)
    (hr : ∀ r ∈ right, r.length = n) {row : List V}
    (h : row ∈ M.joined keepLeft keepRight on m n left right) : row.length = m + n := by
  rcases mem_joined.mp h with ⟨l, hlm, r, hrm, -, rfl⟩ | ⟨-, l, hlm, -, rfl⟩ | ⟨-, r, hrm, -, rfl⟩
  · rw [List.length_append, hl l hlm, hr r hrm]
  · rw [List.length_append, hl l hlm, List.length_replicate]
  · rw [List.length_append, hr r hrm, List.length_replicate]

end Joins

variable [DecidableEq V]

section Groups

variable {ε ε' : Type}

/-- The rows agree on the keys, and there are some, unless there are no keys. -/
def IsGroup (keys : List ε) (key : ε → List V → V) (rows : Multiset (List V)) : Prop :=
  (keys ≠ [] → rows ≠ 0) ∧ ∀ y ∈ rows, ∀ z ∈ rows, ∀ k ∈ keys, key k y = key k z

/-- Rows that stand for others, with the same keys, are in corresponding groups. -/
theorem groups_map {keys : List ε} {keys' : List ε'} (key : ε → List V → V)
    (key' : ε' → List V → V) (f : List V → List V) {rows : Multiset (List V)}
    (hk : ∀ row ∈ rows, keys'.map (key' · (f row)) = keys.map (key · row))
    (he : keys'.isEmpty = keys.isEmpty) :
    ∃ gs : Multiset (Multiset (List V)), groups keys key rows = gs.map .ofGroup ∧
      groups keys' key' (rows.map f) = gs.map (fun g => .ofGroup (g.map f)) ∧
      ∀ g ∈ gs, IsGroup keys key g ∧ g ≤ rows := by
  let found : Multiset (List V) :=
    if keys.isEmpty then {[]} else (rows.map fun row => keys.map (key · row)).dedup
  refine ⟨found.map fun k => rows.filter fun row => keys.map (key · row) = k, ?_, ?_, ?_⟩
  · rw [Multiset.map_map]
    rfl
  · have hmap : (rows.map f).map (fun row => keys'.map (key' · row)) =
        rows.map fun row => keys.map (key · row) := by
      rw [Multiset.map_map]
      exact Multiset.map_congr rfl hk
    have hfound : (if keys'.isEmpty then {[]} else
        ((rows.map f).map fun row => keys'.map (key' · row)).dedup) = found := by
      rw [he, hmap]
    have hgroup : ∀ k, (rows.map f).filter (fun row => keys'.map (key' · row) = k) =
        (rows.filter fun row => keys.map (key · row) = k).map f := by
      intro k
      rw [Multiset.filter_map]
      refine congrArg (Multiset.map f) (Multiset.filter_congr fun row hrow => ?_)
      rw [Function.comp_apply, hk row hrow]
    simp only [groups]
    rw [hfound, Multiset.map_map]
    apply Multiset.map_congr rfl
    intro k _
    rw [hgroup, Function.comp_apply]
  · intro g hg
    obtain ⟨k, hkf, rfl⟩ := Multiset.mem_map.mp hg
    refine ⟨⟨fun hne => ?_, fun y hy z hz e he => ?_⟩, Multiset.filter_le _ _⟩
    · have hne : keys.isEmpty = false := by simpa using hne
      simp only [found, hne, Bool.false_eq_true, if_false, Multiset.mem_dedup,
        Multiset.mem_map] at hkf
      obtain ⟨row, hrow, hkey⟩ := hkf
      exact fun h0 => Multiset.filter_eq_nil.mp h0 row hrow hkey
    · have hyz := (Multiset.mem_filter.mp hy).2.trans (Multiset.mem_filter.mp hz).2.symm
      exact List.map_inj_left.mp hyz e he

omit [DecidableEq V] in
/-- A group that has rows is represented by one of them. -/
theorem Focus.row_mem_ofGroup {group : Multiset (List V)} (h : group ≠ 0) :
    (Focus.ofGroup group).row ∈ group := by
  have hne : group.toList ≠ [] := by simpa [Multiset.toList_eq_nil] using h
  cases hl : group.toList with
  | nil => exact absurd hl hne
  | cons row rest =>
    have hmem : row ∈ group := Multiset.mem_toList.mp (by simp [hl])
    simpa only [Focus.ofGroup, hl, List.headD_cons] using hmem

end Groups

namespace Sql.SelectOver

variable {F : Type} {s s' : SelectOver F} {source : Yield (Multiset (List V))}

theorem shown_congr (hw : s'.selection = s.selection) (hk : s'.groupBy = s.groupBy)
    (hh : s'.having = s.having) (hg : s'.isGrouped = s.isGrouped) :
    s'.shown M source = s.shown M source := by
  unfold shown selected
  rw [hw, hk, hh, hg]

theorem qualified_congr (hs : s'.shown M source = s.shown M source)
    (hq : s'.qualify = s.qualify) : s'.qualified M source = s.qualified M source := by
  unfold qualified
  rw [hs, hq]

/-- A statement without groups shows its rows one by one. -/
theorem shown_of_not_grouped (hg : s.isGrouped = false) (hh : s.having = []) :
    s.shown M source = (s.selected M source).map .single := by
  simp [shown, hg, hh, Meaning.allHold]

theorem shown_of_grouped (hg : s.isGrouped = true) : s.shown M source =
    (groups s.groupBy (fun e row => source.value M 0 (.single row) e) (s.selected M source)).filter
      fun x => M.allHold (source.value M 0 x) s.having := by
  simp [shown, hg]

theorem qualified_of_nil (hq : s.qualify = []) :
    s.qualified M source = s.shown M source := by
  simp [qualified, hq, Meaning.allHold]

theorem selected_append {cs : List Expr} (hw : s'.selection = s.selection ++ cs) :
    s'.selected M source = (s.selected M source).filter fun row =>
      M.allHold (source.value M 0 (.single row)) cs := by
  unfold selected
  rw [hw, Multiset.filter_filter]
  apply Multiset.filter_congr
  intro row _
  rw [Meaning.allHold_append, Bool.and_eq_true, and_comm]

theorem shown_append {cs : List Expr} (hw : s'.selection = s.selection)
    (hk : s'.groupBy = s.groupBy) (hg : s'.isGrouped = s.isGrouped)
    (hh : s'.having = s.having ++ cs) : s'.shown M source =
      (s.shown M source).filter fun x => M.allHold (source.value M 0 x) cs := by
  unfold shown selected
  rw [hw, hk, hg, hh, Multiset.filter_filter]
  apply Multiset.filter_congr
  intro x _
  rw [Meaning.allHold_append, Bool.and_eq_true, and_comm]

theorem qualified_append {cs : List Expr} (hs : s'.shown M source = s.shown M source)
    (hq : s'.qualify = s.qualify ++ cs) : s'.qualified M source =
      (s.qualified M source).filter fun x =>
        M.allHold (source.value M (s.shown M source) x) cs := by
  unfold qualified
  rw [hs, hq, Multiset.filter_filter]
  apply Multiset.filter_congr
  intro x _
  rw [Meaning.allHold_append, Bool.and_eq_true, and_comm]

/-- The rows of a statement depend on the expressions of its items, not on their names. -/
theorem bagOver_projection {p : Option (List SelectItem)}
    (he : { s with projection := p }.expressions = s.expressions)
    (ho : ∀ (row : List V) (v : Expr → V),
      { s with projection := p }.output row v = s.output row v) :
    { s with projection := p }.bagOver M source = s.bagOver M source := by
  have hg : { s with projection := p }.isGrouped = s.isGrouped := by
    unfold isGrouped
    rw [he]
  have hs : { s with projection := p }.shown M source = s.shown M source :=
    shown_congr rfl rfl rfl hg
  unfold bagOver
  simp only [qualified_congr (M := M) hs rfl, hs, ho]

end Sql.SelectOver

omit [DecidableEq V] in
theorem limited_none (rows : Multiset (List V)) : limited none 0 rows = rows := by
  simp [limited]

/-- The rows of a source where no clause does anything. -/
theorem Sql.SelectOver.qualified_of_source {F : Type} {s : SelectOver F}
    {source : Yield (Multiset (List V))} (hg : s.isGrouped = false) (hw : s.selection = [])
    (hh : s.having = []) (hq : s.qualify = []) :
    s.qualified M source = source.rows.map .single := by
  rw [qualified_of_nil hq, shown_of_not_grouped hg hh]
  simp [selected, hw, Meaning.allHold]

/-- A derived table has the rows of its statement. -/
theorem Sql.FromItem.yield_derived (db : Database V) (s : Select) (itemAlias : String) :
    (FromItem.derived s itemAlias).yield M db =
      ⟨s.labels itemAlias (s.source.yield M db).labels, s.bag M db⟩ := by
  cases s
  rfl

end PlanSql
