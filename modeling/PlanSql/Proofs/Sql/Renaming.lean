import PlanSql.Proofs.Sql.Substitution

/-!
# Statements under other aliases

The aliases of the derived tables and the joined tables in a FROM clause are renamed one to one,
together with the qualifiers of the statement's columns; the statements in derived tables have
renamings of their own. A table that stands alone keeps its alias.
-/
namespace PlanSql.Sql

namespace SelectOver

variable {F G H : Type}

/-- The statement with its expressions changed, over another source. -/
def map (g : Expr → Expr) (source : G) (s : SelectOver F) : SelectOver G where
  distinct := s.distinct
  projection := s.projection.map (List.map (Named.map g))
  source := source
  selection := s.selection.map g
  groupBy := s.groupBy.map g
  having := s.having.map g
  qualify := s.qualify.map g
  orderBy := s.orderBy.map (SortKey.map g)
  limit := s.limit
  offset := s.offset

theorem map_id (s : SelectOver F) : s.map id s.source = s := by
  simp [map]

theorem map_map (f g : Expr → Expr) (source : G) (source' : H) (s : SelectOver F) :
    (s.map f source).map g source' = s.map (g ∘ f) source' := by
  simp [map, Named.map_comp, SortKey.map_comp, List.map_comp_map]

end SelectOver

namespace FromItem

/-- The renaming leaves the alias of a table that stands alone as it is. -/
def Fixes (ρ : Equiv.Perm String) : FromItem → Prop
  | .table _ _ => ρ = 1
  | .derived _ _ | .join _ _ _ _ => True

/-- A source with its aliases renamed, and the aliases within its derived tables. -/
inductive Renamed : Equiv.Perm String → FromItem → FromItem → Prop
  | table (ρ : Equiv.Perm String) (name : String) (aliasName : Option String) :
      Renamed ρ (.table name aliasName) (.table name (aliasName.map ρ))
  | derived (ρ : Equiv.Perm String) {σ : Equiv.Perm String} {s : Select} {source : FromItem}
      (aliasName : String) (h : Renamed σ s.source source) (hf : s.source.Fixes σ) :
      Renamed ρ (.derived s aliasName) (.derived (s.map (Expr.requalify σ) source) (ρ aliasName))
  | join {ρ : Equiv.Perm String} {left right left' right' : FromItem} (op : JoinOp)
      (on : List Expr) (hl : Renamed ρ left left') (hr : Renamed ρ right right') :
      Renamed ρ (.join left right op on) (.join left' right' op (on.map (Expr.requalify ρ)))

theorem fixes_one (x : FromItem) : x.Fixes 1 := by
  cases x <;> trivial

theorem Fixes.mul {ρ σ : Equiv.Perm String} {x y : FromItem} (hx : x.Fixes ρ)
    (h : x.Renamed ρ y) (hy : y.Fixes σ) : x.Fixes (σ * ρ) := by
  cases h with
  | table =>
    obtain rfl : ρ = 1 := hx
    obtain rfl : σ = 1 := hy
    rfl
  | derived | join => trivial

theorem Fixes.inv {ρ : Equiv.Perm String} {x y : FromItem} (hx : x.Fixes ρ)
    (h : x.Renamed ρ y) : y.Fixes ρ⁻¹ := by
  cases h with
  | table =>
    obtain rfl : ρ = 1 := hx
    exact inv_one
  | derived | join => trivial

theorem Renamed.refl : ∀ x : FromItem, x.Renamed 1 x
  | .table name aliasName => by simpa using table 1 name aliasName
  | .derived s aliasName => by
    simpa [SelectOver.map_id] using
      derived 1 aliasName (Renamed.refl s.source) (fixes_one s.source)
  | .join left right op on => by
    simpa using join op on (Renamed.refl left) (Renamed.refl right)

theorem Renamed.symm {ρ : Equiv.Perm String} {x y : FromItem} (h : x.Renamed ρ y) :
    y.Renamed ρ⁻¹ x := by
  induction h with
  | table ρ name aliasName =>
    simpa [Function.comp_def] using table ρ⁻¹ name (aliasName.map ρ)
  | @derived ρ σ s source aliasName h hf ih =>
    have hs := derived (s := s.map (Expr.requalify σ) source) ρ⁻¹ (ρ aliasName) ih (hf.inv h)
    simpa [SelectOver.map_map, Expr.requalify_comp, SelectOver.map_id] using hs
  | @join ρ left right left' right' op on _ _ ihl ihr =>
    simpa [Expr.requalify_comp] using join op (on.map (Expr.requalify ρ)) ihl ihr

theorem Renamed.trans {ρ : Equiv.Perm String} {x y : FromItem} (h : x.Renamed ρ y) :
    ∀ {τ : Equiv.Perm String} {z : FromItem}, y.Renamed τ z → x.Renamed (τ * ρ) z := by
  induction h with
  | table ρ name aliasName =>
    intro τ z hz
    cases hz
    simpa [Function.comp_def] using table (τ * ρ) name aliasName
  | @derived ρ σ s source aliasName h hf ih =>
    intro τ z hz
    cases hz with
    | @derived _ υ _ source' _ h' hf' =>
      have hs := derived (τ * ρ) aliasName (ih h') (hf.mul h hf')
      simpa [SelectOver.map_map, Expr.requalify_comp] using hs
  | @join ρ left right left' right' op on _ _ ihl ihr =>
    intro τ z hz
    cases hz with
    | join _ _ hl hr =>
      simpa [Expr.requalify_comp] using join op on (ihl hl) (ihr hr)

end FromItem

/-- Two aliases are renamed to any two, if these are different where those are. -/
theorem exists_renaming {a b a' b' : String} (h : a ≠ b) (h' : a' ≠ b') :
    ∃ π : Equiv.Perm String, π a = a' ∧ π b = b' := by
  have hb : Equiv.swap a a' b ≠ a' := by
    rw [Ne, Equiv.swap_apply_eq_iff, Equiv.swap_apply_right]
    exact h.symm
  refine ⟨Equiv.swap (Equiv.swap a a' b) b' * Equiv.swap a a', ?_, ?_⟩
  · rw [Equiv.Perm.mul_apply, Equiv.swap_apply_left, Equiv.swap_apply_of_ne_of_ne hb.symm h']
  · rw [Equiv.Perm.mul_apply, Equiv.swap_apply_left]

namespace Select

/-- Whether a statement is a bare table does not depend on aliases. -/
theorem bareTable?_map {ρ : Equiv.Perm String} {s : Select} {source : FromItem}
    (h : s.source.Renamed ρ source) (g : Expr → Expr) :
    Select.bareTable? (s.map g source) = s.bareTable? := by
  unfold bareTable?
  generalize s.source = x at h
  cases h with
  | table =>
    simp only [SelectOver.map, SelectOver.isLimited, Option.isNone_map, List.isEmpty_map]
    rfl
  | derived | join => rfl

/-- The same statement under other aliases of derived tables and joined tables: in the FROM clause
of every SELECT they are renamed one to one, and the columns of the SELECT with them. -/
def Renamed (s s' : Select) : Prop :=
  ∃ ρ source, s.source.Renamed ρ source ∧ s.source.Fixes ρ ∧
    s' = s.map (Expr.requalify ρ) source

theorem Renamed.symm {s s' : Select} (h : s.Renamed s') : s'.Renamed s := by
  obtain ⟨ρ, source, hr, hf, rfl⟩ := h
  refine ⟨ρ⁻¹, s.source, hr.symm, hf.inv hr, ?_⟩
  simp [SelectOver.map_map, Expr.requalify_comp, SelectOver.map_id]

theorem Renamed.trans {s s' s'' : Select} (h : s.Renamed s') (h' : s'.Renamed s'') :
    s.Renamed s'' := by
  obtain ⟨ρ, source, hr, hf, rfl⟩ := h
  obtain ⟨τ, source', hr', hf', rfl⟩ := h'
  refine ⟨τ * ρ, source', hr.trans hr', hf.mul hr hf', ?_⟩
  rw [SelectOver.map_map, Expr.requalify_comp]

end Select

end PlanSql.Sql
