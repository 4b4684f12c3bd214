import PlanSql.Proofs.Fragment.OperatorClauses
import PlanSql.Proofs.Sql.Statements

/-!
# What holds everywhere in a statement

A statement that a relation becomes is made of columns and of what expressions become over columns.
What is true of every column and of every node that lowering puts on top of others is therefore true
of all parts of all expressions of the statement, at every depth.
-/
namespace PlanSql

/-- Columns satisfy a property, and whatever lowering makes of parts that satisfy it. -/
structure Target.Permits (t : Target) (Q : Sql.Expr → Prop) : Prop where
  column : ∀ q name, Q (.column q name)
  lower : ∀ scope e, Expr.Admits t scope e Q

namespace Fragment

variable {t : Target} {Q : Sql.Expr → Prop} {header : Header} {f g : Fragment}

/-- A property of all parts of the expressions and columns of a fragment. -/
structure Everywhere (Q : Sql.Expr → Prop) (f : Fragment) : Prop where
  columns : ∀ c ∈ f.columns, ∀ p ∈ c.expr.parts, Q p
  own : ∀ e ∈ f.select.expressions, ∀ p ∈ e.parts, Q p
  source : ∀ e ∈ f.select.source.expressions, ∀ p ∈ e.parts, Q p

theorem forall_parts_column (hQ : t.Permits Q) (q : Option String) (name : String) :
    ∀ p ∈ (Sql.Expr.column q name).parts, Q p := by
  simpa [Sql.Expr.parts] using hQ.column q name

theorem forall_parts_under (hQ : t.Permits Q) (qualifier : Option String)
    (columns : List OutputColumn) :
    ∀ c ∈ columns.map (OutputColumn.under qualifier), ∀ p ∈ c.expr.parts, Q p := by
  exact List.forall_mem_map.mpr fun c _ => forall_parts_column hQ qualifier c.name

theorem everywhere_ofSource {source : Sql.FromItem} {columns : List OutputColumn}
    (hs : ∀ e ∈ source.expressions, ∀ p ∈ e.parts, Q p)
    (hc : ∀ c ∈ columns, ∀ p ∈ c.expr.parts, Q p) : (ofSource source columns).Everywhere Q :=
  ⟨hc, by simp [ofSource, Sql.SelectOver.ofSource, Sql.SelectOver.expressions], hs⟩

theorem everywhere_ofTable (hQ : t.Permits Q) (name : String) (aliasName : Option String)
    (fields : Schema) : (ofTable name aliasName fields).Everywhere Q := by
  refine everywhere_ofSource (by simp [Sql.FromItem.expressions]) ?_
  exact List.forall_mem_map.mpr fun field _ => forall_parts_column hQ none field.name

/-- A column of a join has the SQL of a column of one of its sides. -/
theorem forall_joinColumns {P : Sql.Expr → Prop} (fields : Schema) {columns : List OutputColumn}
    (hc : ∀ c ∈ columns, P c.expr) :
    ∀ x ∈ List.zipWith joinColumn fields columns, P x.1.expr ∧ P x.2.expr := by
  intro x hx
  obtain ⟨field, c, hm, rfl⟩ := mem_joinColumns hx
  exact ⟨hc c hm, hc c hm⟩

namespace Everywhere

variable (h : f.Everywhere Q)
include h

theorem derived (aliasName : String) : ∀ e ∈ (Sql.FromItem.derived f.named aliasName).expressions,
    ∀ p ∈ e.parts, Q p := by
  rw [Sql.FromItem.expressions, expressions_named]
  exact List.forall_mem_append.mpr ⟨h.own, h.source⟩

theorem wrapped (hQ : t.Permits Q) (aliasName : String) : (f.wrapped aliasName).Everywhere Q :=
  everywhere_ofSource (h.derived aliasName) (forall_parts_under hQ none f.columns)

theorem joinSide (aliasName : String) :
    ∀ e ∈ (f.joinSide aliasName).1.expressions, ∀ p ∈ e.parts, Q p := by
  unfold Fragment.joinSide
  cases f.select.bareTable? with
  | some table => simp [Sql.FromItem.expressions]
  | none => exact h.derived aliasName

theorem scope (header : Header) :
    ∀ ref d, (f.scope header).column ref = .ok d → ∀ p ∈ d.parts, Q p :=
  Scope.forall_columns header (P := fun d => ∀ p ∈ d.parts, Q p) h.columns

/-- An operator adds what its expressions become, and columns are all that these can speak of. -/
theorem operate (hQ : t.Permits Q) {r input : Relation} (hin : r.inputs = [input])
    (hg : r.operate t f = .ok g) : g.Everywhere Q := by
  obtain ⟨hc, he⟩ := Relation.forall_expressions_operate (P := fun s => ∀ p ∈ s.parts, Q p) hin hg
    h.columns h.own fun _ _ p _ s hs =>
      (hQ.lower (f.scope input.header) p).lower (fun ref _ => h.scope input.header ref) hs
  refine ⟨hc, he, ?_⟩
  rw [Relation.source_operate hg]
  exact h.source

end Everywhere

theorem Everywhere.join (hQ : t.Permits Q) {l r : Fragment} (hl : l.Everywhere Q)
    (hr : r.Everywhere Q) {op : Sql.JoinOp} {left right : Header} {fields : Schema}
    {cs : List Expr} {a b : String}
    (hg : Fragment.join t op left right fields cs (l.joinSide a) (r.joinSide b) = .ok g) :
    g.Everywhere Q := by
  obtain ⟨on, hon, rfl⟩ := join_eq_ok hg
  have hcols : ∀ c ∈ (l.joinSide a).2 ++ (r.joinSide b).2, ∀ p ∈ c.expr.parts, Q p :=
    List.forall_mem_append.mpr
      ⟨forall_parts_under hQ (some a) l.columns, forall_parts_under hQ (some b) r.columns⟩
  have hpairs := forall_joinColumns (P := fun s => ∀ p ∈ s.parts, Q p) fields hcols
  have hscope := Scope.forall_join left right (P := fun d => ∀ p ∈ d.parts, Q p) hcols
  have hon : ∀ s ∈ on, ∀ p ∈ s.parts, Q p := forall_conditions hon fun _ _ e _ _ hs =>
    (hQ.lower _ e).lower (fun ref _ => hscope ref) hs
  rw [List.unzip_eq_map]
  refine ⟨List.forall_mem_map.mpr fun x hx => (hpairs x hx).2,
    Sql.SelectOver.forall_mem_expressions.mpr
      ⟨List.forall_mem_map.mpr fun x hx => (hpairs x hx).1, by simp [Sql.SelectOver.ofSource]⟩, ?_⟩
  simp only [Sql.SelectOver.ofSource, Sql.FromItem.expressions]
  exact List.forall_mem_append.mpr
    ⟨List.forall_mem_append.mpr ⟨hl.joinSide a, hr.joinSide b⟩, hon⟩

end Fragment

namespace Relation

variable {t : Target} {Q : Sql.Expr → Prop} {r : Relation} {f : Fragment}

theorem Becomes.everywhere (hQ : t.Permits Q) (h : Becomes t r f) : f.Everywhere Q := by
  induction h with
  | table => exact Fragment.everywhere_ofTable hQ _ _ _
  | join _ _ _ _ hg ihl ihr => exact ihl.join hQ ihr hg
  | step hin _ he hg ih =>
    rcases he with ⟨-, rfl⟩ | ⟨-, a, rfl⟩
    · exact ih.operate hQ hin hg
    · exact (ih.wrapped hQ a).operate hQ hin hg

/-- What is permitted holds of all parts of all expressions of a statement. -/
theorem forall_parts_toSelect (hQ : t.Permits Q) (hc : r.Coherent) {s : Sql.Select}
    (hs : r.toSelect t = .ok s) : ∀ e ∈ s.allExpressions, ∀ p ∈ e.parts, Q p := by
  obtain ⟨f, hf, rfl⟩ := toSelect_becomes hc hs
  have heverywhere := hf.everywhere hQ
  exact List.forall_mem_append.mpr ⟨heverywhere.own, heverywhere.source⟩

end Relation

end PlanSql
