import PlanSql.Proofs.Fragment.Sharing

/-!
# Columns traced through a SELECT

The SQL of a column is put together by the operators that share a SELECT. So what can be told of the
SQL of an expression, once it is known of the columns that it speaks of, can be told of every column
by following these operators down to the one that starts the SELECT, where all columns are references.
-/
namespace PlanSql

/-- A test of expressions, given the columns that they speak of and which of these pass it. -/
abbrev Expr.Test := Header → (Nat → Bool) → Expr → Bool

/-- A reference denotes one of the columns that pass. -/
def Header.leadsTo (header : Header) (passes : Nat → Bool) (ref : ColumnRef) : Bool :=
  match header.lookup ref with
  | .found i => passes i
  | _ => false

namespace Relation

/-- The outputs that the operator at the root has expressions for. -/
def outputs : Relation → List NamedExpr
  | .project _ _ exprs | .window _ _ exprs => exprs
  | .aggregate _ _ keys metrics _ => keys ++ metrics
  | .table _ _ _ _ | .filter _ _ _ | .sort _ _ _ | .limit _ _ _ _
  | .join _ _ _ _ _ | .distinct _ _ => []

/-- The columns that pass the test after the operator at the root, given those that it works on. -/
def passesOver (test : Expr.Test) (passes : Nat → Bool) (r : Relation) (i : Nat) : Bool :=
  match r with
  | .table _ _ _ _ | .join _ _ _ _ _ => false
  | .project _ input _ | .aggregate _ input _ _ _ =>
    (r.outputs[i]?).any fun n => test input.header passes n.expr
  | .window _ input _ =>
    if i < input.header.fields.length then passes i
    else (r.outputs[i - input.header.fields.length]?).any fun n =>
      test input.header passes n.expr
  | .filter _ _ _ | .sort _ _ _ | .limit _ _ _ _ | .distinct _ _ => passes i

/-- Whether the column at a position passes the test, in the SELECT of the relation. -/
def passesAt (t : Target) (test : Expr.Test) : Relation → Nat → Bool
  | .table _ _ _ _ | .join _ _ _ _ _ => fun _ => false
  | r@(.project _ input _) | r@(.filter _ input _) | r@(.aggregate _ input _ _ _)
  | r@(.sort _ input _) | r@(.limit _ input _ _) | r@(.window _ input _)
  | r@(.distinct _ input) =>
    r.passesOver test (if r.startsSelect t then fun _ => false else input.passesAt t test)

/-- The columns passing the test among those that the operator at the root works on. -/
def passesBelow (t : Target) (test : Expr.Test) (r input : Relation) : Nat → Bool :=
  if r.startsSelect t then fun _ => false else input.passesAt t test

end Relation

namespace Fragment

/-- A property of SQL holds of the columns at certain positions. -/
def PassesAt (P : Sql.Expr → Bool) (passes : Nat → Bool) (columns : List OutputColumn) : Prop :=
  ∀ i c, columns[i]? = some c → P c.expr = passes i

theorem PassesAt.leadsTo {P : Sql.Expr → Bool} {passes : Nat → Bool} {columns : List OutputColumn}
    (hc : PassesAt P passes columns) {header : Header} {ref : ColumnRef} {s : Sql.Expr}
    (hs : (Scope.columns header columns).column ref = .ok s) :
    P s = header.leadsTo passes ref := by
  obtain ⟨i, c, hi, hcol, rfl⟩ := Scope.columns_eq_ok hs
  rw [Header.leadsTo, hi]
  exact hc i c hcol

theorem passesAt_of_references {P : Sql.Expr → Bool} (hP : ∀ q n, P (.column q n) = false)
    {columns : List OutputColumn} (hc : ∀ c ∈ columns, ∃ q n, c.expr = .column q n) :
    PassesAt P (fun _ => false) columns := by
  intro i c hi
  obtain ⟨q, n, he⟩ := hc c (List.mem_of_getElem? hi)
  rw [he, hP]

end Fragment

open Fragment

/-- The test tells of which outputs a property of SQL holds, for operators that work on a fragment. -/
structure Traces (d : Dialect) (test : Expr.Test) (P : Sql.Expr → Bool) : Prop where
  column : ∀ q n, P (.column q n) = false
  output {r input : Relation} {f : Fragment} {passes : Nat → Bool} : r.Checked →
    r.inputs = [input] → f.Flagged → r.separates (Target.builtin d) f.flags = false →
    f.columns.length = input.header.fields.length → PassesAt P passes f.columns →
    ∀ n ∈ r.outputs, ∀ s, n.expr.lower (Target.builtin d) (f.scope input.header) = .ok s →
      P s = test input.header passes n.expr

namespace Relation

variable {t : Target} {d : Dialect} {test : Expr.Test} {P : Sql.Expr → Bool}
  {passes : Nat → Bool} {r input : Relation} {f f' g : Fragment}

theorem passesAt_of_input (hin : r.inputs = [input]) :
    r.passesAt t test = r.passesOver test (r.passesBelow t test input) := by
  cases r with
  | table | join => simp [inputs] at hin
  | _ =>
    obtain rfl := List.singleton_inj.mp hin
    rfl

theorem passesAt_outputs {header : Header} {exprs : List NamedExpr} {columns : List OutputColumn}
    {scope : Scope} (hcols : List.Forall₂ (ColumnOf t scope) exprs columns)
    (ho : ∀ n ∈ exprs, ∀ s, n.expr.lower t scope = .ok s → P s = test header passes n.expr) :
    PassesAt P (fun i => (exprs[i]?).any fun n => test header passes n.expr) columns := by
  intro i c hc
  obtain ⟨n, hn, hl, -⟩ := forall₂_getElem? hcols.flip hc
  simp only [hn, Option.any_some]
  exact ho n (List.mem_of_getElem? hn) c.expr hl

theorem passesAt_operate (hin : r.inputs = [input])
    (hlen : f.columns.length = input.header.fields.length) (hf : PassesAt P passes f.columns)
    (ho : ∀ n ∈ r.outputs, ∀ s, n.expr.lower t (f.scope input.header) = .ok s →
      P s = test input.header passes n.expr)
    (hg : r.operate t f = .ok g) : PassesAt P (r.passesOver test passes) g.columns := by
  cases r with
  | table | join => simp [inputs] at hin
  | project id i exprs =>
    obtain rfl := List.singleton_inj.mp hin
    obtain ⟨items, columns, hcols, rfl⟩ := project_eq_ok hg
    have hpass : PassesAt P
        (fun j => (exprs[j]?).any fun n => test i.header passes n.expr) columns :=
      passesAt_outputs (outputs_eq_ok hcols).1 ho
    exact hpass
  | aggregate id i keys metrics having =>
    obtain rfl := List.singleton_inj.mp hin
    obtain ⟨_, _, _, _, _, hk, hm, -, rfl⟩ := aggregate_eq_ok hg
    have hpass : PassesAt P (fun j => ((keys ++ metrics)[j]?).any fun n =>
        test i.header passes n.expr) _ :=
      passesAt_outputs (List.rel_append (outputs_eq_ok hk).1 (outputs_eq_ok hm).1) ho
    exact hpass
  | window id i exprs =>
    obtain rfl := List.singleton_inj.mp hin
    obtain ⟨items, columns, hcols, rfl⟩ := window_eq_ok hg
    have hpass : PassesAt P
        (fun j => (exprs[j]?).any fun n => test i.header passes n.expr) columns :=
      passesAt_outputs (outputs_eq_ok hcols).1 ho
    intro j c hc
    by_cases hj : j < i.header.fields.length
    · rw [List.getElem?_append_left (by omega)] at hc
      rw [hf j c hc, passesOver, if_pos hj]
    · rw [List.getElem?_append_right (by omega), hlen] at hc
      rw [passesOver, if_neg hj]
      exact hpass _ c hc
  | filter | sort | limit | distinct =>
    rw [(columns_operate rfl hg).1]
    exact hf

/-- The columns that an operator works on are those of its input or, if it starts a SELECT,
references. -/
theorem passesAt_entered (hP : ∀ q n, P (.column q n) = false)
    (hf : PassesAt P (input.passesAt t test) f.columns)
    (he : f.Enters (r.startsSelect t) f') :
    PassesAt P (r.passesBelow t test input) f'.columns := by
  unfold passesBelow
  rcases he with ⟨hs, rfl⟩ | ⟨hs, a, rfl⟩
  · rw [hs]
    exact hf
  · rw [hs]
    exact passesAt_of_references hP (List.forall_mem_map.mpr fun c _ => ⟨none, c.name, rfl⟩)

/-- The columns of a fragment of which the property holds are those that pass the test. -/
theorem Becomes.passesAt (ht : Traces d test P) (h : Becomes (Target.builtin d) r f)
    (hw : r.WellFormed) : PassesAt P (r.passesAt (Target.builtin d) test) f.columns := by
  induction h with
  | table =>
    exact passesAt_of_references ht.column
      (List.forall_mem_map.mpr fun field _ => ⟨none, field.name, rfl⟩)
  | join _ _ _ _ hg => exact passesAt_of_references ht.column (exists_column_of_join hg)
  | @step r input f f' g hin hf he hg ih =>
    have hwi := hw.input (i := input) (by simp [hin])
    have hpass := passesAt_entered ht.column (ih hwi) (hf.enters hwi hin he)
    rw [passesAt_of_input hin]
    have hlen := (hf.grounded_entered hwi he).length
    have hflagged := hf.flagged_entered hwi he
    exact passesAt_operate hin hlen hpass
      (ht.output hw.checked hin hflagged (separates_entered hin he) hlen hpass) hg

/-- So are those that an operator works on. -/
theorem Becomes.passesBelow (ht : Traces d test P) (hf : Becomes (Target.builtin d) input f)
    (hw : input.WellFormed) (hin : r.inputs = [input])
    (he : f.Enters (r.separates (Target.builtin d) f.flags) f') :
    PassesAt P (r.passesBelow (Target.builtin d) test input) f'.columns :=
  passesAt_entered ht.column (hf.passesAt ht hw) (hf.enters hw hin he)

end Relation

end PlanSql
