import PlanSql.Proofs.Fragment.Renaming

/-!
# Lowering over placeholders

What an expression becomes over columns depends on their definitions only as far as these stand in
the place of its references. With a column of its own for each definition, the SQL of the expression
is a template, and the definitions put in the places of their columns, all at once, give the SQL
over the definitions themselves. No definition is taken for the call that DISTINCT, FILTER or OVER
is attached to, although many are calls; so an operator may be merged into its input.
-/
namespace PlanSql

/-- A name for a column that stands for a definition. -/
abbrev Placeholder := Option String × String

namespace Scope

/-- The columns, each defined as its placeholder. -/
def placeholders (ps : List Placeholder) (columns : List OutputColumn) : List OutputColumn :=
  (ps.zip columns).map fun (p, c) => { c with expr := .column p.1 p.2 }

/-- The definition that a placeholder stands for; other columns stand for themselves. -/
def replacement (ps : List Placeholder) (columns : List OutputColumn) (q : Option String)
    (n : String) : Sql.Expr :=
  match (ps.zip columns).lookup (q, n) with
  | some c => c.expr
  | none => .column q n

variable {ps : List Placeholder} {columns : List OutputColumn}

theorem lookup_zip (hps : ps.Nodup) {p : Placeholder} {c : OutputColumn}
    (h : (p, c) ∈ ps.zip columns) : (ps.zip columns).lookup p = some c := by
  induction ps generalizing columns with
  | nil => simp at h
  | cons p' ps ih =>
    cases columns with
    | nil => simp at h
    | cons c' columns =>
      obtain ⟨hp', hps⟩ := List.nodup_cons.mp hps
      rw [List.zip_cons_cons, List.mem_cons] at h
      rw [List.zip_cons_cons, List.lookup_cons]
      rcases h with h | h
      · obtain ⟨rfl, rfl⟩ := Prod.mk.inj h
        simp
      · have hne : p ≠ p' := by
          rintro rfl
          exact hp' (List.of_mem_zip h).1
        rw [beq_eq_false_iff_ne.mpr hne]
        exact ih hps h

theorem replacement_zip (hps : ps.Nodup) {p : Placeholder} {c : OutputColumn}
    (h : (p, c) ∈ ps.zip columns) : replacement ps columns p.1 p.2 = c.expr := by
  rw [replacement, lookup_zip hps h]

/-- The definitions come back where each placeholder is replaced by what it stands for. -/
theorem map_placeholders (hlen : ps.length = columns.length) (hps : ps.Nodup) :
    (placeholders ps columns).map
      (OutputColumn.map (Sql.Expr.substitute (replacement ps columns))) = columns := by
  have hback : ∀ x ∈ ps.zip columns,
      ({ x.2 with expr := .column x.1.1 x.1.2 } : OutputColumn).map
        (Sql.Expr.substitute (replacement ps columns)) = x.2 := by
    rintro ⟨p, c⟩ hx
    simp only [OutputColumn.map, Sql.Expr.substitute_column, replacement_zip hps hx]
  calc
    (placeholders ps columns).map
        (OutputColumn.map (Sql.Expr.substitute (replacement ps columns)))
      = (ps.zip columns).map Prod.snd := by
        rw [placeholders, List.map_map]
        exact List.map_congr_left hback
    _ = columns := List.map_snd_zip hlen.ge

end Scope

/-- Lowering commutes with putting definitions in the places of placeholders. -/
theorem Expr.lower_placeholders (d : Dialect) (h : Header) {columns : List OutputColumn}
    {ps : List Placeholder} (hlen : ps.length = columns.length) (hps : ps.Nodup) (e : Expr) :
    e.lower (.builtin d) (.columns h columns) =
      Sql.Expr.substitute (Scope.replacement ps columns) <$>
        e.lower (.builtin d) (.columns h (Scope.placeholders ps columns)) := by
  refine lower_substitute_of_keepsCalls (Target.keepsCalls_builtin rfl _) (fun ref => ?_) e
  rw [← Scope.column_columns_map, Scope.map_placeholders hlen hps]

/-- DISTINCT goes to the sum and not to the count that is summed. -/
theorem Expr.lower_placeholders_sumOfCount :
    let header : Header := .make none [.ofType "n" .int64] [none]
    let columns : List OutputColumn := [⟨"n", .call "COUNT" [.star] false none none, .int64⟩]
    let sum : Expr := .aggregate .sum (some (.column ⟨none, "n"⟩ .int64)) true none
    sum.lower (.builtin .sqlite) (.columns header columns) =
        .ok (.call "SUM" [.call "COUNT" [.star] false none none] true none none) ∧
      sum.lower (.builtin .sqlite) (.columns header columns) =
        Sql.Expr.substitute (Scope.replacement [(some "p", "0")] columns) <$>
          sum.lower (.builtin .sqlite)
            (.columns header (Scope.placeholders [(some "p", "0")] columns)) :=
  ⟨by rfl, lower_placeholders .sqlite _ rfl (by decide) _⟩

end PlanSql
