import PlanSql.Proofs.Fragment.Wording
import PlanSql.Proofs.Sql.Reading

/-!
# Reading what relations and expressions become

The SQL that an expression becomes reads as what it is, and so do the expressions of a statement and
its conditions joined by AND, unless a negation has become an operand of a comparison, of arithmetic
or of a test. Such a negation is read as one of the whole comparison.
-/
namespace PlanSql

open Sql

/-- What columns stand for in a scope has words such as statements are made of. -/
def Scope.IsWorded (scope : Scope) (d : Descriptor) : Prop :=
  ∀ ref c, scope.column ref = .ok c → ∀ p ∈ c.parts, p.isWorded d = true

theorem Scope.isWorded_bare (d : Descriptor) : Scope.bare.IsWorded d := by
  intro ref c hc p hp
  obtain rfl : Sql.Expr.column none ref.name = c := by simpa [Scope.column] using hc
  obtain rfl : p = .column none ref.name := by simpa [Sql.Expr.parts] using hp
  rfl

namespace Sql

/-- No negation is an operand of a comparison, of arithmetic or of a test. -/
def Expr.IsPlain (e : Expr) : Prop := ∀ p ∈ e.parts, p.takesNegation = false

instance (e : Expr) : Decidable e.IsPlain :=
  inferInstanceAs (Decidable (∀ p ∈ e.parts, p.takesNegation = false))

end Sql

/-- Every expression that is lowered in a scope, every expression of a statement that a relation
becomes and every list of conjuncts there is read as it is, if it is plain. -/
theorem Target.readExpression_builtin (d : Dialect) :
    (∀ (scope : Scope) (e : Expr) (s : Sql.Expr), scope.IsWorded d.descriptor →
      e.lower (Target.builtin d) scope = .ok s → s.IsPlain →
        d.descriptor.readExpression (s.text d.descriptor) = some (s.tree d.descriptor)) ∧
    ∀ (r : Relation) (s : Select), r.Coherent → r.toSelect (Target.builtin d) = .ok s →
      (∀ e ∈ s.allExpressions, e.IsPlain →
        d.descriptor.readExpression (e.text d.descriptor) = some (e.tree d.descriptor)) ∧
      ∀ e rest, e :: rest ∈ s.conjunctions → (∀ c ∈ e :: rest, c.IsPlain) →
        d.descriptor.readExpression
            (d.descriptor.text (conjunctionPieces d.descriptor (e :: rest))) =
          some ((e.tree d.descriptor).conjoin (rest.map (Sql.Expr.tree d.descriptor))) := by
  refine ⟨fun scope e s hscope hs hplain => ?_, fun r s hc hs => ?_⟩
  · have hworded := ((Target.permits_isWorded d).lower scope e).lower
      (fun ref _ => hscope ref) hs
    exact Sql.Expr.readExpression_text hworded hplain
  · have hworded := Relation.forall_parts_toSelect (Target.permits_isWorded d) hc hs
    refine ⟨fun e he hplain => Sql.Expr.readExpression_text (hworded e he) hplain, ?_⟩
    intro e rest hm hplain
    exact readExpression_conjunction
      (fun c hc => hworded c (Select.mem_allExpressions_of_conjunctions hm hc)) hplain

/-- Two conditions on a table: one with operators of every level, and a test. -/
def Relation.nested : Relation :=
  .filter 1 (.table 0 "t" none [⟨"a", .int64, true⟩])
    [.unary .not (.binary .gt (.binary .mul (.binary .add (.column ⟨none, "a"⟩ .int64)
        (.literal (.int 1))) (.literal (.int (-2)))) (.literal (.int 0))),
      .isNull (.column ⟨none, "a"⟩ .int64) true]

theorem Relation.coherent_nested : nested.Coherent := by
  intro m hm n hn
  simp only [nested, nodes, List.mem_cons, List.not_mem_nil, or_false] at hm hn
  rcases hm with rfl | rfl <;> rcases hn with rfl | rfl <;> simp [id]

theorem Target.readExpression_nested :
    (∃ s, (Expr.isNull (.column ⟨none, "a"⟩ .int64) true).lower (Target.builtin .mysql) .bare =
        .ok s ∧ Dialect.mysql.descriptor.readExpression (s.text Dialect.mysql.descriptor) =
          some (.isNull (.column none "a") true)) ∧
    ∃ s e c, Relation.nested.toSelect (Target.builtin .mysql) = .ok s ∧ s.selection = [e, c] ∧
      Dialect.mysql.descriptor.readExpression (Dialect.mysql.descriptor.text
        (conjunctionPieces Dialect.mysql.descriptor [e, c])) =
          some (.binary .and (e.tree Dialect.mysql.descriptor) (c.tree Dialect.mysql.descriptor)) := by
  obtain ⟨hscalar, hstatement⟩ := Target.readExpression_builtin .mysql
  constructor
  · have hs : (Expr.isNull (.column ⟨none, "a"⟩ .int64) true).lower (Target.builtin .mysql) .bare =
      .ok _ := rfl
    exact ⟨_, hs, hscalar .bare _ _ (Scope.isWorded_bare _) hs (by decide)⟩
  · have hs : Relation.nested.toSelect (Target.builtin .mysql) = .ok _ := rfl
    refine ⟨_, _, _, hs, rfl, (hstatement _ _ Relation.coherent_nested hs).2 _ _ ?_ ?_⟩
    · exact List.mem_cons_self
    · decide

/-- The test whether a negation is NULL. -/
def Expr.unknown : Expr := .isNull (.unary .not (.column ⟨none, "a"⟩ .bool)) false

/-- The negation is written without parentheses, and what is read is a negation. -/
theorem Expr.unknown_misread : unknown.Made ∧
    ∃ s : Sql.Expr, unknown.lower (Target.builtin .postgres) .bare = .ok s ∧
      s.text Dialect.postgres.descriptor = "NOT \"a\" IS NULL" ∧
      Dialect.postgres.descriptor.readExpression "NOT \"a\" IS NULL" ≠
        some (s.tree Dialect.postgres.descriptor) := by
  have hu : applyUnary .not (.column ⟨none, "a"⟩ .bool) = .ok _ := rfl
  have hs : unknown.lower (Target.builtin .postgres) .bare = .ok _ := rfl
  have htext : (Sql.Expr.isNull (.unary .not (.column none "a")) false).text
      Dialect.postgres.descriptor = "NOT \"a\" IS NULL" := rfl
  have hread := Sql.Expr.readExpression_isNull_not (d := Dialect.postgres.descriptor)
    (e := .column none "a") false (by decide) (by decide)
  rw [htext] at hread
  refine ⟨.isNull (.unary (.column _ _) hu), _, hs, htext, ?_⟩
  simp [hread, Sql.Expr.tree]

end PlanSql
