import PlanSql.Proofs.Sql.Parts

/-!
# Statements within a statement

The statements in the derived tables of a statement, at every depth, and their expressions. Before
it evaluates window functions a statement evaluates those of ON, WHERE, GROUP BY and HAVING.
-/
namespace PlanSql.Sql

namespace FromItem

/-- The statements of the derived tables in a source and in these statements' own sources. -/
def selects : FromItem → List Select
  | .table _ _ => []
  | .derived s _ => s :: s.source.selects
  | .join left right _ _ => left.selects ++ right.selects

/-- The conditions of the joins in a source, without those in its derived tables. -/
def ons : FromItem → List Expr
  | .table _ _ | .derived _ _ => []
  | .join left right _ on => left.ons ++ right.ons ++ on

/-- The operators of the joins in a source, without those in its derived tables. -/
def joinOps : FromItem → List JoinOp
  | .table _ _ | .derived _ _ => []
  | .join left right op _ => left.joinOps ++ right.joinOps ++ [op]

/-- The expressions in a source: the conditions of its joins, and what is in its derived tables. -/
def expressions : FromItem → List Expr
  | .table _ _ => []
  | .derived s _ => s.expressions ++ s.source.expressions
  | .join left right _ on => left.expressions ++ right.expressions ++ on

/-- The lists of conjuncts in a source: those of its joins, and those in its derived tables. -/
def conjunctions : FromItem → List (List Expr)
  | .table _ _ => []
  | .derived s _ => s.selection :: s.having :: s.qualify :: s.source.conjunctions
  | .join left right _ on => on :: (left.conjunctions ++ right.conjunctions)

theorem mem_expressions_of_conjunctions : ∀ {source : FromItem} {conjuncts : List Expr}
    {e : Expr}, conjuncts ∈ source.conjunctions → e ∈ conjuncts → e ∈ source.expressions
  | .table _ _, _, _, hc, _ => by simp [conjunctions] at hc
  | .derived s _, conjuncts, e, hc, he => by
    simp only [conjunctions, List.mem_cons] at hc
    simp only [expressions, List.mem_append]
    rcases hc with rfl | rfl | rfl | hc
    · exact .inl (by simp [SelectOver.expressions, he])
    · exact .inl (by simp [SelectOver.expressions, he])
    · exact .inl (by simp [SelectOver.expressions, he])
    · exact .inr (mem_expressions_of_conjunctions hc he)
  | .join left right _ on, conjuncts, e, hc, he => by
    simp only [conjunctions, List.mem_cons, List.mem_append] at hc
    simp only [expressions, List.mem_append]
    rcases hc with rfl | hc | hc
    · exact .inr he
    · exact .inl (.inl (mem_expressions_of_conjunctions hc he))
    · exact .inl (.inr (mem_expressions_of_conjunctions hc he))

theorem mem_expressions_of_ons : ∀ {source : FromItem} {e : Expr}, e ∈ source.ons →
    e ∈ source.expressions
  | .table _ _, _, he | .derived _ _, _, he => by simp [ons] at he
  | .join left right _ on, e, he => by
    simp only [ons, List.mem_append] at he
    simp only [expressions, List.mem_append]
    exact he.imp_left fun he => he.imp mem_expressions_of_ons mem_expressions_of_ons

/-- What is in a statement of a source, in its clauses or its joins, is in the source. -/
theorem mem_expressions_of_selects : ∀ {source : FromItem} {q : Select} {e : Expr},
    q ∈ source.selects → e ∈ q.expressions ++ q.source.ons → e ∈ source.expressions
  | .table _ _, _, _, hq, _ => by simp [selects] at hq
  | .derived s _, q, e, hq, he => by
    simp only [selects, List.mem_cons] at hq
    simp only [expressions, List.mem_append]
    rcases hq with rfl | hq
    · exact (List.mem_append.mp he).imp_right mem_expressions_of_ons
    · exact .inr (mem_expressions_of_selects hq he)
  | .join left right _ on, q, e, hq, he => by
    simp only [selects, List.mem_append] at hq
    simp only [expressions, List.mem_append]
    rcases hq with hq | hq
    · exact .inl (.inl (mem_expressions_of_selects hq he))
    · exact .inl (.inr (mem_expressions_of_selects hq he))

end FromItem

namespace Select

/-- The expressions of a statement at every depth. -/
def allExpressions (s : Select) : List Expr := s.expressions ++ s.source.expressions

/-- The lists of conjuncts of a statement at every depth. -/
def conjunctions (s : Select) : List (List Expr) :=
  s.selection :: s.having :: s.qualify :: s.source.conjunctions

/-- A statement and all statements within it. -/
def statements (s : Select) : List Select := s :: s.source.selects

/-- The expressions that a statement evaluates before its window functions. -/
def beforeWindows (s : Select) : List Expr := s.source.ons ++ s.selection ++ s.groupBy ++ s.having

theorem forall_beforeWindows {s : Select} {P : Expr → Prop} :
    (∀ e ∈ s.beforeWindows, P e) ↔ (∀ e ∈ s.source.ons, P e) ∧ (∀ e ∈ s.selection, P e) ∧
      (∀ e ∈ s.groupBy, P e) ∧ ∀ e ∈ s.having, P e := by
  simp only [beforeWindows, List.forall_mem_append, and_assoc]

theorem mem_allExpressions_of_conjunctions {s : Select} {conjuncts : List Expr} {e : Expr}
    (hc : conjuncts ∈ s.conjunctions) (he : e ∈ conjuncts) : e ∈ s.allExpressions := by
  have hderived : conjuncts ∈ (FromItem.derived s "").conjunctions := hc
  exact FromItem.mem_expressions_of_conjunctions hderived he

theorem mem_allExpressions_of_statements {s q : Select} {e : Expr} (hq : q ∈ s.statements)
    (he : e ∈ q.expressions ++ q.source.ons) : e ∈ s.allExpressions := by
  have hderived : q ∈ (FromItem.derived s "").selects := hq
  exact FromItem.mem_expressions_of_selects hderived he

theorem mem_statements_self (s : Select) : s ∈ s.statements := List.mem_cons_self

end Select

end PlanSql.Sql
