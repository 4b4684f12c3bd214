import PlanSql.Proofs.Ddl.Lexing
import PlanSql.Proofs.Fragment.OutputNames

/-!
# Columns of views

The text of a view has the statement of its query in it as it is, so the columns of the view go by
the names in that statement. A column of the query's schema is there under its name if and only if
the output at its position is named.
-/
namespace PlanSql

namespace Ddl

/-- The columns of a view, in order, are those of its query, and exactly the outputs that are named
go by the names in the schema of the query. -/
theorem createView_columns {r : Relation} (hv : r.Valid) {d : Dialect} {name sql : String}
    {temporary orReplace : Bool}
    (h : (createView name r temporary orReplace).toSql (Target.builtin d) = .ok sql) :
    ∃ s visible, r.toSelect (Target.builtin d) = .ok s ∧
      sql = d.descriptor.text ((createView name s temporary orReplace).written d) ∧
      Scoped r s visible ∧ s.outputNames visible = r.shownNames (Target.builtin d) ∧
      (∀ i column, r.schema.names[i]? = some column →
        (some column ∈ s.outputNames visible ↔ r.namedAt (Target.builtin d) i = true)) ∧
      (s.outputNames visible = r.schema.names.map some ↔
        ∀ i < r.schema.names.length, r.namedAt (Target.builtin d) i = true) := by
  obtain ⟨ps, hps, hsql⟩ := bind_eq_ok.mp h
  obtain ⟨view, hview, rfl⟩ := pieces_eq_ok hps
  obtain ⟨s, hs, hmade⟩ := bind_eq_ok.mp hview
  obtain rfl := Except.ok.inj hmade
  obtain ⟨visible, hscoped, hnames⟩ := Relation.toSelect_shownNames hv hs
  refine ⟨s, visible, hs, (Except.ok.inj hsql).symm, hscoped, hnames, fun i column hi => ?_, ?_⟩
  · rw [hnames]
    exact Relation.mem_shownNames_iff hv.wellFormed.nodup_names hi
  · rw [hnames]
    exact Relation.shownNames_eq_iff

/-- All columns of the view of the largest totals go by their names. -/
theorem createView_columns_rankedTotals : ∃ s visible,
    Relation.rankedTotals.toSelect (Target.builtin .postgres) = .ok s ∧
      Scoped Relation.rankedTotals s visible ∧
      s.outputNames visible = [some "region", some "total"] := by
  have h : (createView "ranking" Relation.rankedTotals false true).toSql
      (Target.builtin .postgres) = .ok _ := rfl
  obtain ⟨s, visible, hs, -, hscoped, -, -, hall⟩ := createView_columns Relation.valid_rankedTotals h
  exact ⟨s, visible, hs, hscoped, hall.mpr (by decide)⟩

end Ddl

namespace Relation

/-- The amounts of all sales after a rise. -/
def raised : Relation :=
  .project 1 sales [⟨.binary .add (.column ⟨none, "amount"⟩ .int64) (.int 1), some "raised"⟩]

/-- The same amounts, passed on under the name that they have. -/
def passedOn : Relation := .project 2 raised [⟨.column ⟨none, "raised"⟩ .int64, none⟩]

theorem valid_passedOn : passedOn.Valid := by
  have ht : scan 0 "sales" none [⟨"region", .string, true⟩, ⟨"amount", .int64, true⟩] =
      .ok sales := rfl
  have he : Expr.applyBinary .add (.column ⟨none, "amount"⟩ .int64) (.int 1) = .ok _ := rfl
  have hr : select 1 sales
      [⟨.binary .add (.column ⟨none, "amount"⟩ .int64) (.int 1), some "raised"⟩] = .ok raised := rfl
  have hp : select 2 raised [⟨.column ⟨none, "raised"⟩ .int64, none⟩] = .ok passedOn := rfl
  have hraised : Session [raised, sales] :=
    .call (.call .start (.scan ht) (by simp))
      (.select (by simp) (by simpa using .binary (.column _ _) (.literal _) he) hr)
      (by simp [id, raised, sales])
  exact ⟨_, .call hraised (.select (by simp) (by simpa using .column _ _) hp)
    (by simp [id, passedOn, raised, sales]), List.mem_cons_self⟩

/-- A view of these amounts has no column of the name in the schema of its query: the SELECT that
both projections share computes the amounts without a name. -/
theorem createView_unnamed : passedOn.Valid ∧ passedOn.schema.names = ["raised"] ∧
    (Ddl.createView "v" passedOn false false).toSql (Target.builtin .postgres) =
      .ok "CREATE VIEW \"v\" AS SELECT \"amount\" + 1 FROM \"sales\"" ∧
    ∀ d, ∃ s, passedOn.toSelect (Target.builtin d) = .ok s ∧
      ∀ visible, s.outputNames visible = [none] := by
  refine ⟨valid_passedOn, rfl, rfl, fun d => ?_⟩
  cases d <;> exact ⟨_, rfl, fun _ => rfl⟩

end Relation

end PlanSql
