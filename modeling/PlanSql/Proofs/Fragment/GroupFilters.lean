import PlanSql.Proofs.Fragment.ColumnDefinitions
import PlanSql.Proofs.Fragment.Fusion
import PlanSql.Proofs.Relation.Typing

/-!
# Filters on groups

Groups can be filtered in two ways: by a condition on groups, which speaks of the columns that are
grouped, and by a filter on the grouping, which speaks of the columns that it shows. A column of the
grouping is defined by a key or a metric, and with its columns replaced by what defines them a
filter on the grouping is a condition on groups. Both ways come to the same statement.
-/
namespace PlanSql

namespace Fragment

variable {t : Target}

/-- Conditions on groups are put into HAVING after the grouping. -/
theorem aggregate_eq_narrowed (f : Fragment) (header : Header) (keys metrics : List NamedExpr)
    (having : List Expr) :
    f.aggregate t header keys metrics having = do
      let g ← f.aggregate t header keys metrics []
      let ss ← conditions t (f.scope header) having
      return g.narrowed ss := by
  have hhaving : t.descriptor.supportsHaving = true := rfl
  unfold aggregate
  simp only [conditions, List.flatMap_nil, List.mapM_nil, bind_assoc]
  refine congrArg _ (funext fun ks => ?_)
  refine congrArg _ (funext fun ms => ?_)
  simp [hhaving, narrowed]

/-- The fragment of a grouping has a column for each output, defined by its SQL. -/
theorem columns_of_aggregate {f g : Fragment} {header : Header} {keys metrics : List NamedExpr}
    {having : List Expr} (h : f.aggregate t header keys metrics having = .ok g) :
    g.aggregated = true ∧
      List.Forall₂ (ColumnOf t (f.scope header)) (keys ++ metrics) g.columns := by
  obtain ⟨keyItems, keyColumns, metricItems, metricColumns, conjuncts, hk, hm, -, rfl⟩ :=
    aggregate_eq_ok h
  exact ⟨rfl, List.rel_append (outputs_eq_ok hk).1 (outputs_eq_ok hm).1⟩

end Fragment

/-- Every column of the expression was taken from the header by its name. -/
def Header.Names (h : Header) (e : Expr) : Prop :=
  ∀ ref u, .column ref u ∈ e.parts → h.column ref.name = .ok (.column ref u)

namespace Relation

/-- What defines a column, given the outputs by their names. -/
def definition (outputs : List NamedExpr) (ref : ColumnRef) (type : DataType) : Expr :=
  ((outputs.find? fun n => n.outputName = ref.name).map (·.expr)).getD (.column ref type)

variable {t : Target} {i j k : NodeId} {input a grouped : Relation} {keys metrics : List NamedExpr}
  {having : List Expr} {ref : ColumnRef} {u : DataType}

/-- A column taken from a grouping by name denotes one of its outputs, which defines it. -/
theorem column_aggregate (hd : (Schema.names ((keys ++ metrics).map NamedExpr.field)).Nodup)
    (h : (aggregate i input keys metrics having).header.column ref.name = .ok (.column ref u)) :
    ∃ l n, (keys ++ metrics)[l]? = some n ∧
      (aggregate i input keys metrics having).header.lookup ref = .found l ∧
      definition (keys ++ metrics) ref u = n.expr ∧ n.expr.dataType = u := by
  unfold Header.column at h
  split at h
  · next field hfield =>
    obtain ⟨href, rfl⟩ := Expr.column.inj (Except.ok.inj h)
    have hfind : ((keys ++ metrics).map NamedExpr.field).find? (fun f => f.name = ref.name) =
        some field := hfield
    rw [List.find?_map] at hfind
    obtain ⟨n, hn, rfl⟩ := Option.map_eq_some_iff.mp hfind
    obtain ⟨l, hl⟩ := List.mem_iff_getElem?.mp (List.mem_of_find?_eq_some hn)
    have hname : n.field.name = ref.name := by simpa using List.find?_some hn
    refine ⟨l, n, hl, ?_, ?_, rfl⟩
    · rw [← href, ← hname]
      refine (owned_header (aggregate i input keys metrics having)).lookup_name (f := n.field) hd ?_
      exact (List.getElem?_map ..).trans (congrArg _ hl)
    · have hn : (keys ++ metrics).find? (fun n => n.outputName = ref.name) = some n := hn
      simp [definition, hn]
  · simp at h

/-- In the fragment of a grouping the column stands for the SQL of what defines it. -/
theorem agree_column_aggregate {f g : Fragment}
    (hd : (Schema.names ((keys ++ metrics).map NamedExpr.field)).Nodup)
    (h : (aggregate i input keys metrics having).header.column ref.name = .ok (.column ref u))
    (hg : f.aggregate t input.header keys metrics having = .ok g) :
    Agree Eq ((g.scope (aggregate i input keys metrics having).header).column ref)
      ((definition (keys ++ metrics) ref u).lower t (f.scope input.header)) := by
  obtain ⟨l, n, hn, hl, hdef, -⟩ := column_aggregate hd h
  obtain ⟨c, hc, hlower, -⟩ := forall₂_getElem? (Fragment.columns_of_aggregate hg).2 hn
  have hcolumn : (g.scope (aggregate i input keys metrics having).header).column ref =
      .ok c.expr := by
    simp [Fragment.scope, Scope.column, Header.resolve_eq_ok.mpr hl, pickColumn, hc]
  rw [hcolumn, hdef, hlower]
  exact agree_ok.mpr rfl

/-- A filter on what a grouping shows becomes part of its SELECT. -/
theorem separates_filter_of_aggregate {f g : Fragment} {cs : List Expr}
    (hs : (aggregate i input keys metrics having).separates t f.flags = false)
    (hg : (aggregate i input keys metrics having).operate t f = .ok g) :
    (filter k a cs).separates t g.flags = false := by
  obtain ⟨-, -, -, -, -, -, -, -, rfl⟩ := Fragment.aggregate_eq_ok hg
  obtain ⟨-, hsettled⟩ := Bool.or_eq_false_iff.mp hs
  simp only [separates, Fragment.flags, Bool.false_and, Bool.or_false]
  exact hsettled

/-- HAVING of the second statement is that of the first with the conditions at its end split along
the ANDs of the given ones; apart from it the statements are the same. -/
def HavingSplits (cs : List Expr) (s s' : Sql.Select) : Prop :=
  ∃ earlier ss, ss.length = cs.length ∧ s.having = earlier ++ ss ∧
    s' = { s with having := earlier ++ (List.zipWith Expr.splitAlong cs ss).flatten }

/-- The two ways to filter groups agree. A condition on the columns that a grouping shows can filter
it where the condition, with its columns replaced by the keys and metrics that define them, is
accepted as one on groups; and then either both have no statement or both have the same one, up to
the ANDs that the replacement has brought into the conjuncts. -/
theorem group_filter_agrees {p : Expr} (ha : group i input keys [] metrics = .ok a)
    (hp : a.header.Names p) (hrow : p.isRowLevel = true)
    (hg : group j input keys [p.substitute (definition (keys ++ metrics))] metrics =
      .ok grouped) :
    ∃ b, restrict k a [p] = .ok b ∧ ∀ t,
      Agree (HavingSplits (p.conjuncts.map (Expr.substitute (definition (keys ++ metrics)))))
        (b.toSelect t) (grouped.toSelect t) := by
  obtain ⟨rfl, -, -, -, -, hd⟩ := group_accepted ha
  obtain ⟨rfl, hq, -⟩ := group_accepted hg
  have hcolumn := fun ref u hu => column_aggregate hd (hp ref u hu)
  have hσ : p.KeepsTypes (definition (keys ++ metrics)) := by
    intro ref u hu
    obtain ⟨l, n, -, -, hdef, htype⟩ := hcolumn ref u hu
    rw [hdef, htype]
  have haccepted : restrictable (aggregate i input keys metrics []).header p = .ok () := by
    refine restrictable_eq_ok.mpr ⟨fun ref href => ?_, ?_, (Expr.isRowLevel_eq_true.mp hrow).1⟩
    · obtain ⟨u, hu⟩ := Expr.mem_columnRefs.mp href
      obtain ⟨l, n, -, hl, -⟩ := hcolumn ref u hu
      exact ⟨l, hl⟩
    · obtain ⟨⟨⟩, hcheck, -⟩ := bind_eq_ok.mp (hq _ (List.mem_singleton_self _))
      rw [← Expr.dataType_substitute hσ]
      exact isCondition_of_checkCondition hcheck
  refine ⟨_, restrict_eq_ok_iff.mpr ⟨by simpa using haccepted, rfl⟩, fun t => ?_⟩
  refine agree_fused (a := .aggregate i input keys metrics []) rfl rfl rfl (fun _ => rfl)
    (fun f g hs hg => ?_) fun f _ => ?_
  · exact separates_filter_of_aggregate hs hg
  · simp only [operate, Fragment.filter_eq_narrowed]
    rw [Fragment.aggregate_eq_narrowed _ _ _ _ [_]]
    refine agree_bind fun g hg => ?_
    obtain ⟨hagg, -⟩ := Fragment.columns_of_aggregate hg
    have hS := fun ref u hu => agree_column_aggregate hd (hp ref u hu) hg
    refine (Fragment.agree_conditions_substitute hσ hS).map fun ss ss' _ _ hss => ?_
    obtain ⟨hlen, rfl⟩ := hss
    refine ⟨g.select.having, ss, by simpa using hlen, ?_, ?_⟩ <;> simp [Fragment.narrowed, hagg]

/-- A table of two marks. -/
def markedRows : Relation :=
  .table 0 "marks" none [⟨"b", .bool, false⟩, ⟨"c", .bool, true⟩]

/-- Both marks, as one key. -/
def bothMarks : Expr :=
  .binary .and (.column ⟨some "marks", "b"⟩ .bool) (.column ⟨some "marks", "c"⟩ .bool)

/-- The marked rows, by whether both marks are set. -/
def markCounts (id : NodeId) (having : List Expr) : Relation :=
  .aggregate id markedRows [⟨bothMarks, some "k"⟩] [⟨.countStar, some "n"⟩] having

/-- Both marks are set, in more than one row, where `k` and `n` stand for the key and the count. -/
def isRepeated (k n : Expr) : Expr := .binary .and k (.binary .gt n (.int 1))

/-- The key is a conjunction, so one of the two conjuncts falls into two. -/
theorem isRepeated_agrees :
    let shown :=
      isRepeated (.column ⟨some "marks", "k"⟩ .bool) (.column ⟨some "marks", "n"⟩ .int64)
    let meant := isRepeated bothMarks .countStar
    group 1 markedRows [⟨bothMarks, some "k"⟩] [] [⟨.countStar, some "n"⟩] =
      .ok (markCounts 1 []) ∧
    (markCounts 1 []).header.Names shown ∧ shown.isRowLevel = true ∧
    group 2 markedRows [⟨bothMarks, some "k"⟩] [meant] [⟨.countStar, some "n"⟩] =
      .ok (markCounts 2 [meant]) ∧
    ∃ b, restrict 3 (markCounts 1 []) [shown] = .ok b ∧ ∀ t,
      Agree (HavingSplits [bothMarks, .binary .gt .countStar (.int 1)])
        (b.toSelect t) ((markCounts 2 [meant]).toSelect t) := by
  intro shown meant
  have ha : group 1 markedRows [⟨bothMarks, some "k"⟩] [] [⟨.countStar, some "n"⟩] =
      .ok (markCounts 1 []) := rfl
  have hp : (markCounts 1 []).header.Names shown := by
    intro ref u hu
    have hu : (ref = ⟨some "marks", "k"⟩ ∧ u = .bool) ∨
        (ref = ⟨some "marks", "n"⟩ ∧ u = .int64) := by
      simpa [shown, isRepeated, Expr.parts, Expr.walk, Expr.visit, Expr.inside, Expr.int] using hu
    rcases hu with ⟨rfl, rfl⟩ | ⟨rfl, rfl⟩ <;> rfl
  have hg : group 2 markedRows [⟨bothMarks, some "k"⟩] [meant] [⟨.countStar, some "n"⟩] =
      .ok (markCounts 2 [meant]) := rfl
  exact ⟨ha, hp, rfl, hg, group_filter_agrees ha hp rfl hg⟩

end Relation

end PlanSql
