import PlanSql.Proofs.Semantics.BagOperators

/-!
# Operators that start a SELECT

A derived table has the columns and the rows of the node that its statement stands for, and so has a
side of a join. A fragment that selects from tables, derived tables or a join of two of them and
does nothing else stands for a node with the rows of its source.
-/
namespace PlanSql

variable {V : Type} [DecidableEq V]

namespace Relation

section Operators

variable {M : Meaning V} {db : Database V} {d : Dialect} {id : NodeId} {input : Relation}
  {f g : Fragment}

/-- A fragment that does nothing but show its source stands for a node with the source's rows. -/
theorem Means.of_source {r : Relation} (hshaped : f.Shaped) (ha : f.aggregated = false)
    (hw : f.windowed = false) (hd : f.select.distinct = false) (hs : f.select.selection = [])
    (hn : f.columns.map (·.name) = r.schema.names) (hr : r.bag M db = (f.source M db).rows)
    (hv : ∀ row ∈ (f.source M db).rows, f.values M db 0 (.single row) = row)
    (hl : f.select.projection = none →
      (f.source M db).labels.map (·.2) = r.schema.names.map some) : Means M db r f where
  toShaped := hshaped
  names := hn
  rows := by
    obtain ⟨hq, hcw⟩ := hshaped.unwindowed hw
    obtain ⟨-, hh, -, -⟩ := hshaped.plain ha
    rw [if_neg (by simp [hd]), Fragment.qualified, Sql.SelectOver.qualified_of_source
      (hshaped.isGrouped.trans ha) hs hh hq, Multiset.map_map, hr]
    refine (Multiset.map_id' _).symm.trans (Multiset.map_congr rfl fun row hrow => ?_)
    exact (hv row hrow).symm.trans (Fragment.valuesIn_congr hcw rfl (.inr rfl))
  passes hp := ⟨hl hp, hv⟩

section Statement

variable {r : Relation} (h : Means M db r f)
include h

theorem Means.length : f.columns.length = r.schema.names.length := by
  simpa using congrArg List.length h.names

/-- Every row has a value for each column. -/
theorem Means.length_of_mem {row : List V} (hrow : row ∈ r.bag M db) :
    row.length = r.schema.names.length := by
  have hmem : row ∈ (f.qualified M db).map (f.values M db (f.shown M db)) := by
    have hrows := h.rows
    cases hd : f.select.distinct with
    | true =>
      rw [hrows, hd] at hrow
      exact Multiset.mem_dedup.mp hrow
    | false => rwa [h.rows_of_not_distinct hd] at hrow
  obtain ⟨x, -, rfl⟩ := Multiset.mem_map.mp hmem
  rw [← h.length]
  exact List.length_map _

/-- What the projection shows is what the columns are worth. -/
theorem Means.output_eq {x : Focus (List V)} (hx : x ∈ f.qualified M db) :
    f.select.output x.row ((f.source M db).value M (f.shown M db) x) =
      f.values M db (f.shown M db) x := by
  unfold Sql.SelectOver.output
  cases hp : f.select.projection with
  | some items => exact Fragment.map_value_of_shows (h.items_some hp) _
  | none =>
    obtain ⟨ha, hw⟩ := h.of_no_projection hp
    obtain ⟨hq, hcw⟩ := h.unwindowed hw
    rw [Fragment.qualified, Sql.SelectOver.qualified_of_nil hq,
      Sql.SelectOver.shown_of_not_grouped (h.isGrouped.trans ha) (h.plain ha).2.1] at hx
    obtain ⟨row, hrow, rfl⟩ := Multiset.mem_map.mp hx
    have hmem : row ∈ (f.source M db).rows := (Multiset.mem_filter.mp hrow).1
    exact ((h.passes hp).2 row hmem).symm.trans (Fragment.valuesIn_congr hcw rfl (.inr rfl))

/-- The rows of the statement are those of the node. -/
theorem Means.bag_eq : f.select.bag M db = r.bag M db := by
  obtain ⟨hl, ho⟩ : f.select.limit = none ∧ f.select.offset = 0 := by
    simpa [Sql.SelectOver.isLimited] using h.unlimited
  have hout := Multiset.map_congr (rfl : f.qualified M db = _) fun x hx => h.output_eq hx
  rw [h.rows, Sql.Select.bag, Sql.SelectOver.bagOver, hl, ho, limited_none]
  simp only [Fragment.qualified, Fragment.shown, Fragment.source] at hout ⊢
  rw [hout]

/-- A derived table made of the statement has the columns and the rows of the node. -/
theorem Means.yield_named (itemAlias : String) :
    (Sql.FromItem.derived f.named itemAlias).yield M db =
      ⟨Sql.Label.list itemAlias r.schema.names, r.bag M db⟩ := by
  have hshows := fun items (hp : f.select.projection = some items) => h.items_some hp
  have hlabels := Fragment.labels_named hshows h.names (fun hp => (h.passes hp).1) itemAlias
  have hbag : f.named.bag M db = f.select.bag M db :=
    Sql.SelectOver.bagOver_projection f.expressions_named f.output_named
  rw [Sql.FromItem.yield_derived, ← h.bag_eq, ← hbag]
  exact congrArg (Sql.Yield.mk · (f.named.bag M db)) hlabels

/-- A side of a join has the columns and the rows of the node. -/
theorem Means.yield_joinSide (itemAlias : String) :
    (f.joinSide itemAlias).1.yield M db =
      ⟨Sql.Label.list itemAlias r.schema.names, r.bag M db⟩ := by
  unfold Fragment.joinSide
  cases hb : f.select.bareTable? with
  | none => exact h.yield_named itemAlias
  | some name =>
    obtain ⟨⟨aliasName, hs⟩, hp, hd, hw, hh, hq⟩ := Sql.Select.bareTable?_eq_some hb
    have hyield : f.source M db =
        ⟨Sql.Label.list (aliasName.getD name) (db name).columns, (db name).rows⟩ := by
      rw [Fragment.source, hs]
      rfl
    have hnames : (db name).columns = r.schema.names := by
      have hl := (h.passes hp).1
      rw [hyield] at hl
      refine List.map_injective_iff.mpr (Option.some_injective _) ?_
      simpa [Sql.Label.list, Function.comp_def] using hl
    have hrows : r.bag M db = (db name).rows := by
      have hg := h.isGrouped.trans (h.of_no_projection hp).1
      have hv := (h.passes hp).2
      rw [h.rows_of_not_distinct hd, Fragment.qualified,
        Sql.SelectOver.qualified_of_source hg hw hh hq, Multiset.map_map]
      rw [hyield] at hv ⊢
      refine (Multiset.map_congr rfl fun row hrow => ?_).trans (Multiset.map_id' _)
      have hcw := (h.unwindowed (h.of_no_projection hp).2).2
      exact (Fragment.valuesIn_congr hcw rfl (.inr rfl)).trans (hv row hrow)
    rw [hrows, ← hnames]
    rfl

end Statement

theorem Means.wrapped {r : Relation} (h : Means M db r f) (hd : r.schema.names.Nodup)
    (itemAlias : String) : Means M db r (f.wrapped itemAlias) := by
  have hyield : (f.wrapped itemAlias).source M db =
      ⟨Sql.Label.list itemAlias r.schema.names, r.bag M db⟩ := h.yield_named itemAlias
  have hshaped : (f.wrapped itemAlias).Shaped := by
    apply Fragment.shaped_ofSource _
    intro c hc
    obtain ⟨c', -, rfl⟩ := List.mem_map.mp hc
    exact ⟨none, c'.name, rfl⟩
  refine Means.of_source hshaped rfl rfl rfl rfl ?_ (by rw [hyield]) ?_ fun _ => ?_
  · rw [← h.names]
    simp [Fragment.wrapped, Fragment.ofSource, OutputColumn.under]
  · rw [hyield]
    intro row hrow
    exact Fragment.valuesIn_of_names hd (by rw [hyield]) (f.exprs_wrapped h.names itemAlias)
      (h.length_of_mem hrow)
  · rw [hyield]
    simp [Sql.Label.list]

theorem Means.table {name : String} {aliasName : Option String} {fields : Schema}
    (hc : (Relation.table id name aliasName fields).Checked)
    (hdb : (db name).columns = fields.names) :
    Means M db (.table id name aliasName fields) (.ofTable name aliasName fields) := by
  have hyield : (Fragment.ofTable name aliasName fields).source M db =
      ⟨Sql.Label.list (aliasName.getD name) fields.names, (db name).rows⟩ := by
    rw [← hdb]
    rfl
  have hshaped : (Fragment.ofTable name aliasName fields).Shaped := by
    apply Fragment.shaped_ofSource _
    intro c hc
    obtain ⟨field, -, rfl⟩ := List.mem_map.mp hc
    exact ⟨none, field.name, rfl⟩
  refine Means.of_source hshaped rfl rfl rfl rfl ?_ (by rw [hyield, Relation.bag]) ?_ fun _ => ?_
  · simp [Fragment.ofTable, Fragment.ofSource, schema, header, Schema.names]
  · rw [hyield]
    intro row hrow
    have hlen : row.length = fields.names.length := by
      rw [← hdb]
      exact (db name).shaped row hrow
    have hcols := Fragment.exprs_ofTable name aliasName fields
    exact Fragment.valuesIn_of_names hc (by rw [hyield]) hcols hlen
  · rw [hyield]
    simp [Sql.Label.list, schema, header]

section Join

variable {left right : Relation} {l r : Fragment} (hl : Means M db left l) (hr : Means M db right r)
  {leftAlias rightAlias : String} (hne : leftAlias ≠ rightAlias)
include hl hr hne

/-- What the columns of the sides stand for has in a joined row the values that the condition of
the join finds in the pair. -/
theorem agrees_join (hdl : left.schema.names.Nodup) (hdr : right.schema.names.Nodup)
    {x : List V} (hx : x ∈ left.bag M db) (y : List V) (e : Expr) :
    e.Agrees M (.join left.header right.header (l.joinSide leftAlias).2 (r.joinSide rightAlias).2)
      (M.lookSide left.header right.header)
      (M.lookLabel (Sql.Label.list leftAlias left.schema.names ++
        Sql.Label.list rightAlias right.schema.names)) 0 (.single (x ++ y)) (x, y) := by
  intro ref _ s hs
  have hxl := hl.length_of_mem hx
  rcases Scope.join_eq_ok hs with ⟨i, c, hside, hc, rfl⟩ | ⟨i, c, hside, hc, rfl⟩
  · have hname : left.schema.names[i]? = some c.name ∧
        c.expr = .column (some leftAlias) c.name := by
      obtain ⟨c', hc', rfl⟩ : ∃ c', l.columns[i]? = some c' ∧ c'.under (some leftAlias) = c := by
        simpa [Fragment.joinSide] using hc
      exact ⟨by rw [← hl.names]; simp [hc', OutputColumn.under], rfl⟩
    rw [hname.2, Sql.Expr.eval, Focus.single,
      M.lookLabel_left (List.mem_of_getElem? hname.1) _ hxl,
      M.lookLabel_list hdl (.inr rfl) hname.1, Meaning.lookSide, hside]
  · have hname : right.schema.names[i]? = some c.name ∧
        c.expr = .column (some rightAlias) c.name := by
      obtain ⟨c', hc', rfl⟩ : ∃ c', r.columns[i]? = some c' ∧ c'.under (some rightAlias) = c := by
        simpa [Fragment.joinSide] using hc
      exact ⟨by rw [← hr.names]; simp [hc', OutputColumn.under], rfl⟩
    rw [hname.2, Sql.Expr.eval, Focus.single, M.lookLabel_right hne _ hxl,
      M.lookLabel_list hdr (.inr rfl) hname.1, Meaning.lookSide, hside]

/-- The source of a join has the rows of the join. -/
theorem yield_join (hM : M.Keeps d) (hdl : left.schema.names.Nodup)
    (hdr : right.schema.names.Nodup) {kind : JoinKind} {op : Sql.JoinOp} {cs : List Expr}
    {on : List Sql.Expr} (hc : (Relation.join id left right kind cs).Checked)
    (hop : Fragment.joinOp (Target.builtin d) kind = .ok op)
    (hon : Fragment.conditions (Target.builtin d) (.join left.header right.header
      (l.joinSide leftAlias).2 (r.joinSide rightAlias).2) cs = .ok on) :
    (Sql.FromItem.join (l.joinSide leftAlias).1 (r.joinSide rightAlias).1 op on).yield M db =
      ⟨Sql.Label.list leftAlias left.schema.names ++ Sql.Label.list rightAlias right.schema.names,
        (Relation.join id left right kind cs).bag M db⟩ := by
  have hkeeps : op.keepsLeft = kind.keepsLeft ∧ op.keepsRight = kind.keepsRight := by
    unfold Fragment.joinOp at hop
    split at hop
    case h_4 | h_5 =>
      split at hop
      · obtain rfl := Except.ok.inj hop
        exact ⟨rfl, rfl⟩
      · simp [Fragment.refuse] at hop
    all_goals
      obtain rfl := Except.ok.inj hop
      exact ⟨rfl, rfl⟩
  rw [Sql.FromItem.yield, Relation.bag, hl.yield_joinSide, hr.yield_joinSide, hkeeps.1, hkeeps.2]
  simp only [Sql.Label.length_list, Schema.names, List.length_map]
  refine congrArg _ (Meaning.joined_congr fun x hx y _ => ?_)
  refine allHold_conditions (w := fun e => e.eval M (M.lookSide left.header right.header) 0
    (.single (x, y))) hon (fun _ _ => rfl) fun c hcm p hp s hs => ?_
  obtain ⟨hm, -, hrow⟩ := hc.2.1 c hcm
  have hrow := Expr.isRowLevel_eq_true.mp hrow
  exact Expr.eval_lower_row hM hs (hm.isRowLevel_of_part hrow.1 hrow.2
    (Expr.mem_parts_of_mem_conjuncts hp)) (agrees_join hl hr hne hdl hdr hx y p)

theorem Means.join (hM : M.Keeps d) (hdl : left.schema.names.Nodup)
    (hdr : right.schema.names.Nodup) {kind : JoinKind} {op : Sql.JoinOp} {cs : List Expr}
    (hc : (Relation.join id left right kind cs).Checked)
    (hop : Fragment.joinOp (Target.builtin d) kind = .ok op)
    (hg : Fragment.join (Target.builtin d) op left.header right.header
      (joinFields left.header.fields right.header.fields) cs (l.joinSide leftAlias)
      (r.joinSide rightAlias) = .ok g) : Means M db (.join id left right kind cs) g := by
  obtain ⟨on, hon, hgeq⟩ := Fragment.join_eq_ok hg
  have hlen : (joinFields left.header.fields right.header.fields).length =
      ((l.joinSide leftAlias).2 ++ (r.joinSide rightAlias).2).length := by
    have h1 := hl.length
    have h2 := hr.length
    simp only [Schema.names, List.length_map, schema] at h1 h2
    simp [Fragment.joinSide, h1, h2]
  obtain ⟨hshows, hnames, hexprs⟩ := Fragment.joinColumns hlen
  have hsource : g.source M db = (Sql.FromItem.join (l.joinSide leftAlias).1
      (r.joinSide rightAlias).1 op on).yield M db := by
    rw [hgeq]
    rfl
  rw [yield_join hl hr hne hM hdl hdr hc hop hon] at hsource
  have hcolumns : g.columns.map (·.expr) =
      (left.schema.names.map fun name => Sql.Expr.column (some leftAlias) name) ++
        right.schema.names.map fun name => Sql.Expr.column (some rightAlias) name := by
    rw [hgeq]
    refine hexprs.trans ?_
    rw [← hl.names, ← hr.names]
    simp [Fragment.joinSide, OutputColumn.under, Function.comp_def]
  refine Means.of_source ?_ (by rw [hgeq]) (by rw [hgeq]) (by rw [hgeq]; rfl) (by rw [hgeq]; rfl)
    (by rw [hgeq]; exact hnames) (by rw [hsource]) (fun row hrow => ?_) (by simp [hgeq])
  · rw [hgeq]
    apply Fragment.shaped_items _ hshows
    intro c hcm
    have hmem := List.mem_map_of_mem (f := (·.expr)) hcm
    rw [hexprs] at hmem
    simp only [Fragment.joinSide, List.map_append, List.map_map, List.mem_append,
      List.mem_map] at hmem
    rcases hmem with ⟨c', -, he⟩ | ⟨c', -, he⟩
    · exact ⟨_, _, he.symm⟩
    · exact ⟨_, _, he.symm⟩
  · rw [hsource] at hrow
    have hrl : row.length = left.schema.names.length + right.schema.names.length := by
      rw [Relation.bag] at hrow
      have hlength : ∀ n : Relation, n.schema.names.length = n.schema.length := fun n =>
        List.length_map _
      rw [hlength, hlength]
      exact Meaning.length_of_mem_joined (fun x hx => (hl.length_of_mem hx).trans (hlength left))
        (fun y hy => (hr.length_of_mem hy).trans (hlength right)) hrow
    have hvalues := congrArg (List.map fun e => (g.source M db).value M 0 (.single row) e) hcolumns
    rw [List.map_map, List.map_append, List.map_map, List.map_map] at hvalues
    refine hvalues.trans ?_
    rw [hsource]
    exact M.map_lookLabel_append hdl hdr hne hrl

end Join

end Operators

end Relation

end PlanSql
