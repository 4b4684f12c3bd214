import PlanSql.Proofs.Fragment.Induction
import PlanSql.Proofs.Fragment.Retention
import PlanSql.Proofs.Semantics.Columns
import PlanSql.Proofs.Semantics.Induced
import PlanSql.Proofs.Semantics.Sequence

/-!
# Compilation keeps rows in order

At every stage of a statement's construction the rows that its columns stand for are those of the
node, in the node's order. Conditions may be put before the sort that they come after in the plan,
keys of a later sort stand before those of an earlier one, and rows are cut last, which is why
everything that comes after a cut is done by a new SELECT.
-/
namespace PlanSql

namespace Sql.SelectOver

variable {F V : Type} [DecidableEq V] {M : Meaning V} {o : KeyOrder V} {s s' : SelectOver F}
  {source : Yield (List (List V))}

theorem isListing_iff : s.isListing = true ↔ s.distinct = false ∧ s.groupBy = [] ∧
    s.having = [] ∧ s.qualify = [] ∧ ∀ e ∈ s.expressions, e.isRowLevel = true := by
  simp [isListing, and_assoc]

theorem mem_of_mem_ordered {row : List V} (h : row ∈ s.ordered M o source) :
    row ∈ source.rows := by
  have hmem := (o.mem_sorted).mp h
  exact (List.mem_filter.mp hmem).1

/-- More conditions in WHERE filter the ordered rows. -/
theorem ordered_append {cs : List Expr} (ho : s'.orderBy = s.orderBy)
    (hw : s'.selection = s.selection ++ cs) : s'.ordered M o source =
      (s.ordered M o source).filter fun row =>
        M.allHold (source.value M 0 (.single row)) cs := by
  unfold ordered
  rw [ho, hw, o.filter_sorted, List.filter_filter]
  refine congrArg _ (List.filter_congr fun row _ => ?_)
  rw [M.allHold_append, Bool.and_comm]

/-- Keys that are put first sort the ordered rows once more. -/
theorem ordered_prepend {ks : List (SortKey Expr)} (ho : s'.orderBy = ks ++ s.orderBy)
    (hw : s'.selection = s.selection) : s'.ordered M o source =
      o.sorted (fun e row => source.value M 0 (.single row) e) ks (s.ordered M o source) := by
  unfold ordered
  rw [ho, hw, o.sorted_append]

/-- The rows of a statement depend on the expressions of its items, not on their names. -/
theorem sequenceOver_projection {p : Option (List SelectItem)}
    (he : { s with projection := p }.expressions = s.expressions)
    (ho : ∀ (row : List V) (v : Expr → V),
      { s with projection := p }.output row v = s.output row v) :
    { s with projection := p }.sequenceOver M o source = s.sequenceOver M o source := by
  have hl : { s with projection := p }.isListing = s.isListing := by
    unfold isListing
    rw [he]
  unfold sequenceOver
  simp only [hl, ho]
  rfl

end Sql.SelectOver

variable {V : Type} [DecidableEq V]

/-- What the columns are worth at the rows of a source, in the order of the statement. -/
def Fragment.listed (M : Meaning V) (o : KeyOrder V) (source : Sql.Yield (List (List V)))
    (f : Fragment) : List (List V) :=
  (f.select.ordered M o source).map fun row => f.valuesIn M source 0 (.single row)

namespace Relation

/-- A fragment lists the rows of a node: each clause of its statement is about single rows, and what
its columns are worth, in the order of the statement and cut as it says, are the node's rows. -/
structure Lists (M : Meaning V) (o : KeyOrder V) (db : Database V) (r : Relation)
    (source : Sql.Yield (List (List V))) (f : Fragment) : Prop where
  source_eq : f.select.source.sequence M o db = some source
  listing : f.select.isListing = true
  plain : f.aggregated = false ∧ f.windowed = false
  columns : ∀ c ∈ f.columns, c.expr.isRowLevel = true
  items : ∀ items, f.select.projection = some items →
    List.Forall₂ Fragment.Shows items f.columns
  names : f.columns.map (·.name) = r.schema.names
  /-- Without a projection the columns are those of the source. -/
  passes : f.select.projection = none → source.labels.map (·.2) = r.schema.names.map some ∧
    ∀ row ∈ source.rows, f.valuesIn M source 0 (.single row) = row
  rows : r.sequence M o db =
    some (cut f.select.limit f.select.offset (f.listed M o source))

section Operators

variable {M : Meaning V} {o : KeyOrder V} {db : Database V} {d : Dialect} {id : NodeId}
  {input : Relation} {source : Sql.Yield (List (List V))} {f g : Fragment}

omit [DecidableEq V] in
theorem cut_eq_self (hl : f.select.isLimited = false) (rows : List (List V)) :
    cut f.select.limit f.select.offset rows = rows := by
  obtain ⟨hlimit, hoffset⟩ : f.select.limit = none ∧ f.select.offset = 0 := by
    simpa [Sql.SelectOver.isLimited] using hl
  rw [hlimit, hoffset, cut_none]

theorem Lists.rows_of_not_limited (h : Lists M o db input source f)
    (hl : f.select.isLimited = false) :
    input.sequence M o db = some (f.listed M o source) := by
  rw [h.rows, cut_eq_self hl]

theorem Lists.project (hM : M.Keeps d) (h : Lists M o db input source f)
    {exprs : List NamedExpr} (hc : (Relation.project id input exprs).Checked)
    (hw : ∀ n ∈ exprs, n.expr.containsWindow = false) (hl : f.select.isLimited = false)
    (hg : f.project (Target.builtin d) input.header exprs = .ok g) :
    Lists M o db (.project id input exprs) source g := by
  obtain ⟨-, hout, hagg, -⟩ := hc
  have hrow : ∀ n ∈ exprs, n.expr.isRowLevel = true := fun n hn =>
    Expr.isRowLevel_eq_true.mpr ⟨hagg n hn, hw n hn⟩
  obtain ⟨items, columns, ho, rfl⟩ := Fragment.project_eq_ok hg
  obtain ⟨hcols, hitems⟩ := Fragment.outputs_eq_ok ho
  obtain ⟨hd, hk, hh, hq, he⟩ := Sql.SelectOver.isListing_iff.mp h.listing
  obtain ⟨-, hexprs⟩ := Sql.SelectOver.forall_mem_expressions.mp he
  have hnew : ∀ c ∈ columns, c.expr.isRowLevel = true :=
    Fragment.forall_columns (P := fun e => e.isRowLevel = true) hcols fun n hn s hs =>
      Expr.isRowLevel_lower (hout n hn).1 (hrow n hn) hs (Scope.forall_columns _ h.columns)
  have hshown : ∀ item ∈ items, item.expr.isRowLevel = true :=
    Fragment.forall_items (P := fun e => e.isRowLevel = true) hitems hnew
  have hlisting : { f.select with projection := some items }.isListing = true :=
    Sql.SelectOver.isListing_iff.mpr
      ⟨hd, hk, hh, hq, Sql.SelectOver.forall_mem_expressions.mpr ⟨hshown, hexprs⟩⟩
  have hwindowed : (f.windowed || items.any fun item => item.expr.containsWindow) = false := by
    rw [h.plain.2, Bool.false_or]
    apply List.any_eq_false.mpr
    intro item hi
    have hwindows := (Sql.Expr.isRowLevel_iff.mp (hshown item hi)).2
    simp [Sql.Expr.containsWindow_of_windows hwindows]
  have hrows : (Relation.project id input exprs).sequence M o db = some ((f.select.ordered M o
      source).map fun row => columns.map fun c => source.value M 0 (.single row) c.expr) := by
    rw [Relation.sequence, h.rows_of_not_limited hl, Option.map_some]
    unfold Fragment.listed
    rw [List.map_map]
    refine congrArg some (List.map_congr_left fun row _ => ?_)
    refine (map_columns (w := fun e => e.eval M (M.look input.header) 0 (.single _)) hcols
      fun n hn s hs => ?_).symm
    exact Fragment.value_lower hM hs (hrow n hn) 0 0 _
  exact {
    source_eq := h.source_eq
    listing := hlisting
    plain := ⟨h.plain.1, hwindowed⟩
    columns := hnew
    items := fun items' hp => by
      obtain rfl := Option.some.inj hp
      exact hitems
    names := Fragment.names_of_columnOf hcols
    passes := by simp
    rows := hrows.trans (congrArg some (cut_eq_self hl _).symm) }

/-- An operator that leaves the columns, the source and the projection alone. -/
theorem Lists.of_same_columns {r : Relation} (h : Lists M o db input source f)
    (hlisting : g.select.isListing = true)
    (hflags : g.aggregated = f.aggregated ∧ g.windowed = f.windowed)
    (hcolumns : g.columns = f.columns) (hsource : g.select.source = f.select.source)
    (hproj : g.select.projection = f.select.projection) (hschema : r.schema = input.schema)
    (hrows : r.sequence M o db =
      some (cut g.select.limit g.select.offset (g.listed M o source))) :
    Lists M o db r source g where
  source_eq := by rw [hsource, h.source_eq]
  listing := hlisting
  plain := by rw [hflags.1, hflags.2]; exact h.plain
  columns := by rw [hcolumns]; exact h.columns
  items := by rw [hproj, hcolumns]; exact h.items
  names := by rw [hcolumns, h.names, hschema]
  passes := by
    unfold Fragment.valuesIn
    rw [hproj, hcolumns, hschema]
    exact h.passes
  rows := hrows

theorem Lists.filter (hM : M.Keeps d) (h : Lists M o db input source f) {cs : List Expr}
    (hc : (Relation.filter id input cs).Checked) (hw : ∀ c ∈ cs, c.containsWindow = false)
    (hl : f.select.isLimited = false)
    (hg : f.filter (Target.builtin d) input.header cs = .ok g) :
    Lists M o db (.filter id input cs) source g := by
  obtain ⟨ss, hss, hg⟩ := Fragment.filter_eq_ok hg
  -- without groups and windows the conditions go to WHERE
  obtain rfl : g = { f with select :=
      { f.select with selection := f.select.selection ++ ss } } := by
    rcases hg with ⟨ha, -⟩ | ⟨-, hwin, -⟩ | ⟨-, -, hg⟩
    · exact absurd (ha.symm.trans h.plain.1) (by simp)
    · exact absurd (hwin.symm.trans h.plain.2) (by simp)
    · exact hg
  have hpart : ∀ c ∈ cs, ∀ p ∈ c.conjuncts, p.Made ∧ p.isRowLevel = true := by
    intro c hcm p hp
    obtain ⟨hm, -, ha⟩ := hc c hcm
    have hparts := Expr.mem_parts_of_mem_conjuncts hp
    exact ⟨hm.part hparts, hm.isRowLevel_of_part ha (hw c hcm) hparts⟩
  obtain ⟨hd, hk, hh, hq, he⟩ := Sql.SelectOver.isListing_iff.mp h.listing
  obtain ⟨hpe, hse, hge, hhe, hqe, hoe⟩ := Sql.SelectOver.forall_mem_expressions.mp he
  have hnew : ∀ s ∈ ss, s.isRowLevel = true :=
    Fragment.forall_conditions hss fun c hcm p hp s hs =>
      Expr.isRowLevel_lower (hpart c hcm p hp).1 (hpart c hcm p hp).2 hs
        (Scope.forall_columns _ h.columns)
  refine h.of_same_columns ?_ ⟨rfl, rfl⟩ rfl rfl rfl rfl ?_
  · exact Sql.SelectOver.isListing_iff.mpr ⟨hd, hk, hh, hq,
      Sql.SelectOver.forall_mem_expressions.mpr
        ⟨hpe, List.forall_mem_append.mpr ⟨hse, hnew⟩, hge, hhe, hqe, hoe⟩⟩
  · have hordered : { f.select with selection := f.select.selection ++ ss }.ordered M o source =
        (f.select.ordered M o source).filter fun row =>
          M.allHold (source.value M 0 (.single row)) ss := Sql.SelectOver.ordered_append rfl rfl
    rw [Relation.sequence, h.rows_of_not_limited hl, cut_eq_self hl, Option.map_some]
    unfold Fragment.listed
    rw [hordered, List.filter_map]
    refine congrArg (fun rows => some (List.map _ rows)) (List.filter_congr fun row _ => ?_)
    refine (allHold_conditions hss (fun _ _ => rfl) fun c hcm p hp s hs => ?_).symm
    exact Fragment.value_lower hM hs (hpart c hcm p hp).2 0 0 _

theorem Lists.sort (hM : M.Keeps d) (h : Lists M o db input source f)
    {keys : List (SortKey Expr)} (hc : (Relation.sort id input keys).Checked)
    (hw : ∀ k ∈ keys, k.expr.containsWindow = false) (hl : f.select.isLimited = false)
    (hg : f.sort (Target.builtin d) input.header keys = .ok g) :
    Lists M o db (.sort id input keys) source g := by
  have hrow : ∀ k ∈ keys, k.expr.isRowLevel = true := fun k hk =>
    Expr.isRowLevel_eq_true.mpr ⟨(hc k hk).2.2, hw k hk⟩
  obtain ⟨ss, hss, rfl⟩ := Fragment.sort_eq_ok hg
  obtain ⟨hd, hk, hh, hq, he⟩ := Sql.SelectOver.isListing_iff.mp h.listing
  obtain ⟨hpe, hse, hge, hhe, hqe, hoe⟩ := Sql.SelectOver.forall_mem_expressions.mp he
  have hnew : ∀ k ∈ ss, k.expr.isRowLevel = true :=
    Fragment.forall_keys (P := fun e => e.isRowLevel = true) hss fun k hkm s hs =>
      Expr.isRowLevel_lower (hc k hkm).1 (hrow k hkm) hs (Scope.forall_columns _ h.columns)
  refine h.of_same_columns ?_ ⟨rfl, rfl⟩ rfl rfl rfl rfl ?_
  · exact Sql.SelectOver.isListing_iff.mpr ⟨hd, hk, hh, hq,
      Sql.SelectOver.forall_mem_expressions.mpr
        ⟨hpe, hse, hge, hhe, hqe, List.forall_mem_append.mpr ⟨hnew, hoe⟩⟩⟩
  · have hordered : { f.select with orderBy := ss ++ f.select.orderBy }.ordered M o source =
        o.sorted (fun e row => source.value M 0 (.single row) e) ss
          (f.select.ordered M o source) := Sql.SelectOver.ordered_prepend rfl rfl
    have hkeys := (List.forall₂_and_left keys ss).mpr ⟨hrow, Expr.lowerKeys_eq_ok.mp hss⟩
    rw [Relation.sequence, h.rows_of_not_limited hl, cut_eq_self hl, Option.map_some]
    unfold Fragment.listed
    rw [hordered]
    refine congrArg some (o.map_sorted _ (hkeys.flip.imp fun s k hk => ?_) _).symm
    obtain ⟨hlevel, hlower, hdesc⟩ := hk
    exact ⟨hdesc, fun row => (Fragment.value_lower hM hlower hlevel 0 0 _).symm⟩

theorem Lists.limit (h : Lists M o db input source f) (hl : f.select.isLimited = false)
    (count : Option Nat) (offset : Nat) :
    Lists M o db (.limit id input count offset) source (f.limit count offset) := by
  refine h.of_same_columns h.listing ⟨rfl, rfl⟩ rfl rfl rfl rfl ?_
  rw [Relation.sequence, h.rows_of_not_limited hl]
  rfl

section Statement

variable {r : Relation} (h : Lists M o db r source f)
include h

/-- What the projection shows is what the columns are worth. -/
theorem Lists.output_eq {row : List V} (hrow : row ∈ f.select.ordered M o source) :
    f.select.output row (source.value M 0 (.single row)) =
      f.valuesIn M source 0 (.single row) := by
  unfold Sql.SelectOver.output
  cases hp : f.select.projection with
  | some items => exact Fragment.map_value_of_shows (h.items items hp) _
  | none =>
    have hmem := Sql.SelectOver.mem_of_mem_ordered hrow
    exact ((h.passes hp).2 row hmem).symm

/-- The rows of the statement are those of the node, in the same order. -/
theorem Lists.sequenceOver_eq :
    f.select.sequenceOver M o source = r.sequence M o db := by
  have hout := List.map_congr_left fun row hrow => h.output_eq hrow
  rw [Sql.SelectOver.sequenceOver, if_pos h.listing, h.rows, hout]
  rfl

theorem Lists.sequence_eq : f.select.sequence M o db = r.sequence M o db := by
  rw [Sql.Select.sequence, h.source_eq, Option.bind_some, h.sequenceOver_eq]

/-- Every row has a value for each column. -/
theorem Lists.length_of_mem {rows : List (List V)} (hr : r.sequence M o db = some rows)
    {row : List V} (hrow : row ∈ rows) : row.length = r.schema.names.length := by
  obtain rfl := Option.some.inj (h.rows.symm.trans hr)
  have hmem := mem_of_mem_cut hrow
  obtain ⟨x, -, rfl⟩ := List.mem_map.mp hmem
  rw [← h.names, List.length_map]
  exact List.length_map _

/-- A derived table made of the statement has the columns and the rows of the node. -/
theorem Lists.sequence_named {rows : List (List V)} (hr : r.sequence M o db = some rows)
    (itemAlias : String) : (Sql.FromItem.derived f.named itemAlias).sequence M o db =
      some ⟨Sql.Label.list itemAlias r.schema.names, rows⟩ := by
  have hlabels := Fragment.labels_named h.items h.names (fun hp => (h.passes hp).1) itemAlias
  have hnamed : f.named.sequenceOver M o source = f.select.sequenceOver M o source :=
    Sql.SelectOver.sequenceOver_projection f.expressions_named f.output_named
  have hsource : f.named.source.sequence M o db = some source := h.source_eq
  rw [Sql.FromItem.sequence_derived, hsource, Option.bind_some, hnamed, h.sequenceOver_eq, hr,
    Option.map_some, hlabels]

end Statement

/-- A fragment that selects from an item and does nothing else lists the item's rows. -/
theorem lists_ofSource {r : Relation} {item : Sql.FromItem} {columns : List OutputColumn}
    {names : List String} {itemAlias : String} {rows : List (List V)}
    (hs : item.sequence M o db = some ⟨Sql.Label.list itemAlias names, rows⟩)
    (hd : names.Nodup) (hn : columns.map (·.name) = names) (hr : r.schema.names = names)
    (hc : columns.map (·.expr) = names.map fun name => .column none name)
    (hrows : ∀ row ∈ rows, row.length = names.length) (hseq : r.sequence M o db = some rows) :
    Lists M o db r ⟨Sql.Label.list itemAlias names, rows⟩ (.ofSource item columns) := by
  have hvalues : ∀ row ∈ rows, (Fragment.ofSource item columns).valuesIn M
      ⟨Sql.Label.list itemAlias names, rows⟩ 0 (.single row) = row := fun row hrow =>
    Fragment.valuesIn_of_names hd rfl hc (hrows row hrow)
  have hlevel : ∀ c ∈ columns, c.expr.isRowLevel = true :=
    (forall_mem_iff_of_map_eq (P := fun e => e.isRowLevel = true) hc).mpr fun _ _ => rfl
  have hordered : (Fragment.ofSource item columns).select.ordered M o
      ⟨Sql.Label.list itemAlias names, rows⟩ = rows := by
    simp [Sql.SelectOver.ordered, Fragment.ofSource, Sql.SelectOver.ofSource, Meaning.allHold]
  have hlisted : (Fragment.ofSource item columns).listed M o
      ⟨Sql.Label.list itemAlias names, rows⟩ = rows := by
    rw [Fragment.listed, hordered, List.map_congr_left hvalues, List.map_id']
  exact {
    source_eq := hs
    listing := rfl
    plain := ⟨rfl, rfl⟩
    columns := hlevel
    items := by simp [Fragment.ofSource, Sql.SelectOver.ofSource]
    names := hn.trans hr.symm
    passes := fun _ => by
      rw [hr]
      exact ⟨by simp [Sql.Label.list], hvalues⟩
    rows := by
      rw [hseq, hlisted]
      rfl }

theorem Lists.wrapped {r : Relation} (h : Lists M o db r source f)
    (hd : r.schema.names.Nodup) (itemAlias : String) :
    ∃ source', Lists M o db r source' (f.wrapped itemAlias) := by
  have hnamed := h.sequence_named h.rows itemAlias
  refine ⟨_, lists_ofSource hnamed hd ?_ rfl (f.exprs_wrapped h.names itemAlias)
    (fun row hrow => h.length_of_mem h.rows hrow) h.rows⟩
  rw [← h.names]
  simp [OutputColumn.under]

theorem lists_table {name : String} {aliasName : Option String} {fields : Schema}
    (hc : (Relation.table id name aliasName fields).Checked)
    (hdb : (db name).columns = fields.names) :
    ∃ source', Lists M o db (.table id name aliasName fields) source'
      (.ofTable name aliasName fields) := by
  have hitem : (Sql.FromItem.table name aliasName).sequence M o db =
      some ⟨Sql.Label.list (aliasName.getD name) fields.names, (db name).rows⟩ := by
    rw [← hdb]
    rfl
  refine ⟨_, lists_ofSource hitem hc ?_ rfl (Fragment.exprs_ofTable name aliasName fields) ?_ rfl⟩
  · simp [Schema.names]
  · rw [← hdb]
    exact (db name).shaped

end Operators

/-- An operator that keeps the order of rows or gives them one. -/
def isOrdered : Relation → Bool
  | .table _ _ _ _ | .project _ _ _ | .filter _ _ _ | .sort _ _ _ | .limit _ _ _ _ => true
  | .aggregate _ _ _ _ _ | .join _ _ _ _ _ | .window _ _ _ | .distinct _ _ => false

/-- A relation whose rows come in a known order, none of which has to do with windows of rows. -/
structure IsListing (r : Relation) : Prop where
  ordered : ∀ n ∈ r.nodes, n.isOrdered = true
  windows : ∀ n ∈ r.nodes, ∀ e ∈ n.exprs, e.containsWindow = false

variable {M : Meaning V} {o : KeyOrder V} {db : Database V} {d : Dialect} {root : Relation}

/-- Every operator that has to do with order keeps the rows of its node in their order. -/
theorem keeps_lists (hM : M.Keeps d) (hw : root.WellFormed) (hr : root.IsListing)
    (hdb : root.Declares db) : Keeps (Target.builtin d) root
      (fun r f => ∃ source, Lists M o db r source f) fun _ => True where
  wrapped aliasName hn h := h.elim fun _ h => h.wrapped (hw.node hn).nodup_names aliasName
  table {id name aliasName fields} hn :=
    lists_table (hw _ hn) (hdb _ hn id name aliasName fields rfl)
  project {id input exprs f} hn h _ hs := settles_of_ok fun g hg => by
    obtain ⟨source, h⟩ := h
    have hwin : ∀ n ∈ exprs, n.expr.containsWindow = false := fun n hm =>
      hr.windows _ hn _ (List.mem_map_of_mem hm)
    exact ⟨source, h.project hM (hw _ hn) hwin (Fragment.isSettled_eq_false.mp hs).1 hg⟩
  filter hn h hs _ := settles_of_ok fun g hg => by
    obtain ⟨source, h⟩ := h
    exact ⟨source, h.filter hM (hw _ hn) (hr.windows _ hn) (Fragment.isSettled_eq_false.mp hs).1 hg⟩
  sort {id input keys f} hn h hl := settles_of_ok fun g hg => by
    obtain ⟨source, h⟩ := h
    have hwin : ∀ k ∈ keys, k.expr.containsWindow = false := fun k hm =>
      hr.windows _ hn _ (List.mem_map_of_mem hm)
    exact ⟨source, h.sort hM (hw _ hn) hwin hl hg⟩
  limit {id input count offset f} _ h hl := by
    obtain ⟨source, h⟩ := h
    exact ⟨source, h.limit hl count offset⟩
  aggregate hn := absurd (hr.ordered _ hn) (by simp [isOrdered])
  joinOp hn := absurd (hr.ordered _ hn) (by simp [isOrdered])
  join hn := absurd (hr.ordered _ hn) (by simp [isOrdered])
  window hn := absurd (hr.ordered _ hn) (by simp [isOrdered])
  distinct hn := absurd (hr.ordered _ hn) (by simp [isOrdered])

/-- The statement of a listing that exists has the rows of the listing in the same order, and has
none of the clauses for which no order is known. -/
theorem toSelect_sequence (hM : M.Keeps d) {r : Relation} (h : r.Valid) (hr : r.IsListing)
    (hdb : r.Declares db) {s : Sql.Select} (hs : r.toSelect (Target.builtin d) = .ok s) :
    ∃ rows, r.sequence M o db = some rows ∧ s.sequence M o db = some rows := by
  obtain ⟨f, ⟨source, hf⟩, rfl⟩ :=
    ((keeps_lists hM h.wellFormed hr hdb).toSelect h.coherent).of_ok hs
  exact ⟨_, hf.rows, hf.sequence_eq.trans hf.rows⟩

/-- The two rows with the highest `y`, by their `x`. -/
def highest : Relation :=
  .sort 3 (.limit 2 (.sort 1 (.table 0 "a" none [⟨"x", .int64, false⟩, ⟨"y", .int64, false⟩])
    [⟨.column ⟨none, "y"⟩ .int64, true⟩]) (some 2) 0) [⟨.column ⟨none, "x"⟩ .int64, false⟩]

theorem valid_highest : highest.Valid := by
  have ha : scan 0 "a" none [⟨"x", .int64, false⟩, ⟨"y", .int64, false⟩] = .ok _ := rfl
  have hy : sortBy 1 (.table 0 "a" none [⟨"x", .int64, false⟩, ⟨"y", .int64, false⟩])
      [⟨.column ⟨none, "y"⟩ .int64, true⟩] = .ok _ := rfl
  have hl : slice 2 (.sort 1 (.table 0 "a" none [⟨"x", .int64, false⟩, ⟨"y", .int64, false⟩])
      [⟨.column ⟨none, "y"⟩ .int64, true⟩]) (some 2) 0 = .ok _ := rfl
  have hx : sortBy 3 (.limit 2 (.sort 1
      (.table 0 "a" none [⟨"x", .int64, false⟩, ⟨"y", .int64, false⟩])
      [⟨.column ⟨none, "y"⟩ .int64, true⟩]) (some 2) 0)
      [⟨.column ⟨none, "x"⟩ .int64, false⟩] = .ok highest := rfl
  refine ⟨_, .call (.call (.call (.call .start (.scan ha) (by simp))
    (.sortBy List.mem_cons_self (by simpa using .column _ _) hy) (by simp [id]))
    (.slice List.mem_cons_self hl) (by simp [id]))
    (.sortBy List.mem_cons_self (by simpa using .column _ _) hx) (by simp [id, highest]),
    List.mem_cons_self⟩

theorem isListing_highest : highest.IsListing where
  ordered := by simp [highest, nodes, isOrdered]
  windows := by decide

/-- Three rows, one of which has the lowest `y`. -/
def highestTables : Database Value := fun _ =>
  ⟨["x", "y"], [[.int 2, .int 7], [.int 3, .int 5], [.int 1, .int 6]], by decide⟩

theorem declares_highestTables : highest.Declares highestTables := by
  intro n hn id name aliasName fields he
  simp only [highest, nodes, List.mem_cons, List.not_mem_nil, or_false] at hn
  rcases hn with rfl | rfl | rfl | rfl
  · cases he
  · cases he
  · cases he
  · cases he
    rfl

/-- Numbers in their order. -/
def byNumber : KeyOrder Value := .ofRank fun
  | .int n => n
  | _ => 0

theorem toSelect_highest_sequence :
    ∃ s, highest.toSelect (Target.builtin .mysql) = .ok s ∧ ∃ rows,
      highest.sequence (.ofSql .constants .comparing .mysql) byNumber highestTables = some rows ∧
      s.sequence (.ofSql .constants .comparing .mysql) byNumber highestTables = some rows := by
  have hs : highest.toSelect (Target.builtin .mysql) = .ok _ := rfl
  exact ⟨_, hs, toSelect_sequence (Meaning.keeps_comparing .mysql) valid_highest
    isListing_highest declares_highestTables hs⟩

end Relation

end PlanSql
