import PlanSql.Proofs.Fragment.WindowClauses

/-!
# Predicates on window functions

Where the predicates of a plan end that speak of a column which is a window function. In the SELECT
that evaluates the function they are conditions of QUALIFY; with a derived table in between, which
computes the function as one of its columns, they are conditions of WHERE and speak of that column.
-/
namespace PlanSql

namespace Sql

/-- A source computes a column by a window function, in one of the statements it derives it from. -/
inductive Computes : FromItem → Expr.Reference → Prop
  | call {s : Select} {aliasName name : String} {q : Option String} {item : SelectItem}
      (hq : q = none ∨ q = some aliasName) (hi : item ∈ s.projection.getD [])
      (hn : itemName? item = some name) (hw : item.expr.windows = true) :
      Computes (.derived s aliasName) (q, name)
  | shown {s : Select} {aliasName name : String} {q : Option String} {item : SelectItem}
      {ref : Expr.Reference} (hq : q = none ∨ q = some aliasName) (hi : item ∈ s.projection.getD [])
      (hn : itemName? item = some name) (he : item.expr.reference? = some ref)
      (hc : Computes s.source ref) : Computes (.derived s aliasName) (q, name)
  | all {s : Select} {aliasName name : String} {q : Option String}
      (hq : q = none ∨ q = some aliasName) (hp : s.projection = none)
      (hc : Computes s.source (none, name)) : Computes (.derived s aliasName) (q, name)
  | left {l r : FromItem} {op : JoinOp} {on : List Expr} {ref : Expr.Reference}
      (hc : Computes l ref) : Computes (.join l r op on) ref
  | right {l r : FromItem} {op : JoinOp} {on : List Expr} {ref : Expr.Reference}
      (hc : Computes r ref) : Computes (.join l r op on) ref

/-- An expression over a source is made by a window function: it contains the call, or it is a
column that the source computes by one. -/
def Expr.OnWindow (source : FromItem) (e : Expr) : Prop :=
  e.windows = true ∨ ∃ ref, e.reference? = some ref ∧ Computes source ref

end Sql

namespace Relation

/-- The column at a position is a window function, here or in a node that passes it on. A column of
an aggregation is about groups and no longer one. -/
inductive WindowColumn : Relation → Nat → Prop
  | window {id : NodeId} {input : Relation} {exprs : List NamedExpr} {n : NamedExpr} {i : Nat}
      (hn : exprs[i]? = some n) (hw : n.expr.isWindow = true) :
      WindowColumn (.window id input exprs) (input.header.fields.length + i)
  | beside {id : NodeId} {input : Relation} {exprs : List NamedExpr} {i : Nat}
      (h : WindowColumn input i) : WindowColumn (.window id input exprs) i
  | project {id : NodeId} {input : Relation} {exprs : List NamedExpr} {n : NamedExpr} {i : Nat}
      (hn : exprs[i]? = some n) (hw : n.expr.isWindow = true) :
      WindowColumn (.project id input exprs) i
  | shown {id : NodeId} {input : Relation} {exprs : List NamedExpr} {n : NamedExpr} {i j : Nat}
      {ref : ColumnRef} (hn : exprs[i]? = some n) (hr : n.expr.column? = some ref)
      (hj : input.header.lookup ref = .found j) (h : WindowColumn input j) :
      WindowColumn (.project id input exprs) i
  | filter {id : NodeId} {input : Relation} {conditions : List Expr} {i : Nat}
      (h : WindowColumn input i) : WindowColumn (.filter id input conditions) i
  | sort {id : NodeId} {input : Relation} {keys : List (SortKey Expr)} {i : Nat}
      (h : WindowColumn input i) : WindowColumn (.sort id input keys) i
  | limit {id : NodeId} {input : Relation} {count : Option Nat} {offset i : Nat}
      (h : WindowColumn input i) : WindowColumn (.limit id input count offset) i
  | distinct {id : NodeId} {input : Relation} {i : Nat} (h : WindowColumn input i) :
      WindowColumn (.distinct id input) i
  | left {id : NodeId} {left right : Relation} {kind : JoinKind} {conditions : List Expr} {i : Nat}
      (h : WindowColumn left i) : WindowColumn (.join id left right kind conditions) i
  | right {id : NodeId} {left right : Relation} {kind : JoinKind} {conditions : List Expr} {i : Nat}
      (h : WindowColumn right i) :
      WindowColumn (.join id left right kind conditions) (left.header.fields.length + i)

/-- Every predicate of a filter that speaks of a window function's column stands in QUALIFY, or in
the WHERE of a statement whose source computes that column. -/
def PredicatesPlaced (t : Target) (input : Relation) (conditions : List Expr) (s : Sql.Select) :
    Prop :=
  ∀ p ∈ conditions.flatMap Expr.conjuncts, ∀ ref ∈ p.columnRefs, ∀ i,
    input.header.lookup ref = .found i → WindowColumn input i →
    ∃ q ∈ s.statements, ∃ columns e c, p.lower t (.columns input.header columns) = .ok e ∧
      columns[i]? = some c ∧ c.expr.OnWindow q.source ∧
      (e ∈ q.qualify ∨ e ∈ q.selection ∧ c.expr.windows = false)

variable {t : Target} {root r input : Relation} {f g : Fragment} {cs : List Expr}

theorem PredicatesPlaced.within {s s' : Sql.Select} (h : PredicatesPlaced t input cs s)
    (hs : ∀ q ∈ s.statements, q ∈ s'.statements) : PredicatesPlaced t input cs s' := by
  intro p hp ref hr i hi hw
  obtain ⟨q, hq, rest⟩ := h p hp ref hr i hi hw
  exact ⟨q, hs q hq, rest⟩

theorem PredicatesPlaced.extend {s s' : Sql.Select} (h : PredicatesPlaced t input cs s)
    (hs : s'.source = s.source) (hse : s.selection ⊆ s'.selection)
    (hq : s.qualify ⊆ s'.qualify) : PredicatesPlaced t input cs s' := by
  intro p hp ref hr i hi hw
  obtain ⟨q, hm, columns, e, c, he, hc, ho, hplace⟩ := h p hp ref hr i hi hw
  rcases List.mem_cons.mp hm with rfl | hm
  · refine ⟨s', s'.mem_statements_self, columns, e, c, he, hc, by rwa [hs], ?_⟩
    exact hplace.imp (hq ·) fun ⟨hes, hcw⟩ => ⟨hse hes, hcw⟩
  · exact ⟨q, List.mem_cons_of_mem _ (by rwa [hs]), columns, e, c, he, hc, ho, hplace⟩

/-- What is known of the window functions' columns of a node and of the predicates on them in the
nodes below. -/
structure Tracked (t : Target) (r : Relation) (f : Fragment) : Prop where
  columns : ∀ i, WindowColumn r i → f.aggregated = false ∧
    ∃ c, f.columns[i]? = some c ∧ c.expr.OnWindow f.select.source
  filters : ∀ id input cs, .filter id input cs ∈ r.nodes → PredicatesPlaced t input cs f.select

/-- The filters at and below a node are those below it, unless it is one. -/
theorem Tracked.filters_of_input (h : Tracked t input f) (hin : r.inputs = [input])
    (hr : ∀ id input cs, r ≠ .filter id input cs) {s : Sql.Select}
    (hs : s.source = f.select.source) (hse : f.select.selection ⊆ s.selection)
    (hq : f.select.qualify ⊆ s.qualify) :
    ∀ id input cs, .filter id input cs ∈ r.nodes → PredicatesPlaced t input cs s := by
  intro id i cs hm
  rcases mem_nodes.mp hm with he | ⟨i', hi', hm⟩
  · exact absurd he.symm (hr id i cs)
  · obtain rfl : i' = input := by simpa [hin] using hi'
    exact (h.filters id i cs hm).extend hs hse hq

/-- A derived table computes by a window function what its statement does. -/
theorem computes_derived (hg : Grounded r f) {c : OutputColumn} (hc : c ∈ f.columns)
    (ho : c.expr.OnWindow f.select.source) {q : Option String} {aliasName : String}
    (hq : q = none ∨ q = some aliasName) :
    Sql.Computes (.derived f.named aliasName) (q, c.name) := by
  obtain ⟨visible, -, -, -, hp⟩ := hg.sees
  split at hp
  · next items hi =>
    obtain ⟨item, him, he, hn⟩ := forall₂_mem_right (Fragment.namedItems_shows hp) hc
    have him : item ∈ f.named.projection.getD [] := by simpa [Fragment.named, hi] using him
    rcases ho with hw | ⟨ref, hr, hcomp⟩
    · exact .call hq him hn (he ▸ hw)
    · exact .shown hq him hn (he ▸ hr) hcomp
  · next hi =>
    -- without a projection the columns are those of the source
    have hcol : c.expr = .column none c.name := by
      have hmap : f.columns.map (·.expr) = f.columns.map fun c => .column none c.name := by
        rw [hp.2, ← hg.names, List.map_map]
        rfl
      exact List.map_inj_left.mp hmap c hc
    rw [hcol] at ho
    rcases ho with hw | ⟨ref, hr, hcomp⟩
    · simp [Fragment.windows_column] at hw
    · obtain rfl : (none, c.name) = ref := by simpa [Sql.Expr.reference?] using hr
      exact .all hq (by simp [Fragment.named, hi]) hcomp

/-- A column that an output passes on has the same SQL as before. -/
theorem lower_shown {header : Header} {columns : List OutputColumn} {e : Expr} {s : Sql.Expr}
    {ref : ColumnRef} {j : Nat} (hr : e.column? = some ref)
    (h : e.lower t (.columns header columns) = .ok s) (hj : header.lookup ref = .found j) :
    ∃ c, columns[j]? = some c ∧ c.expr = s := by
  cases e with
  | column ref' type =>
    obtain rfl : ref' = ref := by simpa [Expr.column?] using hr
    obtain ⟨j', c, hj', hc, he⟩ := Scope.columns_eq_ok (Expr.lower_eq_ok.mp h)
    obtain rfl : j = j' := by simpa [hj] using hj'
    exact ⟨c, hc, he⟩
  | _ => simp [Expr.column?] at hr

namespace Tracked

variable {id : NodeId}

theorem wrapped (h : Tracked t r f) (hg : Grounded r f) (aliasName : String) :
    Tracked t r (f.wrapped aliasName) where
  columns i hi := by
    obtain ⟨-, c, hc, ho⟩ := h.columns i hi
    refine ⟨rfl, c.under none, by simp [Fragment.wrapped, Fragment.ofSource, hc], .inr ⟨_, rfl, ?_⟩⟩
    exact computes_derived hg (List.mem_of_getElem? hc) ho (.inl rfl)
  filters id input cs hm :=
    have hn : PredicatesPlaced t input cs f.named :=
      (h.filters id input cs hm).extend rfl (List.Subset.refl _) (List.Subset.refl _)
    hn.within fun _ hq => List.mem_cons_of_mem _ hq

variable (h : Tracked t input f)
include h

theorem project {exprs : List NamedExpr} (ha : f.aggregated = false)
    (hg : f.project t input.header exprs = .ok g) : Tracked t (.project id input exprs) g := by
  obtain ⟨items, columns, ho, rfl⟩ := Fragment.project_eq_ok hg
  obtain ⟨hcols, -⟩ := Fragment.outputs_eq_ok ho
  refine ⟨fun i hi => ⟨ha, ?_⟩,
    h.filters_of_input rfl (by simp) rfl (List.Subset.refl _) (List.Subset.refl _)⟩
  cases hi with
  | project hn hw =>
    obtain ⟨c, hc, hl, -⟩ := forall₂_getElem? hcols hn
    exact ⟨c, hc, .inl (Expr.windows_lower_of_isWindow hw hl)⟩
  | shown hn hr hj hi =>
    obtain ⟨c, hc, hl, -⟩ := forall₂_getElem? hcols hn
    obtain ⟨-, c', hc', ho⟩ := h.columns _ hi
    obtain ⟨c'', hc'', he⟩ := lower_shown hr hl hj
    obtain rfl : c' = c'' := Option.some.inj (hc'.symm.trans hc'')
    exact ⟨c, hc, he ▸ ho⟩

theorem window {exprs : List NamedExpr} (hgr : Grounded input f) (ha : f.aggregated = false)
    (hg : f.window t input.header exprs = .ok g) : Tracked t (.window id input exprs) g := by
  obtain ⟨items, columns, ho, rfl⟩ := Fragment.window_eq_ok hg
  obtain ⟨hcols, -⟩ := Fragment.outputs_eq_ok ho
  refine ⟨fun i hi => ⟨ha, ?_⟩,
    h.filters_of_input rfl (by simp) rfl (List.Subset.refl _) (List.Subset.refl _)⟩
  cases hi with
  | window hn hw =>
    obtain ⟨c, hc, hl, -⟩ := forall₂_getElem? hcols hn
    refine ⟨c, ?_, .inl (Expr.windows_lower_of_isWindow hw hl)⟩
    rw [← hgr.length, List.getElem?_append_right (Nat.le_add_right _ _), Nat.add_sub_cancel_left]
    exact hc
  | beside hi =>
    obtain ⟨-, c, hc, ho⟩ := h.columns _ hi
    have hlt := (List.getElem?_eq_some_iff.mp hc).1
    exact ⟨c, by rw [List.getElem?_append_left hlt]; exact hc, ho⟩

/-- The predicates of a filter stand where `filter` puts them; on groups there are no window
functions to speak of. -/
theorem filter (hcl : f.Cleared) (hg : f.filter t input.header cs = .ok g) :
    Tracked t (.filter id input cs) g := by
  obtain ⟨ss, hss, hg⟩ := Fragment.filter_eq_ok hg
  have hsame : g.columns = f.columns ∧ g.aggregated = f.aggregated ∧
      g.select.source = f.select.source ∧ f.select.selection ⊆ g.select.selection ∧
      f.select.qualify ⊆ g.select.qualify := by
    rcases hg with ⟨-, rfl⟩ | ⟨-, -, rfl⟩ | ⟨-, -, rfl⟩ <;> simp
  obtain ⟨hcols, hagg, hsource, hsel, hqual⟩ := hsame
  have hnew : PredicatesPlaced t input cs g.select := by
    intro p hp ref _ i _ hw
    obtain ⟨ha, c, hc, ho⟩ := h.columns i hw
    obtain ⟨e, he, hl⟩ := forall₂_mem_left (Fragment.conditions_eq_ok.mp hss) hp
    refine ⟨g.select, g.select.mem_statements_self, f.columns, e, c, hl, hc, hsource ▸ ho, ?_⟩
    rcases hg with ⟨hap, -⟩ | ⟨-, -, rfl⟩ | ⟨-, hwf, rfl⟩
    · exact absurd (ha.symm.trans hap) (by simp)
    · exact .inl (List.mem_append_right _ he)
    · exact .inr ⟨List.mem_append_right _ he, hcl.unwindowed hwf c (List.mem_of_getElem? hc)⟩
  refine ⟨fun i hi => ?_, fun id' input' cs' hm => ?_⟩
  · cases hi with
    | filter hi => rw [hcols, hagg, hsource]; exact h.columns i hi
  · rcases mem_nodes.mp hm with he | ⟨i, hi, hmi⟩
    · obtain ⟨-, hinput, hcs⟩ := Relation.filter.inj he
      rw [hinput, hcs]
      exact hnew
    · rw [List.mem_singleton.mp hi] at hmi
      exact (h.filters id' input' cs' hmi).extend hsource hsel hqual

theorem aggregate {keys metrics : List NamedExpr} {having : List Expr}
    (hg : f.aggregate t input.header keys metrics having = .ok g) :
    Tracked t (.aggregate id input keys metrics having) g := by
  obtain ⟨keyItems, keyColumns, metricItems, metricColumns, ss, -, -, -, rfl⟩ :=
    Fragment.aggregate_eq_ok hg
  exact ⟨fun i hi => (nomatch hi),
    h.filters_of_input rfl (by simp) rfl (List.Subset.refl _) (List.Subset.refl _)⟩

theorem sort {keys : List (SortKey Expr)} (hg : f.sort t input.header keys = .ok g) :
    Tracked t (.sort id input keys) g := by
  obtain ⟨ss, -, rfl⟩ := Fragment.sort_eq_ok hg
  refine ⟨fun i hi => ?_,
    h.filters_of_input rfl (by simp) rfl (List.Subset.refl _) (List.Subset.refl _)⟩
  cases hi with
  | sort hi => exact h.columns i hi

theorem limit (count : Option Nat) (offset : Nat) :
    Tracked t (.limit id input count offset) (f.limit count offset) := by
  refine ⟨fun i hi => ?_,
    h.filters_of_input rfl (by simp) rfl (List.Subset.refl _) (List.Subset.refl _)⟩
  cases hi with
  | limit hi => exact h.columns i hi

theorem distinct : Tracked t (.distinct id input) f.distinct := by
  refine ⟨fun i hi => ?_,
    h.filters_of_input rfl (by simp) rfl (List.Subset.refl _) (List.Subset.refl _)⟩
  cases hi with
  | distinct hi => exact h.columns i hi

omit h in
/-- A side of a join: its columns under the alias, and its predicates in the derived table. A bare
table has neither window functions nor predicates. -/
theorem joinSide (h : Tracked t r f) (hg : Grounded r f) (aliasName : String) :
    (∀ i, WindowColumn r i → ∃ c, (f.joinSide aliasName).2[i]? = some c ∧
        c.expr.OnWindow (f.joinSide aliasName).1) ∧
      ∀ id input cs, .filter id input cs ∈ r.nodes → ∀ s : Sql.Select,
        (∀ q ∈ (f.joinSide aliasName).1.selects, q ∈ s.statements) →
        PredicatesPlaced t input cs s := by
  unfold Fragment.joinSide
  cases hb : f.select.bareTable? with
  | none =>
    refine ⟨fun i hi => ?_, fun id input cs hm s hs => ?_⟩
    · obtain ⟨-, c, hc, ho⟩ := h.columns i hi
      refine ⟨c.under (some aliasName), by simp [hc], .inr ⟨_, rfl, ?_⟩⟩
      exact computes_derived hg (List.mem_of_getElem? hc) ho (.inr rfl)
    · have hn : PredicatesPlaced t input cs f.named :=
        (h.filters id input cs hm).extend rfl (List.Subset.refl _) (List.Subset.refl _)
      exact hn.within hs
  | some table =>
    obtain ⟨⟨tableAlias, hs⟩, hp, -, hsel, -, hqual⟩ := Sql.Select.bareTable?_eq_some hb
    refine ⟨fun i hi => ?_, fun id input cs hm s _ p hpm ref hr i hi hw => ?_⟩
    · obtain ⟨-, c, hc, ho⟩ := h.columns i hi
      -- a derived table of the same statement would have to compute the column from a table
      have hcomp : Sql.Computes (.derived f.named aliasName) (none, c.name) :=
        computes_derived hg (List.mem_of_getElem? hc) ho (.inl rfl)
      cases hcomp with
      | call _ hi | shown _ hi => simp [Fragment.named, hp] at hi
      | all _ _ hc =>
        rw [show f.named.source = f.select.source from rfl, hs] at hc
        cases hc
    · obtain ⟨q, hq, columns, e, c, -, -, -, hplace⟩ := h.filters id input cs hm p hpm ref hr i hi hw
      obtain rfl : q = f.select := by
        simpa [Sql.Select.statements, hs, Sql.FromItem.selects] using hq
      rw [hsel, hqual] at hplace
      simp at hplace

end Tracked

theorem Tracked.join {id : NodeId} {left right : Relation} {l r : Fragment} {kind : JoinKind}
    {op : Sql.JoinOp} {a b : String} (hl : Tracked t left l) (hr : Tracked t right r)
    (hgl : Grounded left l) (hgr : Grounded right r)
    (hg : Fragment.join t op left.header right.header
      (joinFields left.header.fields right.header.fields) cs (l.joinSide a) (r.joinSide b) =
      .ok g) : Tracked t (.join id left right kind cs) g := by
  obtain ⟨on, -, rfl⟩ := Fragment.join_eq_ok hg
  obtain ⟨hlc, hlf⟩ := hl.joinSide hgl a
  obtain ⟨hrc, hrf⟩ := hr.joinSide hgr b
  have hleft : (l.joinSide a).2.length = left.header.fields.length := by
    simp [Fragment.joinSide, hgl.length]
  have hlen : (joinFields left.header.fields right.header.fields).length =
      ((l.joinSide a).2 ++ (r.joinSide b).2).length := by
    simp [Fragment.joinSide, hgl.length, hgr.length]
  obtain ⟨-, -, hexprs⟩ := Fragment.joinColumns hlen
  -- the column at a position has the SQL that it has on its side
  have hat : ∀ {i : Nat} {c : OutputColumn},
      ((l.joinSide a).2 ++ (r.joinSide b).2)[i]? = some c → ∃ c',
        (List.zipWith Fragment.joinColumn (joinFields left.header.fields right.header.fields)
          ((l.joinSide a).2 ++ (r.joinSide b).2)).unzip.2[i]? = some c' ∧ c'.expr = c.expr := by
    intro i c hc
    have hi := congrArg (·[i]?) hexprs
    simp only [List.getElem?_map, hc, Option.map_some, Option.map_eq_some_iff] at hi
    exact hi
  refine ⟨fun i hi => ⟨rfl, ?_⟩, fun id' input' cs' hm => ?_⟩
  · cases hi with
    | left hi =>
      obtain ⟨c, hc, ho⟩ := hlc _ hi
      have hlt := (List.getElem?_eq_some_iff.mp hc).1
      obtain ⟨c', hc', he⟩ := hat ((List.getElem?_append_left hlt).trans hc)
      refine ⟨c', hc', he ▸ ho.imp_right ?_⟩
      rintro ⟨ref, hr, hcomp⟩
      exact ⟨ref, hr, .left hcomp⟩
    | @right _ _ _ _ _ j hi =>
      obtain ⟨c, hc, ho⟩ := hrc j hi
      have hcr : ((l.joinSide a).2 ++ (r.joinSide b).2)[left.header.fields.length + j]? = some c := by
        rw [← hleft, List.getElem?_append_right (Nat.le_add_right _ _), Nat.add_sub_cancel_left]
        exact hc
      obtain ⟨c', hc', he⟩ := hat hcr
      refine ⟨c', hc', he ▸ ho.imp_right ?_⟩
      rintro ⟨ref, hr, hcomp⟩
      exact ⟨ref, hr, .right hcomp⟩
  · have hm' : .filter id' input' cs' ∈ left.nodes ∨ .filter id' input' cs' ∈ right.nodes := by
      simpa [nodes] using hm
    rcases hm' with hm' | hm'
    · exact hlf id' input' cs' hm' _ fun q hq =>
        List.mem_cons_of_mem _ (List.mem_append_left _ hq)
    · exact hrf id' input' cs' hm' _ fun q hq =>
        List.mem_cons_of_mem _ (List.mem_append_right _ hq)

/-- The rows of a table with their numbers. -/
def numbered : Relation :=
  .window 1 (.table 0 "t" none [⟨"a", .int64, false⟩]) [⟨.ranking .rowNumber, some "n"⟩]

theorem session_numbered :
    Session [numbered, .table 0 "t" none [⟨"a", .int64, false⟩]] := by
  have ht : scan 0 "t" none [⟨"a", .int64, false⟩] = .ok _ := rfl
  have hw : extend 1 (.table 0 "t" none [⟨"a", .int64, false⟩])
      [⟨.ranking .rowNumber, some "n"⟩] = .ok numbered := rfl
  refine .call (.call .start (.scan ht) (by simp)) (.extend (by simp) ?_ hw) (by simp [id, numbered])
  simpa using .ranking (by simp)

/-- The first row of a table. -/
def first : Relation :=
  .filter 2 numbered [.binary .eq (.column ⟨none, "n"⟩ .int64) (.int 1)]

theorem session_first :
    Session [first, numbered, .table 0 "t" none [⟨"a", .int64, false⟩]] := by
  have he : Expr.applyBinary .eq (.column ⟨none, "n"⟩ .int64) (.int 1) = .ok _ := rfl
  have hf : restrict 2 numbered [.binary .eq (.column ⟨none, "n"⟩ .int64) (.int 1)] =
      .ok first := rfl
  refine .call session_numbered (.restrict (by simp) ?_ hf) (by simp [id, first, numbered])
  simpa using .binary (.column _ _) (.literal _) he

theorem valid_first : first.Valid := ⟨_, session_first, List.mem_cons_self⟩

end Relation

end PlanSql
