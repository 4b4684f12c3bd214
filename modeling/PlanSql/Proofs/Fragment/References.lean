import Mathlib.Data.List.Nodup
import PlanSql.Proofs.Fragment.Clauses
import PlanSql.Proofs.Fragment.Induction

/-!
# What references lead to

A statement sees the columns of its source: without a qualifier if the source is a table or a
derived table, under one of two different aliases if it is a join of two such items. Definitions of
columns are copied from one clause into another and from one operator into the next; as long as no
new SELECT is put around them the source stays the same, and once one is, all of them are replaced
by references to the columns that it makes.
-/
namespace PlanSql

namespace Sql

/-- The name that the columns of an item are qualified with. -/
def FromItem.aliasName? : FromItem → Option String
  | .table _ aliasName => aliasName
  | .derived _ aliasName => some aliasName
  | .join _ _ _ _ => none

/-- Each reference of an expression names exactly one of the visible columns. -/
def Expr.ResolvesIn (visible : List Expr.Reference) (e : Expr) : Prop :=
  ∀ ref ∈ e.references, visible.count ref = 1

/-- The names of a statement's columns, the visible ones being those of its source. -/
def SelectOver.outputNames {F : Type} (s : SelectOver F) (visible : List Expr.Reference) :
    List (Option String) :=
  match s.projection with
  | none => visible.map fun ref => some ref.2
  | some items => items.map itemName?

end Sql

/-- The columns of a node, as references to them. -/
def Relation.seenAs (n : Relation) (qualifier : Option String) : List Sql.Expr.Reference :=
  n.schema.names.map fun name => (qualifier, name)

mutual

/-- An item of a FROM clause exposes exactly the columns of a node, in order and each of them
once. -/
inductive Exposes : Relation → Sql.FromItem → Prop
  | table {n : Relation} {id : NodeId} {name : String} {aliasName itemAlias : Option String}
      {fields : Schema} (hm : .table id name aliasName fields ∈ n.nodes)
      (hn : fields.names = n.schema.names) (hd : n.schema.names.Nodup) :
      Exposes n (.table name itemAlias)
  | derived {n : Relation} {s : Sql.Select} {visible : List Sql.Expr.Reference} {itemAlias : String}
      (hs : Scoped n s visible) (hn : s.outputNames visible = n.schema.names.map some)
      (hd : n.schema.names.Nodup) : Exposes n (.derived s itemAlias)

/-- The columns that a statement for a node sees in its source, as it has to refer to them. -/
inductive Sees : Relation → Sql.FromItem → List Sql.Expr.Reference → Prop
  | single {r n : Relation} {item : Sql.FromItem} (hn : n ∈ r.nodes) (hi : Exposes n item) :
      Sees r item (n.seenAs none)
  | join {r left right : Relation} {l r' : Sql.FromItem} {op : Sql.JoinOp} {on : List Sql.Expr}
      {leftAlias rightAlias : String} (hl : left ∈ r.nodes) (hr : right ∈ r.nodes)
      (hle : Exposes left l) (hre : Exposes right r') (hla : l.aliasName? = some leftAlias)
      (hra : r'.aliasName? = some rightAlias) (hne : leftAlias ≠ rightAlias)
      (hon : ∀ e ∈ on, e.ResolvesIn
        (left.seenAs (some leftAlias) ++ right.seenAs (some rightAlias))) :
      Sees r (.join l r' op on) (left.seenAs (some leftAlias) ++ right.seenAs (some rightAlias))

/-- All references in the clauses of a statement name one of the columns that it sees. -/
inductive Scoped : Relation → Sql.Select → List Sql.Expr.Reference → Prop
  | mk {r : Relation} {s : Sql.Select} {visible : List Sql.Expr.Reference}
      (hs : Sees r s.source visible) (he : ∀ e ∈ s.expressions, e.ResolvesIn visible) :
      Scoped r s visible

end

theorem Sees.mono {n r : Relation} {item : Sql.FromItem} {visible : List Sql.Expr.Reference}
    (h : Sees n item visible) (hsub : ∀ m ∈ n.nodes, m ∈ r.nodes) : Sees r item visible := by
  cases h with
  | single hn hi => exact .single (hsub _ hn) hi
  | join hl hr hle hre hla hra hne hon =>
    exact .join (hsub _ hl) (hsub _ hr) hle hre hla hra hne hon

theorem references_column (q : Option String) (name : String) :
    (Sql.Expr.column q name).references = [(q, name)] := by
  simp [Sql.Expr.references, Sql.Expr.parts, Sql.Expr.reference?]

theorem Relation.seenAs_injective {m n : Relation} {q : Option String}
    (h : m.seenAs q = n.seenAs q) : m.schema.names = n.schema.names := by
  have hinj : Function.Injective fun name : String => (q, name) := fun _ _ h => (Prod.mk.inj h).2
  exact List.map_injective_iff.mpr hinj h

theorem Relation.count_seenAs {n : Relation} (hd : n.schema.names.Nodup) {name : String}
    (hm : name ∈ n.schema.names) (q : Option String) : (n.seenAs q).count (q, name) = 1 := by
  have hinj : Function.Injective fun name : String => (q, name) := fun _ _ h => (Prod.mk.inj h).2
  exact List.count_eq_one_of_mem (hd.map hinj) (List.mem_map.mpr ⟨name, hm, rfl⟩)

theorem Relation.count_seenAs_of_ne {n : Relation} {name : String} {q q' : Option String}
    (hq : q ≠ q') : (n.seenAs q).count (q', name) = 0 := by
  apply List.count_eq_zero.mpr
  intro h
  obtain ⟨m, -, hm⟩ := List.mem_map.mp h
  exact hq (Prod.mk.inj hm).1

namespace Relation

/-- The columns of a fragment are those of its node; they and the clauses refer to nothing but what
the source makes visible; and a statement without a projection passes the source's columns on. -/
structure Grounded (r : Relation) (f : Fragment) : Prop where
  names : f.columns.map (·.name) = r.schema.names
  sees : ∃ visible, Sees r f.select.source visible ∧
    (∀ e ∈ f.select.expressions, e.ResolvesIn visible) ∧
    (∀ c ∈ f.columns, c.expr.ResolvesIn visible) ∧
    match f.select.projection with
    | some items => List.Forall₂ Fragment.Shows items f.columns
    | none => visible = r.seenAs none ∧
        f.columns.map (·.expr) = r.schema.names.map (Sql.Expr.column none)

variable {t : Target} {root r : Relation} {f : Fragment}

theorem Grounded.length (h : Grounded r f) : f.columns.length = r.header.fields.length := by
  have := congrArg List.length h.names
  simpa [Schema.names, schema] using this

/-- The items of a statement show its columns, also where these are those of the source. -/
theorem Grounded.items (h : Grounded r f) : List.Forall₂ Fragment.Shows f.items f.columns := by
  obtain ⟨visible, -, -, -, hp⟩ := h.sees
  unfold Fragment.items
  cases hi : f.select.projection with
  | some items =>
    rw [hi] at hp
    exact hp
  | none =>
    simp only [List.forall₂_map_left_iff, List.forall₂_same]
    exact fun c _ => ⟨rfl, .inl rfl⟩

/-- The items of a projection are what its columns stand for. -/
theorem Grounded.exprs_eq (h : Grounded r f) {items : List Sql.SelectItem}
    (hp : f.select.projection = some items) :
    f.columns.map (·.expr) = items.map (·.expr) := by
  have hi := h.items
  simp only [Fragment.items, hp] at hi
  exact (Fragment.map_value_of_shows hi fun e => e).symm

/-- The statement as a derived table exposes the columns of its node. -/
theorem Grounded.exposes (h : Grounded r f) (hd : r.schema.names.Nodup) (itemAlias : String) :
    Exposes r (.derived f.named itemAlias) := by
  obtain ⟨visible, hs, he, hc, hp⟩ := h.sees
  obtain ⟨-, he⟩ := Sql.SelectOver.forall_mem_expressions.mp he
  refine .derived (.mk hs (Sql.SelectOver.forall_mem_expressions.mpr ⟨?_, he⟩)) ?_ hd
  · split at hp
    · next items hi =>
      have hn := (forall_mem_iff_of_map_eq (Fragment.namedItems_names hp).1).mpr hc
      simpa [Fragment.named, hi] using hn
    · next hi => simp [Fragment.named, hi]
  · split at hp
    · next items hi =>
      have hn := (Fragment.namedItems_names hp).2
      simp [Fragment.named, hi, Sql.SelectOver.outputNames, hn, ← h.names]
    · next hi =>
      simp [Fragment.named, hi, Sql.SelectOver.outputNames, hp.1, seenAs]

/-- Columns under a qualifier refer to what an item of that alias exposes. -/
theorem Grounded.under (h : Grounded r f) (q : Option String) :
    (f.columns.map (OutputColumn.under q)).map (·.expr) =
      r.schema.names.map (Sql.Expr.column q) := by
  rw [← h.names]
  simp [OutputColumn.under, Function.comp_def]

theorem resolvesIn_column {visible : List Sql.Expr.Reference} {q : Option String} {name : String}
    (h : visible.count (q, name) = 1) : (Sql.Expr.column q name).ResolvesIn visible := by
  intro ref hr
  rw [references_column] at hr
  obtain rfl := List.mem_singleton.mp hr
  exact h

/-- Columns under a qualifier name what is visible under it. -/
theorem Grounded.resolvesIn_under (h : Grounded r f) {visible : List Sql.Expr.Reference}
    {q : Option String} (hv : ∀ name ∈ r.schema.names, visible.count (q, name) = 1) :
    ∀ c ∈ f.columns.map (OutputColumn.under q), c.expr.ResolvesIn visible :=
  (forall_mem_iff_of_map_eq (h.under q)).mpr fun name hn => resolvesIn_column (hv name hn)

theorem Grounded.wrapped (h : Grounded r f) (hd : r.schema.names.Nodup) (itemAlias : String) :
    Grounded r (f.wrapped itemAlias) := by
  refine ⟨?_, r.seenAs none, .single (mem_nodes_self r) (h.exposes hd itemAlias), ?_,
    h.resolvesIn_under fun name hn => count_seenAs hd hn none, rfl, h.under none⟩
  · rw [← h.names]
    simp [Fragment.wrapped, Fragment.ofSource, OutputColumn.under]
  · simp [Fragment.wrapped, Fragment.ofSource, Sql.SelectOver.expressions, Sql.SelectOver.ofSource]

/-- The item that a side of a join becomes. -/
theorem Grounded.joinSide (h : Grounded r f) (hd : r.schema.names.Nodup) (itemAlias : String) :
    Exposes r (f.joinSide itemAlias).1 ∧ (f.joinSide itemAlias).1.aliasName? = some itemAlias := by
  unfold Fragment.joinSide
  cases hb : f.select.bareTable? with
  | none => exact ⟨h.exposes hd itemAlias, rfl⟩
  | some name =>
    refine ⟨?_, rfl⟩
    obtain ⟨visible, hs, -, -, hp⟩ := h.sees
    obtain ⟨⟨aliasName, hsrc⟩, hproj, -⟩ := Sql.Select.bareTable?_eq_some hb
    rw [hproj] at hp
    rw [hsrc] at hs
    cases hs with
    | single hn hi =>
      have hnames := seenAs_injective hp.1
      cases hi with
      | table hm hf hd' => exact .table (mem_nodes_trans hn hm) (hf.trans hnames) hd

section Lowered

variable {scope : Scope} {visible : List Sql.Expr.Reference}
  (hs : ∀ ref d, scope.column ref = .ok d → d.ResolvesIn visible)
include hs

/-- What an expression becomes in a scope whose definitions resolve resolves. -/
theorem resolvesIn_lower {e : Expr} {s : Sql.Expr} (h : e.lower t scope = .ok s) :
    s.ResolvesIn visible := by
  intro ref hr
  obtain ⟨r, -, d, hd, hrd⟩ := Expr.mem_references_lower h hr
  exact hs r d hd ref hrd

theorem resolvesIn_columns {exprs : List NamedExpr} {columns : List OutputColumn}
    (h : List.Forall₂ (Fragment.ColumnOf t scope) exprs columns) :
    ∀ c ∈ columns, c.expr.ResolvesIn visible :=
  Fragment.forall_columns h fun _ _ _ hn => resolvesIn_lower hs hn

theorem resolvesIn_conditions {cs : List Expr} {ss : List Sql.Expr}
    (h : Fragment.conditions t scope cs = .ok ss) : ∀ s ∈ ss, s.ResolvesIn visible :=
  Fragment.forall_conditions h fun _ _ _ _ _ hl => resolvesIn_lower hs hl

theorem resolvesIn_keys {keys : List (SortKey Expr)} {ss : List (SortKey Sql.Expr)}
    (h : Expr.lowerKeys t scope keys = .ok ss) : ∀ k ∈ ss, k.expr.ResolvesIn visible :=
  Fragment.forall_keys h fun _ _ _ hl => resolvesIn_lower hs hl

end Lowered

theorem nodes_subset {r i : Relation} (hi : i ∈ r.inputs) : ∀ m ∈ i.nodes, m ∈ r.nodes :=
  fun _ hm => mem_nodes_of_input hi hm

section Operators

variable {id : NodeId} {input : Relation} {g : Fragment}

theorem grounded_table {name : String} {aliasName : Option String} {fields : Schema}
    (hd : fields.names.Nodup) :
    Grounded (.table id name aliasName fields) (.ofTable name aliasName fields) := by
  have hnames : schema (.table id name aliasName fields) = fields := rfl
  refine ⟨by simp [Fragment.ofTable, Fragment.ofSource, hnames, Schema.names], _,
    .single (mem_nodes_self _) (.table (mem_nodes_self _) rfl hd), ?_, ?_, rfl, ?_⟩
  · simp [Fragment.ofTable, Fragment.ofSource, Sql.SelectOver.expressions,
      Sql.SelectOver.ofSource]
  · intro c hc
    obtain ⟨field, hf, rfl⟩ := List.mem_map.mp hc
    exact resolvesIn_column (count_seenAs (n := .table id name aliasName fields) hd
      (List.mem_map.mpr ⟨field, hf, rfl⟩) none)
  · simp [Fragment.ofTable, Fragment.ofSource, hnames, Schema.names, Function.comp_def]

theorem Grounded.project (h : Grounded input f) {exprs : List NamedExpr}
    (hg : f.project t input.header exprs = .ok g) : Grounded (.project id input exprs) g := by
  obtain ⟨items, columns, ho, rfl⟩ := Fragment.project_eq_ok hg
  obtain ⟨hcols, hitems⟩ := Fragment.outputs_eq_ok ho
  obtain ⟨visible, hs, he, hc, -⟩ := h.sees
  obtain ⟨-, he⟩ := Sql.SelectOver.forall_mem_expressions.mp he
  have hres := resolvesIn_columns (Scope.forall_columns _ hc) hcols
  refine ⟨?_, visible, hs.mono (nodes_subset (by simp [inputs])),
    Sql.SelectOver.forall_mem_expressions.mpr ⟨Fragment.forall_items hitems hres, he⟩, hres, hitems⟩
  rw [Fragment.names_of_columnOf hcols]
  rfl

theorem Grounded.filter (h : Grounded input f) {cs : List Expr}
    (hg : f.filter t input.header cs = .ok g) : Grounded (.filter id input cs) g := by
  obtain ⟨visible, hs, he, hc, hp⟩ := h.sees
  obtain ⟨hpe, hse, hge, hhe, hqe, hoe⟩ := Sql.SelectOver.forall_mem_expressions.mp he
  obtain ⟨ss, hss, hg⟩ := Fragment.filter_eq_ok hg
  have hres := resolvesIn_conditions (Scope.forall_columns _ hc) hss
  have hs' := hs.mono (r := .filter id input cs) (nodes_subset (by simp [inputs]))
  have happ : ∀ {es : List Sql.Expr}, (∀ e ∈ es, e.ResolvesIn visible) →
      ∀ e ∈ es ++ ss, e.ResolvesIn visible :=
    fun hes => List.forall_mem_append.mpr ⟨hes, hres⟩
  rcases hg with ⟨-, rfl⟩ | ⟨-, -, rfl⟩ | ⟨-, -, rfl⟩
  · exact ⟨h.names, visible, hs', Sql.SelectOver.forall_mem_expressions.mpr
      ⟨hpe, hse, hge, happ hhe, hqe, hoe⟩, hc, hp⟩
  · exact ⟨h.names, visible, hs', Sql.SelectOver.forall_mem_expressions.mpr
      ⟨hpe, hse, hge, hhe, happ hqe, hoe⟩, hc, hp⟩
  · exact ⟨h.names, visible, hs', Sql.SelectOver.forall_mem_expressions.mpr
      ⟨hpe, happ hse, hge, hhe, hqe, hoe⟩, hc, hp⟩

theorem Grounded.aggregate (h : Grounded input f) {keys metrics : List NamedExpr}
    {having : List Expr} (hg : f.aggregate t input.header keys metrics having = .ok g) :
    Grounded (.aggregate id input keys metrics having) g := by
  obtain ⟨keyItems, keyColumns, metricItems, metricColumns, ss, hk, hm, hss, rfl⟩ :=
    Fragment.aggregate_eq_ok hg
  obtain ⟨hkc, hki⟩ := Fragment.outputs_eq_ok hk
  obtain ⟨hmc, hmi⟩ := Fragment.outputs_eq_ok hm
  obtain ⟨visible, hs, he, hc, -⟩ := h.sees
  obtain ⟨-, hse, -, hhe, hqe, -⟩ := Sql.SelectOver.forall_mem_expressions.mp he
  have hscope := Scope.forall_columns input.header hc
  have hkr := resolvesIn_columns hscope hkc
  have hmr := resolvesIn_columns hscope hmc
  have hcols := List.forall_mem_append.mpr ⟨hkr, hmr⟩
  have hitems := List.rel_append hki hmi
  refine ⟨?_, visible, hs.mono (nodes_subset (by simp [inputs])),
    Sql.SelectOver.forall_mem_expressions.mpr ⟨Fragment.forall_items hitems hcols, hse, ?_,
      List.forall_mem_append.mpr ⟨hhe, resolvesIn_conditions hscope hss⟩, hqe, by simp⟩,
    hcols, hitems⟩
  · rw [List.map_append, Fragment.names_of_columnOf hkc, Fragment.names_of_columnOf hmc]
    simp [schema, header, Schema.names]
  · intro e hem
    obtain ⟨item, him, rfl⟩ := List.mem_map.mp hem
    exact Fragment.forall_items hki hkr item him

theorem Grounded.sort (h : Grounded input f) {keys : List (SortKey Expr)}
    (hg : f.sort t input.header keys = .ok g) : Grounded (.sort id input keys) g := by
  obtain ⟨ss, hk, rfl⟩ := Fragment.sort_eq_ok hg
  obtain ⟨visible, hs, he, hc, hp⟩ := h.sees
  obtain ⟨hpe, hse, hge, hhe, hqe, hoe⟩ := Sql.SelectOver.forall_mem_expressions.mp he
  have hres := resolvesIn_keys (Scope.forall_columns _ hc) hk
  exact ⟨h.names, visible, hs.mono (nodes_subset (by simp [inputs])),
    Sql.SelectOver.forall_mem_expressions.mpr
      ⟨hpe, hse, hge, hhe, hqe, List.forall_mem_append.mpr ⟨hres, hoe⟩⟩, hc, hp⟩

theorem Grounded.limit (h : Grounded input f) (count : Option Nat) (offset : Nat) :
    Grounded (.limit id input count offset) (f.limit count offset) := by
  obtain ⟨visible, hs, he, hc, hp⟩ := h.sees
  exact ⟨h.names, visible, hs.mono (nodes_subset (by simp [inputs])), he, hc, hp⟩

theorem Grounded.join {left right : Relation} {l r : Fragment} (hl : Grounded left l)
    (hrr : Grounded right r) (hdl : left.schema.names.Nodup) (hdr : right.schema.names.Nodup)
    {kind : JoinKind} {cs : List Expr} {op : Sql.JoinOp} {a b : String} (hab : a ≠ b)
    (hg : Fragment.join t op left.header right.header
      (joinFields left.header.fields right.header.fields) cs (l.joinSide a) (r.joinSide b) =
      .ok g) : Grounded (.join id left right kind cs) g := by
  obtain ⟨hle, hla⟩ := hl.joinSide hdl a
  obtain ⟨hre, hra⟩ := hrr.joinSide hdr b
  have hab' : some a ≠ some b := fun h => hab (Option.some.inj h)
  have hcols : ∀ c ∈ (l.joinSide a).2 ++ (r.joinSide b).2, c.expr.ResolvesIn
      (left.seenAs (some a) ++ right.seenAs (some b)) := by
    refine List.forall_mem_append.mpr ⟨hl.resolvesIn_under fun name hn => ?_,
      hrr.resolvesIn_under fun name hn => ?_⟩
    · rw [List.count_append, count_seenAs hdl hn, count_seenAs_of_ne hab'.symm]
    · rw [List.count_append, count_seenAs hdr hn, count_seenAs_of_ne hab']
  obtain ⟨on, hon, rfl⟩ := Fragment.join_eq_ok hg
  have hlen : (joinFields left.header.fields right.header.fields).length =
      ((l.joinSide a).2 ++ (r.joinSide b).2).length := by
    simp [Fragment.joinSide, hl.length, hrr.length]
  obtain ⟨hshows, hnames, hexprs⟩ := Fragment.joinColumns hlen
  have hres := (forall_mem_iff_of_map_eq hexprs).mpr hcols
  refine ⟨hnames, _, .join (mem_nodes_of_input (by simp [inputs]) (mem_nodes_self left))
    (mem_nodes_of_input (by simp [inputs]) (mem_nodes_self right)) hle hre hla hra hab
    (resolvesIn_conditions (Scope.forall_join _ _ hcols) hon), ?_, hres, hshows⟩
  refine Sql.SelectOver.forall_mem_expressions.mpr ⟨Fragment.forall_items hshows hres, ?_⟩
  simp [Sql.SelectOver.ofSource]

theorem Grounded.window (h : Grounded input f) {exprs : List NamedExpr}
    (hg : f.window t input.header exprs = .ok g) : Grounded (.window id input exprs) g := by
  obtain ⟨items, columns, ho, rfl⟩ := Fragment.window_eq_ok hg
  obtain ⟨hcols, hitems⟩ := Fragment.outputs_eq_ok ho
  obtain ⟨visible, hs, he, hc, -⟩ := h.sees
  obtain ⟨-, he⟩ := Sql.SelectOver.forall_mem_expressions.mp he
  have hres := List.forall_mem_append.mpr
    ⟨hc, resolvesIn_columns (Scope.forall_columns _ hc) hcols⟩
  have hshows := List.rel_append h.items hitems
  refine ⟨?_, visible, hs.mono (nodes_subset (by simp [inputs])),
    Sql.SelectOver.forall_mem_expressions.mpr ⟨Fragment.forall_items hshows hres, he⟩, hres,
    hshows⟩
  rw [List.map_append, h.names, Fragment.names_of_columnOf hcols]
  simp [schema, header, Schema.names]

theorem Grounded.distinct (h : Grounded input f) :
    Grounded (.distinct id input) f.distinct := by
  obtain ⟨visible, hs, he, hc, hp⟩ := h.sees
  obtain ⟨hpe, hse, hge, hhe, hqe, hoe⟩ := Sql.SelectOver.forall_mem_expressions.mp he
  refine ⟨h.names, visible, hs.mono (nodes_subset (by simp [inputs])),
    Sql.SelectOver.forall_mem_expressions.mpr ⟨hpe, hse, hge, hhe, hqe, fun k hk => ?_⟩, hc, hp⟩
  exact hoe k (Fragment.orderBy_distinct_subset f hk)

end Operators

theorem keeps_grounded (hw : root.WellFormed) :
    Keeps t root Grounded fun _ => True where
  wrapped a hr h := h.wrapped (hw.node hr).nodup_names a
  table hr := grounded_table (hw _ hr)
  project _ h _ _ := settles_of_ok fun _ hg => h.project hg
  filter _ h _ _ := settles_of_ok fun _ hg => h.filter hg
  aggregate _ h _ _ _ := settles_of_ok fun _ hg => h.aggregate hg
  sort _ h _ := settles_of_ok fun _ hg => h.sort hg
  limit {id input count offset f} _ h _ := h.limit count offset
  joinOp _ := settles_of_ok fun _ _ => trivial
  join {id left right kind cs op l r a b} hr _ hl hrr hab := settles_of_ok fun g hg => by
    have hdl := hw.nodup_input hr (i := left) (by simp [inputs])
    have hdr := hw.nodup_input hr (i := right) (by simp [inputs])
    exact hl.join hrr hdl hdr hab hg
  window _ h _ _ _ := settles_of_ok fun _ hg => h.window hg
  distinct _ h _ := h.distinct

/-- In the statement of a relation that exists, and in every derived table in it, a source is a
table, a derived table or a join of two of these under different aliases; derived tables expose the
columns of the nodes they were made for; and every reference names exactly one column of the source
of the statement it stands in. -/
theorem toSelect_scoped {r : Relation} (h : r.Valid) {t : Target} {s : Sql.Select}
    (hs : r.toSelect t = .ok s) : ∃ visible, Scoped r s visible := by
  obtain ⟨f, hf, rfl⟩ := ((keeps_grounded h.wellFormed).toSelect h.coherent).of_ok hs
  obtain ⟨visible, hsees, he, -, -⟩ := hf.sees
  exact ⟨visible, .mk hsees he⟩

theorem toSelect_pairing_scoped : ∃ s, (pairing .inner).toSelect (Target.builtin .mysql) = .ok s ∧
    ∃ visible, Scoped (pairing .inner) s visible := by
  have hs : (pairing .inner).toSelect (Target.builtin .mysql) = .ok _ := rfl
  exact ⟨_, hs, toSelect_scoped (valid_pairing (by decide)) hs⟩

end Relation

end PlanSql
