import PlanSql.Proofs.Fragment.Forwarding
import PlanSql.Proofs.Fragment.Sharing

/-!
# Sort keys and the names of outputs

A key of ORDER BY that is a bare name means the output of that name before it means a column of the
source. Sort keys are kept as expressions over the source while later operators give names to the
outputs, so a sort goes astray where an output takes the name of the column that the sort goes by.
It does not where an output of such a name is that column, passed on by all operators in between.
-/
namespace PlanSql

namespace Sql

def FromItem.isJoin : FromItem → Bool
  | .join _ _ _ _ => true
  | _ => false

/-- An output that a bare key of ORDER BY could mean is the column of the source that it names. -/
def Select.Uncaptured (s : Select) : Prop :=
  ∀ key ∈ s.orderBy, ∀ n, key.expr = .column none n →
    ∀ item ∈ s.projection.getD [], itemName? item = some n → item.expr = .column none n

end Sql

/-- Where a column is visible without a qualifier, the source is no join and all columns are. -/
theorem Sees.unqualified {r : Relation} {item : Sql.FromItem} {visible : List Sql.Expr.Reference}
    (h : Sees r item visible) {n : String} (hn : (none, n) ∈ visible) :
    item.isJoin = false ∧ ∀ ref ∈ visible, ref.1 = none := by
  cases h with
  | single _ hi =>
    refine ⟨by cases hi <;> rfl, ?_⟩
    simp [Relation.seenAs]
  | join => simp [Relation.seenAs] at hn

namespace Relation

/-- The column at the first position is in SQL no more than the input's column at the second. All
columns of a join are new ones. -/
inductive Passes (t : Target) : Relation → Nat → Nat → Prop
  | project {id : NodeId} {input : Relation} {exprs : List NamedExpr} {n : NamedExpr}
      {ref : ColumnRef} {i j : Nat} (hn : exprs[i]? = some n) (hf : n.expr.Forwards t ref)
      (hj : input.header.lookup ref = .found j) : Passes t (.project id input exprs) i j
  | aggregate {id : NodeId} {input : Relation} {keys metrics : List NamedExpr}
      {having : List Expr} {n : NamedExpr} {ref : ColumnRef} {i j : Nat}
      (hn : (keys ++ metrics)[i]? = some n) (hf : n.expr.Forwards t ref)
      (hj : input.header.lookup ref = .found j) :
      Passes t (.aggregate id input keys metrics having) i j
  | beside {id : NodeId} {input : Relation} {exprs : List NamedExpr} {i : Nat}
      (hi : i < input.header.fields.length) : Passes t (.window id input exprs) i i
  | window {id : NodeId} {input : Relation} {exprs : List NamedExpr} {n : NamedExpr}
      {ref : ColumnRef} {i j : Nat} (hn : exprs[i]? = some n) (hf : n.expr.Forwards t ref)
      (hj : input.header.lookup ref = .found j) :
      Passes t (.window id input exprs) (input.header.fields.length + i) j
  | filter {id : NodeId} {input : Relation} {conditions : List Expr} {i : Nat} :
      Passes t (.filter id input conditions) i i
  | sort {id : NodeId} {input : Relation} {keys : List (SortKey Expr)} {i : Nat} :
      Passes t (.sort id input keys) i i
  | limit {id : NodeId} {input : Relation} {count : Option Nat} {offset i : Nat} :
      Passes t (.limit id input count offset) i i
  | distinct {id : NodeId} {input : Relation} {i : Nat} : Passes t (.distinct id input) i i

/-- The column of a relation at a position is, or goes back to, the column of a node that has the
given name there. -/
inductive Stems (t : Target) : Relation → Nat → Relation → String → Prop
  | own {r : Relation} {i : Nat} {n : String} (h : r.schema.names[i]? = some n) : Stems t r i r n
  | passed {r input m : Relation} {i j : Nat} {n : String} (hi : input ∈ r.inputs)
      (hp : Passes t r i j) (h : Stems t input j m n) : Stems t r i m n

/-- A sort goes by a column that goes back to the one of a node with the given name. -/
def SortsBy (t : Target) (s m : Relation) (n : String) : Prop :=
  ∃ id input keys, s = .sort id input keys ∧ ∃ k ∈ keys, ∃ ref j,
    k.expr.Forwards t ref ∧ input.header.lookup ref = .found j ∧ Stems t input j m n

/-- What a relation becomes has a SELECT over what a node shows: over the table or the join that the
relation is, or over what the input of one of the operators in the SELECT has become. -/
inductive Based (t : Target) : Relation → Fragment → Relation → Prop
  | own {r : Relation} {f : Fragment} (hr : ∀ input, r.inputs ≠ [input]) (h : Becomes t r f) :
      Based t r f r
  | wrapped {r input : Relation} {f g : Fragment} {aliasName : String} (hin : r.inputs = [input])
      (h : Becomes t input f) (hs : r.separates t f.flags = true)
      (hg : r.operate t (f.wrapped aliasName) = .ok g) : Based t r g input
  | further {r input m : Relation} {f g : Fragment} (hin : r.inputs = [input])
      (h : Based t input f m) (hs : r.separates t f.flags = false)
      (hg : r.operate t f = .ok g) : Based t r g m

/-- In a statement, an output with the name of a column of the source that a sort goes by is that
column. This asks nothing of a statement that the sort is not part of, nor of one in which the rows
have been grouped since. -/
def SparesSortNames (t : Target) (root : Relation) : Prop :=
  ∀ r ∈ root.nodes, ∀ f m s f', IsStatement t root r f → Based t r f m → Within t r f s f' →
    f.aggregated = f'.aggregated → ∀ n, SortsBy t s m n →
      ∀ i, r.schema.names[i]? = some n → Stems t r i m n

/-- What is known of the columns and sort keys of a fragment whose source shows the columns of the
node `m`. -/
structure Anchored (t : Target) (r m : Relation) (f : Fragment) : Prop where
  columns : f.select.source.isJoin = false → ∀ i c n, f.columns[i]? = some c →
    (c.expr = .column none n ↔ Stems t r i m n)
  keys : ∀ key ∈ f.select.orderBy, ∀ n, key.expr = .column none n →
    ∃ s f', Within t r f s f' ∧ f.aggregated = f'.aggregated ∧ SortsBy t s m n

variable {t : Target} {d : Dialect} {root r input m s : Relation} {f f' g : Fragment}

/-- A SELECT with a bare key does not join, and its columns have no qualifier. -/
theorem Grounded.unqualified (h : Grounded r f) {key : SortKey Sql.Expr}
    (hk : key ∈ f.select.orderBy) {n : String} (he : key.expr = .column none n) :
    f.select.source.isJoin = false ∧
      ∀ c ∈ f.columns, ∀ q n, c.expr = .column q n → q = none := by
  obtain ⟨visible, hs, hexprs, hc, -⟩ := h.sees
  have resolved : ∀ {e : Sql.Expr} {q : Option String} {n : String}, e.ResolvesIn visible →
      e = .column q n → (q, n) ∈ visible := by
    rintro e q n hr rfl
    exact List.count_pos_iff.mp (by simp [hr (q, n) (by simp [references_column])])
  obtain ⟨-, -, -, -, -, ho⟩ := Sql.SelectOver.forall_mem_expressions.mp hexprs
  obtain ⟨hj, hv⟩ := hs.unqualified (resolved (ho key hk) he)
  exact ⟨hj, fun c hcm q n hq => hv _ (resolved (hc c hcm) hq)⟩

theorem sizeOf_lt_of_mem_inputs (hi : input ∈ r.inputs) : sizeOf input < sizeOf r := by
  cases r with
  | table => simp [inputs] at hi
  | join id left right kind cs =>
    have hi : input = left ∨ input = right := by simpa [inputs] using hi
    rcases hi with rfl | rfl <;> simp +arith
  | _ =>
    obtain rfl := List.mem_singleton.mp hi
    simp +arith

theorem sizeOf_le_of_mem_nodes (hm : m ∈ r.nodes) : sizeOf m ≤ sizeOf r := by
  induction r using induct with
  | step r ih =>
    rcases Relation.mem_nodes.mp hm with rfl | ⟨i, hi, hmi⟩
    · exact Nat.le_refl _
    · exact Nat.le_of_lt (Nat.lt_of_le_of_lt (ih i hi hmi) (sizeOf_lt_of_mem_inputs hi))

theorem ne_of_mem_nodes_input (hi : input ∈ r.inputs) (hm : m ∈ input.nodes) : m ≠ r := by
  rintro rfl
  exact absurd (sizeOf_lt_of_mem_inputs hi) (Nat.not_lt.mpr (sizeOf_le_of_mem_nodes hm))

theorem Based.mem_nodes (h : Based t r f m) : m ∈ r.nodes := by
  induction h with
  | own => exact mem_nodes_self _
  | wrapped hin => exact input_mem_nodes (mem_nodes_self _) (by simp [hin])
  | further hin _ _ _ ih => exact mem_nodes_of_input (by simp [hin]) ih

theorem Stems.mem_nodes {i : Nat} {n : String} (h : Stems t r i m n) : m ∈ r.nodes := by
  induction h with
  | own => exact mem_nodes_self _
  | passed hi _ _ ih => exact mem_nodes_of_input hi ih

theorem stems_self_iff {i : Nat} {n : String} :
    Stems t r i r n ↔ r.schema.names[i]? = some n := by
  refine ⟨fun h => ?_, .own⟩
  cases h with
  | own h => exact h
  | passed hi _ h => exact absurd rfl (ne_of_mem_nodes_input hi h.mem_nodes)

/-- Below the root, what a column goes back to is what the column passed on goes back to. -/
theorem stems_iff (hin : r.inputs = [input]) (hm : m ∈ input.nodes) {i : Nat} {n : String} :
    Stems t r i m n ↔ ∃ j, Passes t r i j ∧ Stems t input j m n := by
  have hi : input ∈ r.inputs := by simp [hin]
  constructor
  · intro h
    cases h with
    | own => exact absurd rfl (ne_of_mem_nodes_input hi hm)
    | passed hi' hp h =>
      obtain rfl := List.mem_singleton.mp (hin ▸ hi')
      exact ⟨_, hp, h⟩
  · rintro ⟨j, hp, h⟩
    exact .passed hi hp h

/-- What an output becomes: a column only if it is no more than one, and then that column. -/
theorem traced_of_columnOf {exprs : List NamedExpr} {columns : List OutputColumn}
    (hcols : List.Forall₂ (Fragment.ColumnOf t (f.scope input.header)) exprs columns) {i : Nat}
    {c : OutputColumn} (hc : columns[i]? = some c) :
    ∃ e, exprs[i]? = some e ∧
      (∀ q n, c.expr = .column q n →
        ∃ ref j, e.expr.Forwards t ref ∧ input.header.lookup ref = .found j) ∧
      ∀ ref j, e.expr.Forwards t ref → input.header.lookup ref = .found j →
        ∃ c', f.columns[j]? = some c' ∧ c'.expr = c.expr := by
  obtain ⟨e, he, hl, -⟩ := forall₂_getElem? hcols.flip hc
  refine ⟨e, he, fun q n hq => ?_, fun ref j hf hj => ?_⟩
  · obtain ⟨ref, hf⟩ := Expr.exists_forwards (hq ▸ hl)
    obtain ⟨j, -, hj, -⟩ := Scope.columns_eq_ok (hf.lower hl)
    exact ⟨ref, j, hf, hj⟩
  · obtain ⟨j', c', hj', hc', he'⟩ := Scope.columns_eq_ok (hf.lower hl)
    obtain rfl : j = j' := by simpa [hj] using hj'
    exact ⟨c', hc', he'⟩

/-- The columns that an operator passes on are those that are columns afterwards, and they are the
same ones. -/
theorem passes_operate (hin : r.inputs = [input])
    (hlen : f.columns.length = input.header.fields.length) (hg : r.operate t f = .ok g) {i : Nat}
    {c : OutputColumn} (hc : g.columns[i]? = some c) :
    (∀ q n, c.expr = .column q n → ∃ j, Passes t r i j) ∧
      ∀ j, Passes t r i j → ∃ c', f.columns[j]? = some c' ∧ c'.expr = c.expr := by
  cases r with
  | table | join => simp [inputs] at hin
  | project id input' exprs =>
    obtain rfl := List.singleton_inj.mp hin
    obtain ⟨items, columns, ho, rfl⟩ := Fragment.project_eq_ok hg
    obtain ⟨e, he, hfwd, htrace⟩ := traced_of_columnOf (Fragment.outputs_eq_ok ho).1 hc
    refine ⟨fun q n hq => ?_, fun j hp => ?_⟩
    · obtain ⟨ref, j, hf, hj⟩ := hfwd q n hq
      exact ⟨j, .project he hf hj⟩
    · cases hp with
      | project hn hf hj =>
        obtain rfl := Option.some.inj (hn.symm.trans he)
        exact htrace _ _ hf hj
  | aggregate id input' keys metrics having =>
    obtain rfl := List.singleton_inj.mp hin
    obtain ⟨_, _, _, _, _, hk, hm, -, rfl⟩ := Fragment.aggregate_eq_ok hg
    obtain ⟨e, he, hfwd, htrace⟩ := traced_of_columnOf
      (List.rel_append (Fragment.outputs_eq_ok hk).1 (Fragment.outputs_eq_ok hm).1) hc
    refine ⟨fun q n hq => ?_, fun j hp => ?_⟩
    · obtain ⟨ref, j, hf, hj⟩ := hfwd q n hq
      exact ⟨j, .aggregate he hf hj⟩
    · cases hp with
      | aggregate hn hf hj =>
        obtain rfl := Option.some.inj (hn.symm.trans he)
        exact htrace _ _ hf hj
  | window id input' exprs =>
    obtain rfl := List.singleton_inj.mp hin
    obtain ⟨items, columns, ho, rfl⟩ := Fragment.window_eq_ok hg
    obtain ⟨hcols, -⟩ := Fragment.outputs_eq_ok ho
    refine ⟨fun q n hq => ?_, fun j hp => ?_⟩
    · by_cases hi : i < f.columns.length
      · exact ⟨i, .beside (hlen ▸ hi)⟩
      · obtain ⟨k, rfl⟩ := Nat.exists_eq_add_of_le (Nat.le_of_not_lt hi)
        rw [List.getElem?_append_right (Nat.le_add_right _ _), Nat.add_sub_cancel_left] at hc
        obtain ⟨e, he, hfwd, -⟩ := traced_of_columnOf hcols hc
        obtain ⟨ref, j, hf, hj⟩ := hfwd q n hq
        exact ⟨j, hlen ▸ .window he hf hj⟩
    · cases hp with
      | beside hi =>
        rw [List.getElem?_append_left (hlen ▸ hi)] at hc
        exact ⟨c, hc, rfl⟩
      | window hn hf hj =>
        rw [← hlen, List.getElem?_append_right (Nat.le_add_right _ _),
          Nat.add_sub_cancel_left] at hc
        obtain ⟨e, he, -, htrace⟩ := traced_of_columnOf hcols hc
        obtain rfl := Option.some.inj (hn.symm.trans he)
        exact htrace _ _ hf hj
  | filter | sort | limit | distinct =>
    rw [(columns_operate rfl hg).1] at hc
    refine ⟨fun _ _ _ => ⟨i, by constructor⟩, fun j hp => ?_⟩
    cases hp
    exact ⟨c, hc, rfl⟩

/-- The columns of a SELECT over a node that are columns of it, after an operator. -/
theorem columns_anchored (hin : r.inputs = [input]) (hm : m ∈ input.nodes)
    (hlen : f.columns.length = input.header.fields.length) (hg : r.operate t f = .ok g)
    (hf : ∀ i c n, f.columns[i]? = some c → (c.expr = .column none n ↔ Stems t input i m n)) :
    ∀ i c n, g.columns[i]? = some c → (c.expr = .column none n ↔ Stems t r i m n) := by
  intro i c n hc
  obtain ⟨hcolumn, hpass⟩ := passes_operate hin hlen hg hc
  rw [stems_iff hin hm]
  constructor
  · intro he
    obtain ⟨j, hp⟩ := hcolumn none n he
    obtain ⟨c', hc', he'⟩ := hpass j hp
    exact ⟨j, hp, (hf j c' n hc').mp (he'.trans he)⟩
  · rintro ⟨j, hp, hs⟩
    obtain ⟨c', hc', he'⟩ := hpass j hp
    exact he'.symm.trans ((hf j c' n hc').mpr hs)

/-- A SELECT that shows its source as it is has the columns of the node. -/
theorem columns_fresh {columns : List OutputColumn} (hn : columns.map (·.name) = r.schema.names)
    (hc : ∀ c ∈ columns, c.expr = .column none c.name) :
    ∀ i c n, columns[i]? = some c → (c.expr = .column none n ↔ Stems t r i r n) := by
  intro i c n hi
  have hname : r.schema.names[i]? = some c.name := by
    rw [← hn, List.getElem?_map, hi]
    rfl
  rw [stems_self_iff, hname, hc c (List.mem_of_getElem? hi)]
  simp

/-- The keys of a SELECT after an operator: a sort adds those of its own, and a grouping drops all. -/
theorem keys_anchored (hin : r.inputs = [input]) (hr : Within t r g r f')
    (hg : r.operate t f' = .ok g) (hgr : Grounded r g)
    (hcols : f'.select.source.isJoin = false → ∀ i c n, f'.columns[i]? = some c →
      c.expr = .column none n → Stems t input i m n)
    (hkeys : ∀ key ∈ f'.select.orderBy, ∀ n, key.expr = .column none n →
      ∃ s f₀, Within t r g s f₀ ∧ f'.aggregated = f₀.aggregated ∧ SortsBy t s m n) :
    ∀ key ∈ g.select.orderBy, ∀ n, key.expr = .column none n →
      ∃ s f₀, Within t r g s f₀ ∧ g.aggregated = f₀.aggregated ∧ SortsBy t s m n := by
  intro key hk n hn
  have hagg : g.aggregated = f'.aggregated := by
    rcases groups_operate hg with ⟨h, -⟩ | ⟨-, -, -, -, -, h, h'⟩ | ⟨⟨_, _, _, _, _, rfl⟩, -⟩
    · exact h
    · exact h.trans h'.symm
    · obtain ⟨_, _, _, _, _, -, -, -, rfl⟩ := Fragment.aggregate_eq_ok hg
      simp at hk
  rw [hagg]
  rcases orderBy_operate hg hk with hold | ⟨id, i, keys, rfl, k, hks, hl⟩
  · exact hkeys key hold n hn
  · obtain rfl := List.singleton_inj.mp hin
    have hj : f'.select.source.isJoin = false := by
      rw [← source_operate hg]
      exact (hgr.unqualified hk hn).1
    obtain ⟨ref, hfwd⟩ := Expr.exists_forwards (hn ▸ hl)
    obtain ⟨j, c, hlookup, hc, hce⟩ := Scope.columns_eq_ok (hfwd.lower hl)
    exact ⟨_, f', hr, rfl, id, i, keys, rfl, k, hks, ref, j, hfwd, hlookup,
      hcols hj j c n hc (hce.trans hn)⟩

/-- Whatever a relation becomes is anchored in what its SELECT is based on. -/
theorem Becomes.anchored (h : Becomes t r f) (hw : r.WellFormed) :
    ∃ m, Based t r f m ∧ Anchored t r m f := by
  induction h with
  | @table id name aliasName fields =>
    refine ⟨_, .own (by simp [inputs]) .table, fun _ => columns_fresh ?_ ?_, ?_⟩
    · exact (Becomes.grounded (t := t) .table hw).names
    · exact List.forall_mem_map.mpr fun _ _ => rfl
    · simp [Fragment.ofTable, Fragment.ofSource, Sql.SelectOver.ofSource]
  | join hop hl hr hab hg =>
    refine ⟨_, .own (by simp [inputs]) (.join hop hl hr hab hg), ?_, ?_⟩ <;>
      obtain ⟨on, -, rfl⟩ := Fragment.join_eq_ok hg
    · simp [Sql.SelectOver.ofSource, Sql.FromItem.isJoin]
    · simp [Sql.SelectOver.ofSource]
  | @step r input f f' g hin hf he hg ih =>
    have hwi := hw.input (i := input) (by simp [hin])
    have hgr := (Becomes.step hin hf he hg).grounded hw
    have hgf := hf.grounded_entered hwi he
    have hhere := Within.here hin hf he hg
    rcases he with ⟨hs, rfl⟩ | ⟨hs, a, rfl⟩
    · obtain ⟨m, hbase, ha⟩ := ih hwi
      refine ⟨m, .further hin hbase hs hg, fun hj => ?_, ?_⟩
      · rw [source_operate hg] at hj
        exact columns_anchored hin hbase.mem_nodes hgf.length hg (ha.columns hj)
      · refine keys_anchored hin hhere hg hgr (fun hj i c n hc => (ha.columns hj i c n hc).mp) ?_
        intro key hk n hn
        obtain ⟨s, f₀, hwithin, hagg, hsort⟩ := ha.keys key hk n hn
        exact ⟨s, f₀, hwithin.further hin hs hg, hagg, hsort⟩
    · have hfresh : ∀ i c n, (f.wrapped a).columns[i]? = some c →
          (c.expr = .column none n ↔ Stems t input i input n) :=
        columns_fresh hgf.names (List.forall_mem_map.mpr fun _ _ => rfl)
      refine ⟨input, .wrapped hin hf hs hg, fun _ => ?_, ?_⟩
      · exact columns_anchored hin (mem_nodes_self input) hgf.length hg hfresh
      · refine keys_anchored hin hhere hg hgr (fun _ i c n hc => (hfresh i c n hc).mp) ?_
        simp [Fragment.wrapped, Fragment.ofSource, Sql.SelectOver.ofSource]

/-- Where the column of a sort key is anchored, it is the only one that its name could mean. -/
theorem Becomes.key_column (h : Becomes t r f) (hw : r.WellFormed) (hr : r ∈ root.nodes)
    (hst : IsStatement t root r f) (hspare : root.SparesSortNames t) :
    ∀ key ∈ f.select.orderBy, ∀ n, key.expr = .column none n →
      ∀ c ∈ f.columns, c.name = n → c.expr = .column none n := by
  intro key hk n hn c hc hname
  have hg := h.grounded hw
  obtain ⟨m, hbase, ha⟩ := h.anchored hw
  obtain ⟨s, f', hwithin, hagg, hsort⟩ := ha.keys key hk n hn
  obtain ⟨i, hi⟩ := List.mem_iff_getElem?.mp hc
  have hat : r.schema.names[i]? = some n := by
    rw [← hg.names, List.getElem?_map, hi]
    exact congrArg some hname
  exact (ha.columns (hg.unqualified hk hn).1 i c n hi).mpr
    (hspare r hr f m s f' hst hbase hwithin hagg n hsort i hat)

/-- What is known of the columns by name is known of the items. -/
theorem uncaptured_of_columns (hg : Grounded r f)
    (h : ∀ key ∈ f.select.orderBy, ∀ n, key.expr = .column none n →
      ∀ c ∈ f.columns, c.name = n → c.expr = .column none n) :
    f.select.Uncaptured ∧ f.named.Uncaptured := by
  obtain ⟨visible, -, -, -, hp⟩ := hg.sees
  constructor
  · intro key hk n he item hi hn
    obtain ⟨-, hq⟩ := hg.unqualified hk he
    split at hp
    · next items hitems =>
      have hi : item ∈ items := by simpa [hitems] using hi
      obtain ⟨c, hc, hic, ha⟩ := forall₂_mem_left hp hi
      rw [hic]
      rcases ha with ha | ha
      · cases hx : c.expr with
        | column q n' =>
          obtain rfl := hq c hc q n' hx
          simpa [Sql.itemName?, ha, hic, hx] using hn
        | _ => simp [Sql.itemName?, ha, hic, hx] at hn
      · exact h key hk n he c hc (by simpa [Sql.itemName?, ha] using hn)
    · next hitems => simp [hitems] at hi
  · intro key hk n he item hi hn
    split at hp
    · next items hitems =>
      have hi : item ∈ namedItems items f.columns := by simpa [Fragment.named, hitems] using hi
      obtain ⟨c, hc, hic, hname⟩ := forall₂_mem_left (Fragment.namedItems_shows hp) hi
      rw [hic]
      exact h key hk n he c hc (Option.some.inj (hname.symm.trans hn))
    · next hitems => simp [Fragment.named, hitems] at hi

/-- In the statement of a relation that gives the names of the columns it sorts by to no others, and
in every derived table in it, an output that a bare key of ORDER BY could mean is the column of the
source that the key names. -/
theorem toSelect_sort_keys_uncaptured {r : Relation} (h : r.Valid) {t : Target}
    (hspare : r.SparesSortNames t) {s : Sql.Select} (hs : r.toSelect t = .ok s) :
    ∀ q ∈ s.statements, ∀ key ∈ q.orderBy, ∀ n, key.expr = .column none n →
      ∀ item ∈ q.projection.getD [], Sql.itemName? item = some n → item.expr = .column none n := by
  have hall : ∀ q ∈ s.statements, q.Uncaptured :=
    forall_statements_of_becomes h hs fun n f hw hf hst =>
      uncaptured_of_columns (hf.grounded hw) (hf.key_column hw hst.mem_nodes hst hspare)
  exact hall

/-- The node whose columns the SELECT of a relation has as its source. -/
def base (t : Target) : Relation → Relation
  | r@(.table _ _ _ _) | r@(.join _ _ _ _ _) => r
  | r@(.project _ input _) | r@(.filter _ input _) | r@(.aggregate _ input _ _ _)
  | r@(.sort _ input _) | r@(.limit _ input _ _) | r@(.window _ input _)
  | r@(.distinct _ input) => if r.startsSelect t then input else input.base t

theorem base_of_input (hin : r.inputs = [input]) :
    r.base t = if r.startsSelect t then input else input.base t := by
  cases r with
  | table | join => simp [inputs] at hin
  | _ =>
    obtain rfl := List.singleton_inj.mp hin
    rfl

theorem Based.eq_base (h : Based (Target.builtin d) r f m) (hw : r.WellFormed) :
    Becomes (Target.builtin d) r f ∧ m = r.base (Target.builtin d) := by
  induction h with
  | @own r f hr h =>
    refine ⟨h, ?_⟩
    cases r with
    | table | join => rfl
    | _ => exact absurd rfl (hr _)
  | @wrapped r input f g a hin hf hs hg =>
    have hwi := hw.input (i := input) (by simp [hin])
    refine ⟨.step hin hf (.inr ⟨hs, a, rfl⟩) hg, ?_⟩
    rw [hf.flags_eq hwi] at hs
    rw [base_of_input hin, startsSelect_of_input hin, if_pos hs]
  | @further r input m f g hin _ hs hg ih =>
    have hwi := hw.input (i := input) (by simp [hin])
    obtain ⟨hf, rfl⟩ := ih hwi
    refine ⟨.step hin hf (.inl ⟨hs, rfl⟩) hg, ?_⟩
    rw [hf.flags_eq hwi] at hs
    rw [base_of_input hin, startsSelect_of_input hin, if_neg (by simp [hs])]

/-- Under the rules of the library the plan says which operators share a SELECT, and which node it is
based on. -/
theorem sparesSortNames_of_shared (hw : root.WellFormed)
    (h : ∀ r ∈ root.tops (Target.builtin d), ∀ s ∈ r.shared (Target.builtin d),
      (r.flags (Target.builtin d)).aggregated = (s.flags (Target.builtin d)).aggregated →
      ∀ n, SortsBy (Target.builtin d) s (r.base (Target.builtin d)) n →
        ∀ i, r.schema.names[i]? = some n →
          Stems (Target.builtin d) r i (r.base (Target.builtin d)) n) :
    root.SparesSortNames (Target.builtin d) := by
  intro r hr f m s f' hst hbase hwithin hagg n hsort i hi
  have hwr := hw.node hr
  obtain ⟨hf, rfl⟩ := hbase.eq_base hwr
  refine h r (hst.mem_tops hwr hf) s (hwithin.mem_shared hwr) ?_ n hsort i hi
  have hs : ∀ id input keys metrics having, s ≠ .aggregate id input keys metrics having := by
    obtain ⟨_, _, _, rfl, -⟩ := hsort
    simp
  rw [hwithin.aggregated_eq hwr hs, ← hf.flags_eq hwr]
  exact hagg

/-- What is in stock, in the order of the items. -/
def stock : Relation :=
  .sort 1 (.table 0 "stock" none [⟨"item", .string, true⟩, ⟨"amount", .int64, true⟩])
    [⟨.column ⟨none, "item"⟩ .string, false⟩]

theorem session_stock : Session
    [stock, .table 0 "stock" none [⟨"item", .string, true⟩, ⟨"amount", .int64, true⟩]] := by
  have ht : scan 0 "stock" none [⟨"item", .string, true⟩, ⟨"amount", .int64, true⟩] =
      .ok _ := rfl
  have hs : sortBy 1 (.table 0 "stock" none [⟨"item", .string, true⟩, ⟨"amount", .int64, true⟩])
      [⟨.column ⟨none, "item"⟩ .string, false⟩] = .ok stock := rfl
  exact .call (.call .start (.scan ht) (by simp))
    (.sortBy (by simp) (by simpa using .column _ _) hs) (by simp [id, stock])

/-- The stock with the amounts under another name. -/
def inventory : Relation :=
  .project 2 stock
    [⟨.column ⟨none, "item"⟩ .string, none⟩, ⟨.column ⟨none, "amount"⟩ .int64, some "left"⟩]

theorem valid_inventory : inventory.Valid := by
  have hp : select 2 stock [⟨.column ⟨none, "item"⟩ .string, none⟩,
      ⟨.column ⟨none, "amount"⟩ .int64, some "left"⟩] = .ok inventory := rfl
  exact ⟨_, .call session_stock (.select (by simp) (by simpa using ⟨.column _ _, .column _ _⟩) hp)
    (by simp [id, inventory, stock]), List.mem_cons_self⟩

theorem sparesSortNames_inventory : inventory.SparesSortNames (Target.builtin .postgres) := by
  refine sparesSortNames_of_shared valid_inventory.wellFormed fun r hr s hs _ n hsort i hi => ?_
  obtain rfl : r = inventory := List.mem_singleton.mp hr
  obtain ⟨id, input, keys, rfl, k, hk, ref, j, hf, hj, hstem⟩ := hsort
  -- the sort goes by the first column of the table
  obtain ⟨rfl, rfl, rfl⟩ : id = 1 ∧
      input = .table 0 "stock" none [⟨"item", .string, true⟩, ⟨"amount", .int64, true⟩] ∧
      keys = [⟨.column ⟨none, "item"⟩ .string, false⟩] := by
    simpa [inventory, stock, nodes] using mem_nodes_of_mem_shared hs
  obtain rfl := List.mem_singleton.mp hk
  cases hf with
  | column =>
    obtain rfl : 0 = j := Lookup.found.inj hj
    obtain rfl : "item" = n := Option.some.inj (stems_self_iff.mp hstem)
    rcases i with _ | _ | i
    · exact .passed List.mem_cons_self (.project rfl (.column _ _) rfl)
        (.passed List.mem_cons_self .sort hstem)
    · exact absurd hi (by decide)
    · simp [inventory, schema, header, Schema.names] at hi

theorem toSelect_inventory_sort_keys_uncaptured : ∃ s,
    inventory.toSelect (Target.builtin .postgres) = .ok s ∧
      ∀ q ∈ s.statements, ∀ key ∈ q.orderBy, ∀ n, key.expr = .column none n →
        ∀ item ∈ q.projection.getD [], Sql.itemName? item = some n →
          item.expr = .column none n := by
  have hs : inventory.toSelect (Target.builtin .postgres) = .ok _ := rfl
  exact ⟨_, hs, toSelect_sort_keys_uncaptured valid_inventory sparesSortNames_inventory hs⟩

/-- The amounts in stock, shown as if they were the items. -/
def amountsAsItems : Relation :=
  .project 2 stock [⟨.column ⟨none, "amount"⟩ .int64, some "item"⟩]

/-- A sort by the items is made one by the amounts, which take the name. -/
theorem sort_key_captured : amountsAsItems.Valid ∧ ∀ d : Dialect, ∃ s,
    amountsAsItems.toSelect (Target.builtin d) = .ok s ∧
      ∃ key ∈ s.orderBy, key.expr = .column none "item" ∧
        ∃ item ∈ s.projection.getD [], Sql.itemName? item = some "item" ∧
          item.expr = .column none "amount" := by
  have hp : select 2 stock [⟨.column ⟨none, "amount"⟩ .int64, some "item"⟩] =
      .ok amountsAsItems := rfl
  refine ⟨⟨_, .call session_stock (.select (by simp) (by simpa using .column _ _) hp)
    (by simp [id, amountsAsItems, stock]), List.mem_cons_self⟩, fun d => ?_⟩
  cases d <;>
    exact ⟨_, rfl, _, List.mem_cons_self, rfl, _, List.mem_cons_self, rfl, rfl⟩

end Relation

end PlanSql
