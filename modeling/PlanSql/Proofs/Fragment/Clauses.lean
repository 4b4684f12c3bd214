import PlanSql.Fragment.Basic
import PlanSql.Proofs.Fragment.Lowering
import PlanSql.Proofs.Relation.Headers

/-!
# What clauses are made of

The items and columns that outputs become, the conjuncts that conditions become, and the items of a
statement once each of them has the name of its column.
-/
namespace PlanSql

namespace Sql

/-- The name that an item of a projection goes by in every dialect, if it has one. -/
def itemName? (item : SelectItem) : Option String :=
  match item.aliasName, item.expr with
  | some name, _ => some name
  | none, .column _ name => some name
  | none, _ => none

/-- A bare table is a table and no clause does anything. -/
theorem Select.bareTable?_eq_some {s : Select} {name : String} (h : s.bareTable? = some name) :
    (∃ aliasName, s.source = .table name aliasName) ∧ s.projection = none ∧
      s.distinct = false ∧ s.selection = [] ∧ s.having = [] ∧ s.qualify = [] := by
  unfold bareTable? at h
  split at h
  · next name' aliasName hs =>
    split at h
    · next hc =>
      obtain rfl : name' = name := by simpa using h
      simp only [Bool.and_eq_true, Option.isNone_iff_eq_none, List.isEmpty_iff,
        Bool.not_eq_true'] at hc
      obtain ⟨⟨⟨⟨⟨⟨⟨hp, hd⟩, hw⟩, -⟩, hh⟩, hq⟩, -⟩, -⟩ := hc
      exact ⟨⟨aliasName, hs⟩, hp, hd, hw, hh, hq⟩
    · simp at h
  · simp at h

end Sql

/-- All columns of an expression stand for something in a scope. -/
def Scope.Resolves (scope : Scope) (e : Expr) : Prop :=
  ∀ ref ∈ e.columnRefs, ∃ s, scope.column ref = .ok s

namespace Fragment

variable {t : Target} {scope : Scope}

/-- The column that an output makes. -/
def ColumnOf (t : Target) (scope : Scope) (n : NamedExpr) (c : OutputColumn) : Prop :=
  n.expr.lower t scope = .ok c.expr ∧ c.name = n.outputName ∧ c.dataType = n.expr.dataType

/-- An item has the SQL of a column, and an alias at most for the column's name. -/
def Shows (item : Sql.SelectItem) (c : OutputColumn) : Prop :=
  item.expr = c.expr ∧ (item.aliasName = none ∨ item.aliasName = some c.name)

theorem isSettled_eq_false {f : Fragment} :
    f.isSettled = false ↔ f.select.isLimited = false ∧ f.select.distinct = false :=
  Bool.or_eq_false_iff

theorem itemAlias_eq (e : Sql.Expr) (name : String) (asked : Bool) :
    itemAlias e name asked = none ∨ itemAlias e name asked = some name := by
  unfold itemAlias
  split <;> split <;> simp

/-- An output as an item and a column, for what its expression becomes. -/
theorem output_eq_ok {nameComputed : Bool} {n : NamedExpr} {x : Sql.SelectItem × OutputColumn}
    (h : output t scope nameComputed n = .ok x) : ∃ s, n.expr.lower t scope = .ok s ∧
      x = (⟨s, itemAlias s n.outputName (nameComputed || n.aliasName.isSome)⟩,
        ⟨n.outputName, s, n.expr.dataType⟩) := by
  obtain ⟨s, hs, hx⟩ := bind_eq_ok.mp h
  exact ⟨s, hs, by simpa using hx.symm⟩

theorem outputs_pairs {nameComputed : Bool} {exprs : List NamedExpr}
    {items : List Sql.SelectItem} {columns : List OutputColumn}
    (h : outputs t scope nameComputed exprs = .ok (items, columns)) : ∃ pairs,
      List.Forall₂ (fun n x => output t scope nameComputed n = .ok x) exprs pairs ∧
        pairs.map (·.1) = items ∧ pairs.map (·.2) = columns := by
  obtain ⟨pairs, hp, h⟩ := bind_eq_ok.mp h
  exact ⟨pairs, mapM_eq_ok.mp hp, by simpa [List.unzip_eq_map] using h⟩

theorem outputs_eq_ok {nameComputed : Bool} {exprs : List NamedExpr}
    {items : List Sql.SelectItem} {columns : List OutputColumn}
    (h : outputs t scope nameComputed exprs = .ok (items, columns)) :
    List.Forall₂ (ColumnOf t scope) exprs columns ∧ List.Forall₂ Shows items columns := by
  obtain ⟨pairs, hp, rfl, rfl⟩ := outputs_pairs h
  rw [List.forall₂_map_right_iff, List.forall₂_map_left_iff, List.forall₂_map_right_iff,
    List.forall₂_same]
  refine ⟨hp.imp fun n x hx => ?_, fun x hx => ?_⟩
  · obtain ⟨s, hs, rfl⟩ := output_eq_ok hx
    exact ⟨hs, rfl, rfl⟩
  · obtain ⟨n, -, hx⟩ := forall₂_mem_right hp hx
    obtain ⟨s, -, rfl⟩ := output_eq_ok hx
    exact ⟨rfl, itemAlias_eq _ _ _⟩

/-- Every output becomes the expression of its item. -/
theorem outputs_items {nameComputed : Bool} {exprs : List NamedExpr}
    {items : List Sql.SelectItem} {columns : List OutputColumn}
    (h : outputs t scope nameComputed exprs = .ok (items, columns)) :
    List.Forall₂ (fun n item => n.expr.lower t scope = .ok item.expr) exprs items := by
  obtain ⟨hcols, hitems⟩ := outputs_eq_ok h
  clear h
  induction hcols generalizing items with
  | nil =>
    cases hitems
    exact .nil
  | cons hc _ ih =>
    cases hitems with
    | cons hs hrest => exact .cons (hs.1 ▸ hc.1) (ih hrest)

theorem conditions_eq_ok {cs : List Expr} {ss : List Sql.Expr} :
    conditions t scope cs = .ok ss ↔
      List.Forall₂ (fun e s => e.lower t scope = .ok s) (cs.flatMap Expr.conjuncts) ss :=
  mapM_eq_ok

/-- Outputs under names of their own make columns of these names. -/
theorem names_of_columnOf {exprs : List NamedExpr} {columns : List OutputColumn}
    (h : List.Forall₂ (ColumnOf t scope) exprs columns) :
    columns.map (·.name) = Schema.names (exprs.map NamedExpr.field) := by
  induction h with
  | nil => rfl
  | cons hc _ ih =>
    simp only [List.map_cons, hc.2.1, ih, Schema.names]
    rfl

/-- What holds of the SQL of all outputs holds of the columns they make. -/
theorem forall_columns {exprs : List NamedExpr} {columns : List OutputColumn}
    {P : Sql.Expr → Prop} (h : List.Forall₂ (ColumnOf t scope) exprs columns)
    (hP : ∀ n ∈ exprs, ∀ s, n.expr.lower t scope = .ok s → P s) : ∀ c ∈ columns, P c.expr := by
  intro c hc
  obtain ⟨n, hn, hs, -⟩ := forall₂_mem_right h hc
  exact hP n hn c.expr hs

theorem forall_items {items : List Sql.SelectItem} {columns : List OutputColumn}
    {P : Sql.Expr → Prop} (hs : List.Forall₂ Shows items columns)
    (hc : ∀ c ∈ columns, P c.expr) : ∀ item ∈ items, P item.expr := by
  intro item hi
  obtain ⟨c, hm, he, -⟩ := forall₂_mem_left hs hi
  rw [he]
  exact hc c hm

/-- What holds of the SQL of all conjuncts holds of the conditions. -/
theorem forall_conditions {cs : List Expr} {ss : List Sql.Expr} {P : Sql.Expr → Prop}
    (h : conditions t scope cs = .ok ss)
    (hP : ∀ c ∈ cs, ∀ p ∈ c.conjuncts, ∀ s, p.lower t scope = .ok s → P s) : ∀ s ∈ ss, P s := by
  intro s hs
  obtain ⟨p, hp, hl⟩ := forall₂_mem_right (conditions_eq_ok.mp h) hs
  obtain ⟨c, hc, hpc⟩ := List.mem_flatMap.mp hp
  exact hP c hc p hpc s hl

theorem forall_keys {keys : List (SortKey Expr)} {ss : List (SortKey Sql.Expr)}
    {P : Sql.Expr → Prop} (h : Expr.lowerKeys t scope keys = .ok ss)
    (hP : ∀ k ∈ keys, ∀ s, k.expr.lower t scope = .ok s → P s) : ∀ s ∈ ss, P s.expr := by
  intro s hs
  obtain ⟨k, hk, hl, -⟩ := forall₂_mem_right (Expr.lowerKeys_eq_ok.mp h) hs
  exact hP k hk s.expr hl

/-- Items show what the columns stand for. -/
theorem map_value_of_shows {α : Type} {items : List Sql.SelectItem} {columns : List OutputColumn}
    (h : List.Forall₂ Shows items columns) (v : Sql.Expr → α) :
    items.map (fun item => v item.expr) = columns.map fun c => v c.expr := by
  induction h with
  | nil => rfl
  | cons hs _ ih => rw [List.map_cons, List.map_cons, hs.1, ih]

/-- The items and columns of a join, for fields and columns in the same number. -/
theorem joinColumns {fields : Schema} {columns : List OutputColumn}
    (h : fields.length = columns.length) :
    let joined := (List.zipWith joinColumn fields columns).unzip
    List.Forall₂ Shows joined.1 joined.2 ∧ joined.2.map (·.name) = fields.names ∧
      joined.2.map (·.expr) = columns.map (·.expr) := by
  induction fields generalizing columns with
  | nil =>
    obtain rfl : columns = [] := List.length_eq_zero_iff.mp h.symm
    exact ⟨.nil, rfl, rfl⟩
  | cons field fields ih =>
    cases columns with
    | nil => simp at h
    | cons c columns =>
      obtain ⟨hs, hn, he⟩ := ih (by simpa using h)
      simp only [List.zipWith_cons_cons, List.unzip_cons]
      refine ⟨.cons ⟨rfl, itemAlias_eq _ _ _⟩ hs, ?_, ?_⟩
      · simp only [List.map_cons, hn, Schema.names]
        rfl
      · simp only [List.map_cons, he]
        rfl

/-- An item and a column of a join are made of a column of one of its sides. -/
theorem mem_joinColumns {fields : Schema} {columns : List OutputColumn}
    {x : Sql.SelectItem × OutputColumn} (hx : x ∈ List.zipWith joinColumn fields columns) :
    ∃ field, ∃ c ∈ columns, joinColumn field c = x := by
  rw [← List.map_uncurry_zip_eq_zipWith] at hx
  obtain ⟨⟨field, c⟩, hm, rfl⟩ := List.mem_map.mp hx
  exact ⟨field, c, (List.of_mem_zip hm).2, rfl⟩

/-- Putting names to the items changes none of the expressions. -/
theorem namedItems_exprs (items : List Sql.SelectItem) (columns : List OutputColumn) :
    (namedItems items columns).map (·.expr) = items.map (·.expr) := by
  induction items generalizing columns with
  | nil => cases columns <;> rfl
  | cons item items ih =>
    cases columns with
    | nil => rfl
    | cons c columns =>
      simp only [namedItems, List.map_cons, ih]
      split <;> rfl

theorem projection_named (f : Fragment) :
    (f.named.projection.getD []).map (·.expr) = (f.select.projection.getD []).map (·.expr) := by
  unfold named
  cases f.select.projection with
  | none => rfl
  | some items => exact namedItems_exprs items f.columns

theorem expressions_named (f : Fragment) : f.named.expressions = f.select.expressions := by
  unfold Sql.SelectOver.expressions
  rw [projection_named]
  rfl

/-- Every item of a statement put into another has the SQL of its column and goes by its name. -/
theorem namedItems_shows {items : List Sql.SelectItem} {columns : List OutputColumn}
    (h : List.Forall₂ Shows items columns) :
    List.Forall₂ (fun item c => item.expr = c.expr ∧ Sql.itemName? item = some c.name)
      (namedItems items columns) columns := by
  induction h with
  | nil => exact .nil
  | @cons item c items columns hs _ ih =>
    refine .cons ?_ ih
    obtain ⟨he, ha⟩ := hs
    obtain ⟨e, a⟩ := item
    obtain rfl : e = c.expr := he
    rcases ha with rfl | rfl
    · cases hc : c.expr with
      | column q n =>
        by_cases hn : n = c.name <;>
          simp [Sql.Expr.isColumnNamed, Sql.itemName?, hn]
      | _ => simp [Sql.Expr.isColumnNamed, Sql.itemName?]
    · simp [Sql.itemName?]

theorem namedItems_names {items : List Sql.SelectItem} {columns : List OutputColumn}
    (h : List.Forall₂ Shows items columns) :
    (namedItems items columns).map (·.expr) = columns.map (·.expr) ∧
      (namedItems items columns).map Sql.itemName? = columns.map fun c => some c.name := by
  have hs := namedItems_shows h
  rw [← List.forall₂_eq_eq_eq, List.forall₂_map_left_iff, List.forall₂_map_right_iff,
    ← List.forall₂_eq_eq_eq, List.forall₂_map_left_iff, List.forall₂_map_right_iff]
  exact ⟨hs.imp fun _ _ h => h.1, hs.imp fun _ _ h => h.2⟩

variable {header : Header} {f g : Fragment}

theorem project_eq_ok {exprs : List NamedExpr} (h : f.project t header exprs = .ok g) :
    ∃ items columns, outputs t (f.scope header) false exprs = .ok (items, columns) ∧
      g = { f with
        select := { f.select with projection := some items }
        columns := columns
        windowed := f.windowed || items.any fun item => item.expr.containsWindow } := by
  obtain ⟨⟨items, columns⟩, ho, h⟩ := bind_eq_ok.mp h
  exact ⟨items, columns, ho, by simpa using h.symm⟩

/-- A condition goes to HAVING, to QUALIFY or to WHERE. -/
theorem filter_eq_ok {cs : List Expr} (h : f.filter t header cs = .ok g) :
    ∃ conjuncts, conditions t (f.scope header) cs = .ok conjuncts ∧
      (f.aggregated = true ∧
          g = { f with select := { f.select with having := f.select.having ++ conjuncts } } ∨
        f.aggregated = false ∧ f.windowed = true ∧
          g = { f with select := { f.select with qualify := f.select.qualify ++ conjuncts } } ∨
        f.aggregated = false ∧ f.windowed = false ∧
          g = { f with select :=
            { f.select with selection := f.select.selection ++ conjuncts } }) := by
  obtain ⟨conjuncts, hc, h⟩ := bind_eq_ok.mp h
  refine ⟨conjuncts, hc, ?_⟩
  split at h
  · next ha =>
    split at h
    · simp [refuse] at h
    · exact .inl ⟨ha, by simpa using h.symm⟩
  · next ha =>
    split at h
    · next hw => exact .inr (.inl ⟨by simpa using ha, hw, by simpa using h.symm⟩)
    · next hw =>
      exact .inr (.inr ⟨by simpa using ha, by simpa using hw, by simpa using h.symm⟩)

theorem aggregate_eq_ok {keys metrics : List NamedExpr} {having : List Expr}
    (h : f.aggregate t header keys metrics having = .ok g) :
    ∃ keyItems keyColumns metricItems metricColumns conjuncts,
      outputs t (f.scope header) true keys = .ok (keyItems, keyColumns) ∧
      outputs t (f.scope header) false metrics = .ok (metricItems, metricColumns) ∧
      conditions t (f.scope header) having = .ok conjuncts ∧
      g = {
        select := { f.select with
          projection := some (keyItems ++ metricItems)
          groupBy := keyItems.map (·.expr)
          having := f.select.having ++ conjuncts
          orderBy := [] }
        columns := keyColumns ++ metricColumns
        aggregated := true
        windowed := false } := by
  obtain ⟨⟨keyItems, keyColumns⟩, hk, h⟩ := bind_eq_ok.mp h
  obtain ⟨⟨metricItems, metricColumns⟩, hm, h⟩ := bind_eq_ok.mp h
  obtain ⟨conjuncts, hc, h⟩ := bind_eq_ok.mp h
  refine ⟨keyItems, keyColumns, metricItems, metricColumns, conjuncts, hk, hm, hc, ?_⟩
  split at h
  · simp [refuse] at h
  · simpa using h.symm

theorem sort_eq_ok {keys : List (SortKey Expr)} (h : f.sort t header keys = .ok g) :
    ∃ sortKeys, Expr.lowerKeys t (f.scope header) keys = .ok sortKeys ∧
      g = { f with select := { f.select with orderBy := sortKeys ++ f.select.orderBy } } := by
  obtain ⟨sortKeys, hk, h⟩ := bind_eq_ok.mp h
  exact ⟨sortKeys, hk, by simpa using h.symm⟩

theorem window_eq_ok {exprs : List NamedExpr} (h : f.window t header exprs = .ok g) :
    ∃ items columns, outputs t (f.scope header) false exprs = .ok (items, columns) ∧
      g = { f with
        select := { f.select with projection := some (f.items ++ items) }
        columns := f.columns ++ columns
        windowed := true } := by
  obtain ⟨⟨items, columns⟩, ho, h⟩ := bind_eq_ok.mp h
  exact ⟨items, columns, ho, by simpa using h.symm⟩

/-- Removing repetitions brings in no sort keys. -/
theorem orderBy_distinct_subset (f : Fragment) :
    f.distinct.select.orderBy ⊆ f.select.orderBy := by
  intro key hk
  unfold distinct selectedKeys at hk
  split at hk
  · exact hk
  · exact List.mem_of_mem_filter hk

theorem join_eq_ok {op : Sql.JoinOp} {left right : Header} {fields : Schema} {cs : List Expr}
    {l r : Sql.FromItem × List OutputColumn}
    (h : join t op left right fields cs l r = .ok g) :
    ∃ on, conditions t (.join left right l.2 r.2) cs = .ok on ∧
      g = {
        select := { Sql.SelectOver.ofSource (.join l.1 r.1 op on) with
          projection := some (List.zipWith joinColumn fields (l.2 ++ r.2)).unzip.1 }
        columns := (List.zipWith joinColumn fields (l.2 ++ r.2)).unzip.2
        aggregated := false
        windowed := false } := by
  obtain ⟨on, hc, h⟩ := bind_eq_ok.mp h
  exact ⟨on, hc, (Except.ok.inj h).symm⟩

end Fragment

namespace Scope

theorem pickColumn_eq_ok {columns : List OutputColumn} {i : Nat} {ref : ColumnRef}
    {s : Sql.Expr} (h : pickColumn columns i ref = .ok s) :
    ∃ c, columns[i]? = some c ∧ c.expr = s := by
  unfold pickColumn at h
  split at h
  · next c hc => exact ⟨c, hc, by simpa using h⟩
  · simp at h

theorem columns_eq_ok {h : Header} {columns : List OutputColumn} {ref : ColumnRef}
    {s : Sql.Expr} (hs : (Scope.columns h columns).column ref = .ok s) :
    ∃ i c, h.lookup ref = .found i ∧ columns[i]? = some c ∧ c.expr = s := by
  simp only [column] at hs
  split at hs
  · next i hi =>
    obtain ⟨c, hc, he⟩ := pickColumn_eq_ok hs
    exact ⟨i, c, Header.resolve_eq_ok.mp hi, hc, he⟩
  · simp at hs

theorem join_eq_ok {l r : Header} {ls rs : List OutputColumn} {ref : ColumnRef}
    {s : Sql.Expr} (hs : (Scope.join l r ls rs).column ref = .ok s) :
    (∃ i c, resolveSide l r ref = .ok (.left, i) ∧ ls[i]? = some c ∧ c.expr = s) ∨
      ∃ i c, resolveSide l r ref = .ok (.right, i) ∧ rs[i]? = some c ∧ c.expr = s := by
  simp only [column] at hs
  split at hs
  · next i hi =>
    obtain ⟨c, hc, he⟩ := pickColumn_eq_ok hs
    exact .inl ⟨i, c, hi, hc, he⟩
  · next i hi =>
    obtain ⟨c, hc, he⟩ := pickColumn_eq_ok hs
    exact .inr ⟨i, c, hi, hc, he⟩
  · simp at hs

theorem forall_columns (h : Header) {columns : List OutputColumn} {P : Sql.Expr → Prop}
    (hc : ∀ c ∈ columns, P c.expr) :
    ∀ ref d, (Scope.columns h columns).column ref = .ok d → P d := by
  intro ref d hd
  obtain ⟨i, c, -, hi, rfl⟩ := columns_eq_ok hd
  exact hc c (List.mem_of_getElem? hi)

theorem forall_join (l r : Header) {ls rs : List OutputColumn} {P : Sql.Expr → Prop}
    (hc : ∀ c ∈ ls ++ rs, P c.expr) :
    ∀ ref d, (Scope.join l r ls rs).column ref = .ok d → P d := by
  intro ref d hd
  rcases join_eq_ok hd with ⟨i, c, -, hi, rfl⟩ | ⟨i, c, -, hi, rfl⟩
  · exact hc c (List.mem_append_left _ (List.mem_of_getElem? hi))
  · exact hc c (List.mem_append_right _ (List.mem_of_getElem? hi))

theorem resolves_columns {h : Header} {columns : List OutputColumn} {e : Expr}
    (ha : h.Aligned) (hl : columns.length = h.fields.length) (hb : h.Binds e) :
    (Scope.columns h columns).Resolves e := by
  intro ref hr
  obtain ⟨i, hi⟩ := hb ref hr
  have hlt : i < columns.length := by rw [hl]; exact ha.lt_of_found hi
  exact ⟨columns[i].expr, by simp [Scope.column, Header.resolve_eq_ok.mpr hi, pickColumn, hlt]⟩

theorem resolves_join {l r : Header} {ls rs : List OutputColumn} {e : Expr}
    (hla : l.Aligned) (hra : r.Aligned) (hl : ls.length = l.fields.length)
    (hr : rs.length = r.fields.length) (hb : BindsSide l r e) :
    (Scope.join l r ls rs).Resolves e := by
  intro ref href
  obtain ⟨⟨side, i⟩, hs⟩ := hb ref href
  cases side with
  | left =>
    have hlt : i < ls.length := by
      rw [hl]
      exact hla.lt_of_found (resolveSide_eq_left.mp hs).1
    exact ⟨ls[i].expr, by simp [Scope.column, hs, pickColumn, hlt]⟩
  | right =>
    have hlt : i < rs.length := by
      rw [hr]
      exact hra.lt_of_found (resolveSide_eq_right.mp hs).2
    exact ⟨rs[i].expr, by simp [Scope.column, hs, pickColumn, hlt]⟩

theorem Resolves.part {scope : Scope} {e p : Expr} (h : scope.Resolves e) (hp : p ∈ e.parts) :
    scope.Resolves p :=
  fun ref hr => h ref (Expr.mem_columnRefs_of_part hp hr)

end Scope

end PlanSql
