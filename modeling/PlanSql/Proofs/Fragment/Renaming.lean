import PlanSql.Proofs.Fragment.OperatorClauses
import PlanSql.Proofs.Fragment.Substitution
import PlanSql.Proofs.Sql.Renaming

/-!
# Operators on fragments under other aliases

An operator makes of a fragment under other aliases what it makes of the fragment, under other
aliases, or refuses both with the same error. What it looks at, flags of the SELECT, names of
columns and which expressions are the same, does not depend on aliases. A SELECT put around a
fragment and a join of two fragments give out aliases of their own, and any others would do.
-/
namespace PlanSql

/-- The output column of another expression. -/
def OutputColumn.map (g : Sql.Expr → Sql.Expr) (c : OutputColumn) : OutputColumn :=
  { c with expr := g c.expr }

@[simp] theorem OutputColumn.map_id : OutputColumn.map id = id := rfl

@[simp] theorem OutputColumn.name_map (g : Sql.Expr → Sql.Expr) (c : OutputColumn) :
    (c.map g).name = c.name := rfl

variable {t : Target} {ρ : Equiv.Perm String} {source : Sql.FromItem}

theorem itemAlias_requalify (ρ : Equiv.Perm String) (e : Sql.Expr) (name : String) (asked : Bool) :
    itemAlias (e.requalify ρ) name asked = itemAlias e name asked := by
  cases e <;> rfl

theorem namedItems_requalify (ρ : Equiv.Perm String) (items : List Sql.SelectItem)
    (columns : List OutputColumn) :
    namedItems (items.map (Named.map (Sql.Expr.requalify ρ)))
        (columns.map (OutputColumn.map (Sql.Expr.requalify ρ))) =
      (namedItems items columns).map (Named.map (Sql.Expr.requalify ρ)) := by
  induction items generalizing columns with
  | nil => cases columns <;> rfl
  | cons item items ih =>
    cases columns with
    | nil => rfl
    | cons c columns =>
      simp only [List.map_cons, namedItems, ih, Named.map, OutputColumn.name_map,
        Sql.Expr.isColumnNamed_requalify]
      congr 1
      split <;> rfl

namespace Scope

theorem pickColumn_map (g : Sql.Expr → Sql.Expr) (columns : List OutputColumn) (index : Nat)
    (ref : ColumnRef) :
    pickColumn (columns.map (OutputColumn.map g)) index ref =
      g <$> pickColumn columns index ref := by
  simp only [pickColumn, List.getElem?_map, List.map_map, Function.comp_def,
    OutputColumn.name_map]
  cases columns[index]? <;> rfl

theorem column_columns_map (g : Sql.Expr → Sql.Expr) (header : Header)
    (columns : List OutputColumn) (ref : ColumnRef) :
    (Scope.columns header (columns.map (OutputColumn.map g))).column ref =
      g <$> (Scope.columns header columns).column ref := by
  simp only [column]
  cases header.resolve ref with
  | error => rfl
  | ok index => exact pickColumn_map g columns index ref

theorem column_join_map (g : Sql.Expr → Sql.Expr) (left right : Header)
    (ls rs : List OutputColumn) (ref : ColumnRef) :
    (Scope.join left right (ls.map (OutputColumn.map g)) (rs.map (OutputColumn.map g))).column ref =
      g <$> (Scope.join left right ls rs).column ref := by
  simp only [column]
  cases resolveSide left right ref with
  | error => rfl
  | ok x =>
    obtain ⟨side, index⟩ := x
    cases side with
    | left => exact pickColumn_map g ls index ref
    | right => exact pickColumn_map g rs index ref

end Scope

/-- Lowering commutes with the renaming of qualifiers. -/
theorem Expr.lower_requalify {S S' : Scope}
    (hS : ∀ ref, S'.column ref = Sql.Expr.requalify ρ <$> S.column ref) (e : Expr) :
    e.lower t S' = Sql.Expr.requalify ρ <$> e.lower t S :=
  lower_substitute (fun _ _ => rfl) hS e

namespace Fragment

section Scopes

variable {S S' : Scope} (hS : ∀ ref, S'.column ref = Sql.Expr.requalify ρ <$> S.column ref)
include hS

theorem outputs_requalify (nameComputed : Bool) (exprs : List NamedExpr) :
    outputs t S' nameComputed exprs =
      Prod.map (List.map (Named.map (Sql.Expr.requalify ρ)))
        (List.map (OutputColumn.map (Sql.Expr.requalify ρ))) <$>
        outputs t S nameComputed exprs := by
  have houtput : ∀ n ∈ exprs, output t S' nameComputed n =
      Prod.map (Named.map (Sql.Expr.requalify ρ)) (OutputColumn.map (Sql.Expr.requalify ρ)) <$>
        output t S nameComputed n := by
    intro n _
    simp [output, Expr.lower_requalify hS, map_bind, bind_map_left, itemAlias_requalify,
      Named.map, OutputColumn.map]
  simp only [outputs, mapM_eq_map_mapM houtput, map_bind, bind_map_left]
  simp [List.unzip_eq_map, Function.comp_def]

theorem conditions_requalify (cs : List Expr) :
    conditions t S' cs = List.map (Sql.Expr.requalify ρ) <$> conditions t S cs :=
  mapM_eq_map_mapM fun c _ => Expr.lower_requalify hS c

end Scopes

/-- The fragment over another source, its expressions under other qualifiers. -/
def requalified (ρ : Equiv.Perm String) (source : Sql.FromItem) (f : Fragment) : Fragment :=
  { f with
    select := f.select.map (Sql.Expr.requalify ρ) source
    columns := f.columns.map (OutputColumn.map (Sql.Expr.requalify ρ)) }

/-- The same fragment under other aliases of derived tables and joined tables. -/
def Renamed (f f' : Fragment) : Prop :=
  ∃ ρ source, f.select.source.Renamed ρ source ∧ f.select.source.Fixes ρ ∧
    f' = f.requalified ρ source

variable {f f' g : Fragment} {header : Header}

theorem column_requalified (f : Fragment) (header : Header) (ref : ColumnRef) :
    ((f.requalified ρ source).scope header).column ref =
      Sql.Expr.requalify ρ <$> (f.scope header).column ref :=
  Scope.column_columns_map _ header f.columns ref

theorem Renamed.flags_eq (h : f.Renamed f') : f'.flags = f.flags := by
  obtain ⟨ρ, source, -, -, rfl⟩ := h
  rfl

theorem Renamed.refl (f : Fragment) : f.Renamed f := by
  refine ⟨1, f.select.source, .refl _, Sql.FromItem.fixes_one _, ?_⟩
  simp [requalified, Sql.SelectOver.map_id]

theorem named_requalified (f : Fragment) :
    (f.requalified ρ source).named = f.named.map (Sql.Expr.requalify ρ) source := by
  cases hp : f.select.projection with
  | none => simp [named, requalified, Sql.SelectOver.map, hp]
  | some items => simp [named, requalified, Sql.SelectOver.map, hp, namedItems_requalify]

theorem items_requalified (f : Fragment) :
    (f.requalified ρ source).items = f.items.map (Named.map (Sql.Expr.requalify ρ)) := by
  unfold items
  cases hp : f.select.projection with
  | some _ => simp [requalified, Sql.SelectOver.map, hp]
  | none =>
    simp [requalified, Sql.SelectOver.map, hp, Function.comp_def, OutputColumn.map, Named.map,
      Named.unnamed]

theorem selectedKeys_requalify (ρ : Equiv.Perm String) (projection : Option (List Sql.SelectItem))
    (keys : List (SortKey Sql.Expr)) :
    selectedKeys (projection.map (List.map (Named.map (Sql.Expr.requalify ρ))))
        (keys.map (SortKey.map (Sql.Expr.requalify ρ))) =
      (selectedKeys projection keys).map (SortKey.map (Sql.Expr.requalify ρ)) := by
  cases projection with
  | none => rfl
  | some items =>
    simp [selectedKeys, List.filter_map, Function.comp_def, Named.map, SortKey.map,
      Sql.Expr.same_requalify]

theorem distinct_requalified (f : Fragment) :
    (f.requalified ρ source).distinct = f.distinct.requalified ρ source := by
  simp [distinct, requalified, Sql.SelectOver.map, selectedKeys_requalify]

theorem project_requalified (f : Fragment) (exprs : List NamedExpr) :
    (f.requalified ρ source).project t header exprs =
      requalified ρ source <$> f.project t header exprs := by
  simp only [project, outputs_requalify (column_requalified f header), map_bind, bind_map_left]
  simp [requalified, Sql.SelectOver.map, List.any_map, Function.comp_def, Named.map,
    Sql.Expr.containsWindow_requalify]

theorem filter_requalified (f : Fragment) (cs : List Expr) :
    (f.requalified ρ source).filter t header cs =
      requalified ρ source <$> f.filter t header cs := by
  simp only [filter, conditions_requalify (column_requalified f header), map_bind, bind_map_left]
  refine congrArg _ (funext fun ss => ?_)
  cases ha : f.aggregated with
  | true =>
    cases hs : t.descriptor.supportsHaving <;>
      simp [requalified, Sql.SelectOver.map, ha, refuse]
  | false => cases hw : f.windowed <;> simp [requalified, Sql.SelectOver.map, ha, hw]

theorem aggregate_requalified (f : Fragment) (keys metrics : List NamedExpr) (having : List Expr) :
    (f.requalified ρ source).aggregate t header keys metrics having =
      requalified ρ source <$> f.aggregate t header keys metrics having := by
  simp only [aggregate, outputs_requalify (column_requalified f header),
    conditions_requalify (column_requalified f header), map_bind, bind_map_left]
  refine congrArg _ (funext fun k => congrArg _ (funext fun m => congrArg _ (funext fun ss => ?_)))
  simp only [List.isEmpty_map]
  split
  · rfl
  · simp [requalified, Sql.SelectOver.map, Function.comp_def, Named.map]

theorem sort_requalified (f : Fragment) (keys : List (SortKey Expr)) :
    (f.requalified ρ source).sort t header keys =
      requalified ρ source <$> f.sort t header keys := by
  have hkeys : Expr.lowerKeys t ((f.requalified ρ source).scope header) keys =
      List.map (SortKey.map (Sql.Expr.requalify ρ)) <$>
        Expr.lowerKeys t (f.scope header) keys :=
    Expr.lowerKeys_map keys fun k _ => Expr.lower_requalify (column_requalified f header) k.expr
  simp only [sort, hkeys, map_bind, bind_map_left]
  simp [requalified, Sql.SelectOver.map]

theorem window_requalified (f : Fragment) (exprs : List NamedExpr) :
    (f.requalified ρ source).window t header exprs =
      requalified ρ source <$> f.window t header exprs := by
  simp only [window, outputs_requalify (column_requalified f header), map_bind, bind_map_left,
    items_requalified]
  simp [requalified, Sql.SelectOver.map]

theorem Renamed.select (h : f.Renamed f') : f.select.Renamed f'.select := by
  obtain ⟨ρ, source, hr, hf, rfl⟩ := h
  exact ⟨ρ, source, hr, hf, rfl⟩

/-- A SELECT put around a fragment may have any alias. -/
theorem Renamed.wrapped (h : f.Renamed f') (a a' : String) :
    (f.wrapped a).Renamed (f'.wrapped a') := by
  obtain ⟨ρ, source, hr, hf, rfl⟩ := h
  have hd := Sql.FromItem.Renamed.derived (s := f.named) (Equiv.swap a a') a hr hf
  rw [Equiv.swap_apply_left, ← named_requalified] at hd
  refine ⟨Equiv.swap a a', _, hd, trivial, ?_⟩
  simp [Fragment.wrapped, ofSource, requalified, Sql.SelectOver.map, Sql.SelectOver.ofSource,
    Function.comp_def, OutputColumn.under, OutputColumn.map, Sql.Expr.requalify_column]

theorem Renamed.enters (h : f.Renamed g) {b : Bool} (he : f.Enters b f') (a : String) :
    f'.Renamed (if b then g.wrapped a else g) := by
  rcases he with ⟨rfl, rfl⟩ | ⟨rfl, a', rfl⟩
  · exact h
  · exact h.wrapped a' a

/-- A side of a join under another alias. -/
theorem Renamed.joinSide (h : f.Renamed f') (π : Equiv.Perm String) (a : String) :
    (f.joinSide a).1.Renamed π (f'.joinSide (π a)).1 ∧
      (f'.joinSide (π a)).2 =
        (f.joinSide a).2.map (OutputColumn.map (Sql.Expr.requalify π)) := by
  obtain ⟨ρ, source, hr, hf, rfl⟩ := h
  refine ⟨?_, ?_⟩
  · have hbare : (f.requalified ρ source).select.bareTable? = f.select.bareTable? :=
      Sql.Select.bareTable?_map hr _
    have hd := Sql.FromItem.Renamed.derived (s := f.named) π a hr hf
    rw [← named_requalified] at hd
    simp only [Fragment.joinSide, hbare]
    cases f.select.bareTable? with
    | none => exact hd
    | some name => exact .table π name (some a)
  · simp [Fragment.joinSide, requalified, Function.comp_def, OutputColumn.under,
      OutputColumn.map, Sql.Expr.requalify_column]

/-- Two fragments are joined under whatever aliases, as long as these are different. -/
theorem Renamed.join {l l' r r' : Fragment} (hl : l.Renamed l') (hr : r.Renamed r')
    {a b a' b' : String} (hab : a ≠ b) (hab' : a' ≠ b') (op : Sql.JoinOp) (left right : Header)
    (fields : Schema) (cs : List Expr) :
    Alike Renamed (Fragment.join t op left right fields cs (l.joinSide a) (r.joinSide b))
      (Fragment.join t op left right fields cs (l'.joinSide a') (r'.joinSide b')) := by
  obtain ⟨π, rfl, rfl⟩ := Sql.exists_renaming hab hab'
  obtain ⟨hls, hlc⟩ := hl.joinSide π a
  obtain ⟨hrs, hrc⟩ := hr.joinSide π b
  have hon := conditions_requalify (t := t)
    (Scope.column_join_map (Sql.Expr.requalify π) left right (l.joinSide a).2 (r.joinSide b).2) cs
  have hcolumn : ∀ (field : Field) (c : OutputColumn),
      joinColumn field (c.map (Sql.Expr.requalify π)) =
        Prod.map (Named.map (Sql.Expr.requalify π)) (OutputColumn.map (Sql.Expr.requalify π))
          (joinColumn field c) := by
    intro field c
    simp [joinColumn, OutputColumn.map, Named.map, itemAlias_requalify]
  simp only [Fragment.join, hlc, hrc, hon]
  cases conditions t (.join left right (l.joinSide a).2 (r.joinSide b).2) cs with
  | error e => rfl
  | ok on =>
    refine ⟨_, rfl, π, _, .join op on hls hrs, trivial, ?_⟩
    simp [ofSource, requalified, Sql.SelectOver.map, Sql.SelectOver.ofSource, List.unzip_eq_map,
      ← List.map_append, List.zipWith_map_right, hcolumn]

end Fragment

namespace Relation

variable {r : Relation} {f f' g : Fragment}

/-- An operator commutes with the renaming of the qualifiers in a fragment. -/
theorem operate_requalified (r : Relation) (f : Fragment) :
    r.operate t (f.requalified ρ source) =
      Fragment.requalified ρ source <$> r.operate t f := by
  cases r with
  | table | join | limit => rfl
  | distinct id i => exact congrArg Except.ok (Fragment.distinct_requalified f)
  | project id i exprs => exact Fragment.project_requalified f exprs
  | filter id i cs => exact Fragment.filter_requalified f cs
  | aggregate id i keys metrics having => exact Fragment.aggregate_requalified f keys metrics having
  | sort id i keys => exact Fragment.sort_requalified f keys
  | window id i exprs => exact Fragment.window_requalified f exprs

/-- An operator makes of a fragment under other aliases what it makes of the fragment. -/
theorem operate_renamed (h : f.Renamed f') :
    Alike Fragment.Renamed (r.operate t f) (r.operate t f') := by
  obtain ⟨ρ, source, hr, hf, rfl⟩ := h
  rw [operate_requalified]
  cases hg : r.operate t f with
  | error e => rfl
  | ok g =>
    have hs := source_operate hg
    exact ⟨_, rfl, ρ, source, hs ▸ hr, hs ▸ hf, rfl⟩

end Relation

end PlanSql
