import PlanSql.Proofs.Fragment.Forwarding
import PlanSql.Proofs.Fragment.Positions

/-!
# Names of outputs

An item of a projection goes by its alias or, if it is a column, by the name of the column. The
outermost SELECT of a statement gives an alias where one is asked for, to keys of groups and where a
column has another name; a computed item is left without a name otherwise. So an output is named if
it has an alias itself, or if it refers to a column that is one in SQL as well: where the column is
computed by an operator of the same SELECT, the name that it had there is lost.
-/
namespace PlanSql

/-- Anything but a column. As an item of a projection it has no name of its own. -/
def Sql.Expr.isComputed : Sql.Expr → Bool
  | .column _ _ => false
  | _ => true

theorem Sql.itemName?_itemAlias (e : Sql.Expr) (name : String) (asked : Bool) :
    Sql.itemName? ⟨e, itemAlias e name asked⟩ =
      if asked || !e.isComputed then some name else none := by
  cases e with
  | column q n =>
    by_cases h : n = name <;> simp [itemAlias, Sql.itemName?, Sql.Expr.isComputed, h]
  | _ => cases asked <;> simp [itemAlias, Sql.itemName?, Sql.Expr.isComputed]

/-- The rules make an expression of their own of a function of one row. -/
theorem Target.not_replacesBy {d : Dialect} {function : String} {n i : Nat}
    (hf : (function, n) ∈ RuleTable.rowFunctions) :
    ¬ (Target.builtin d).ReplacesBy function i := by
  intro h
  have hc := RuleTable.isComposed_builtin d d.mem_all _ hf
  unfold ReplacesBy at h
  simp only [RuleTable.isComposed, builtin] at hc h
  simp [h, Template.isComposed] at hc

namespace Expr

/-- Anything but a column that is one in SQL as well. -/
def isComputed : Test := fun header passes e =>
  match e with
  | .column ref _ => header.leadsTo passes ref
  | _ => true

variable {d : Dialect} {header : Header} {columns : List OutputColumn} {passes : Nat → Bool}

/-- Nothing but a column becomes a column. -/
theorem eq_column_of_lower {scope : Scope} {e : Expr} {q : Option String} {n : String}
    (h : e.lower (Target.builtin d) scope = .ok (.column q n)) :
    ∃ ref type, e = .column ref type := by
  obtain ⟨ref, hf⟩ := exists_forwards h
  cases hf with
  | column ref type => exact ⟨ref, type, rfl⟩
  | @function f args _ _ _ hr =>
    obtain ⟨_, -, hn⟩ := scalar_mem_rowFunctions f args.length
    exact absurd hr (Target.not_replacesBy hn)
  | @extract part _ _ hr => exact absurd hr (Target.not_replacesBy (datePart_mem_rowFunctions part))
  | @toTimestamp _ unit _ hr =>
    exact absurd hr (Target.not_replacesBy (timeUnit_mem_rowFunctions unit))
  | aggregate =>
    obtain ⟨_, _, -, -, hs⟩ := lower_eq_ok.mp h
    have hcall := Target.aggregate_builtin rfl hs
    simp at hcall

/-- The expressions that become computed items. -/
theorem isComputed_lower (hc : Fragment.PassesAt Sql.Expr.isComputed passes columns) {e : Expr}
    {s : Sql.Expr} (h : e.lower (Target.builtin d) (.columns header columns) = .ok s) :
    s.isComputed = e.isComputed header passes := by
  cases e with
  | column ref type => exact hc.leadsTo (lower_eq_ok.mp h)
  | _ =>
    cases s with
    | column q n =>
      obtain ⟨_, _, he⟩ := eq_column_of_lower h
      simp at he
    | _ => rfl

end Expr

theorem traces_isComputed (d : Dialect) : Traces d Expr.isComputed Sql.Expr.isComputed where
  column _ _ := rfl
  output _ _ _ _ _ hf _ _ _ := Expr.isComputed_lower hf

/-- The output has an alias or is a column that is one in SQL as well. -/
def NamedExpr.isNamed (header : Header) (passes : Nat → Bool) (n : NamedExpr) : Bool :=
  n.aliasName.isSome || !n.expr.isComputed header passes

namespace Relation

/-- Which outputs are named after the operator at the root, given the computed columns among those
that it works on and the columns that are named there. -/
def namedOver (computed below : Nat → Bool) (r : Relation) (i : Nat) : Bool :=
  match r with
  | .table _ _ _ _ | .join _ _ _ _ _ => true
  | .project _ input exprs => (exprs[i]?).any (NamedExpr.isNamed input.header computed)
  | .aggregate _ input keys metrics _ =>
    if i < keys.length then true
    else (metrics[i - keys.length]?).any (NamedExpr.isNamed input.header computed)
  | .window _ input exprs =>
    if i < input.header.fields.length then below i
    else (exprs[i - input.header.fields.length]?).any (NamedExpr.isNamed input.header computed)
  | .filter _ _ _ | .sort _ _ _ | .limit _ _ _ _ | .distinct _ _ => below i

/-- Whether the output at a position is named in the statement of a relation. A derived table names
all of its columns. -/
def namedAt (t : Target) : Relation → Nat → Bool
  | .table _ _ _ _ | .join _ _ _ _ _ => fun _ => true
  | r@(.project _ input _) | r@(.filter _ input _) | r@(.aggregate _ input _ _ _)
  | r@(.sort _ input _) | r@(.limit _ input _ _) | r@(.window _ input _)
  | r@(.distinct _ input) =>
    r.namedOver (r.passesBelow t Expr.isComputed input)
      (if r.startsSelect t then fun _ => true else input.namedAt t)

/-- The names in the statement of a relation, for each of its outputs. -/
def shownNames (t : Target) (r : Relation) : List (Option String) :=
  r.schema.names.mapIdx fun i name => if r.namedAt t i then some name else none

theorem shownNames_eq_iff {t : Target} {r : Relation} :
    r.shownNames t = r.schema.names.map some ↔
      ∀ i < r.schema.names.length, r.namedAt t i = true := by
  refine ⟨fun h i hi => ?_, fun h => List.ext_getElem (by simp [shownNames]) fun i hi hi' => ?_⟩
  · have hname := congrArg (fun names => names[i]?) h
    simpa [shownNames, hi] using hname
  · have hlt : i < r.schema.names.length := by simpa using hi'
    simp [shownNames, h i hlt]

/-- A name that no two outputs have is shown if its output is named. -/
theorem mem_shownNames_iff {t : Target} {r : Relation} (hd : r.schema.names.Nodup) {i : Nat}
    {name : String} (hi : r.schema.names[i]? = some name) :
    some name ∈ r.shownNames t ↔ r.namedAt t i = true := by
  obtain ⟨hlt, hname⟩ := List.getElem?_eq_some_iff.mp hi
  rw [shownNames, List.mem_mapIdx]
  refine ⟨fun ⟨j, hj, h⟩ => ?_, fun h => ⟨i, hlt, by simp [h, hname]⟩⟩
  split at h
  · next hn =>
    have hij : j = i := (hd.getElem_inj_iff).mp ((Option.some.inj h).trans hname.symm)
    exact hij ▸ hn
  · simp at h

theorem namedAt_of_input {t : Target} {r input : Relation} (hin : r.inputs = [input]) :
    r.namedAt t = r.namedOver (r.passesBelow t Expr.isComputed input)
      (if r.startsSelect t then fun _ => true else input.namedAt t) := by
  cases r with
  | table | join => simp [inputs] at hin
  | _ =>
    obtain rfl := List.singleton_inj.mp hin
    rfl

end Relation

namespace Fragment

/-- The items at certain positions go by the names of their columns, and the others by none. -/
def NamesAt (named : Nat → Bool) (items : List Sql.SelectItem) (columns : List OutputColumn) :
    Prop :=
  ∀ i item c, items[i]? = some item → columns[i]? = some c →
    Sql.itemName? item = if named i then some c.name else none

variable {t : Target} {d : Dialect} {header : Header} {passes named below : Nat → Bool}
  {items items' : List Sql.SelectItem} {columns columns' : List OutputColumn}
  {exprs : List NamedExpr} {f f' g : Fragment}

theorem namesAt_of_forall₂
    (h : List.Forall₂ (fun item c => Sql.itemName? item = some c.name) items columns) :
    NamesAt (fun _ => true) items columns := by
  intro i item c hi hc
  obtain ⟨c', hc', hn⟩ := forall₂_getElem? h hi
  obtain rfl : c' = c := Option.some.inj (hc'.symm.trans hc)
  simpa using hn

theorem NamesAt.append (h : NamesAt named items columns) (h' : NamesAt below items' columns')
    (hlen : items.length = columns.length) :
    NamesAt (fun i => if i < columns.length then named i else below (i - columns.length))
      (items ++ items') (columns ++ columns') := by
  intro i item c hi hc
  by_cases hlt : i < columns.length
  · rw [List.getElem?_append_left (by omega)] at hi hc
    simpa [hlt] using h i item c hi hc
  · rw [List.getElem?_append_right (by omega)] at hi hc
    rw [hlen] at hi
    simpa [hlt] using h' _ item c hi hc

theorem NamesAt.congr (h : NamesAt named items columns)
    (hb : ∀ i < columns.length, named i = below i) : NamesAt below items columns := by
  intro i item c hi hc
  rw [h i item c hi hc, hb i (List.getElem?_eq_some_iff.mp hc).1]

/-- The names of all items, one for each column. -/
theorem NamesAt.map_itemName? (h : NamesAt named items columns)
    (hlen : items.length = columns.length) :
    items.map Sql.itemName? =
      (columns.map (·.name)).mapIdx fun i name => if named i then some name else none := by
  refine List.ext_getElem (by simpa using hlen) fun i hi hi' => ?_
  rw [List.length_map] at hi
  have hcol : i < columns.length := hlen ▸ hi
  simpa using h i items[i] columns[i] (List.getElem?_eq_getElem hi)
    (List.getElem?_eq_getElem hcol)

/-- Columns of a source are named. -/
theorem namesAt_ofSource (hp : f.select.projection = none)
    (hc : ∀ c ∈ f.columns, ∃ q, c.expr = .column q c.name) :
    NamesAt (fun _ => true) f.items f.columns := by
  refine namesAt_of_forall₂ ?_
  simp only [items, hp, List.forall₂_map_left_iff, List.forall₂_same]
  intro c hcol
  obtain ⟨q, he⟩ := hc c hcol
  change Sql.itemName? ⟨c.expr, none⟩ = _
  rw [he]
  rfl

theorem namesAt_wrapped (f : Fragment) (aliasName : String) :
    NamesAt (fun _ => true) (f.wrapped aliasName).items (f.wrapped aliasName).columns :=
  namesAt_ofSource rfl (List.forall_mem_map.mpr fun _ _ => ⟨none, rfl⟩)

/-- Outputs are named where they have an alias or become a column, and where all are to be. -/
theorem namesAt_outputs {nameComputed : Bool}
    (hf : PassesAt Sql.Expr.isComputed passes f.columns)
    (ho : outputs (Target.builtin d) (f.scope header) nameComputed exprs = .ok (items, columns)) :
    NamesAt (fun i => (exprs[i]?).any fun n => nameComputed || n.isNamed header passes) items
      columns := by
  obtain ⟨pairs, hpairs, rfl, rfl⟩ := outputs_pairs ho
  intro i item c hi hc
  rw [List.getElem?_map, Option.map_eq_some_iff] at hi hc
  obtain ⟨x, hx, rfl⟩ := hi
  obtain ⟨y, hy, rfl⟩ := hc
  obtain rfl : x = y := Option.some.inj (hx.symm.trans hy)
  obtain ⟨n, hn, hnx⟩ := forall₂_getElem? hpairs.flip hx
  obtain ⟨s, hs, rfl⟩ := output_eq_ok hnx
  rw [Sql.itemName?_itemAlias, Expr.isComputed_lower hf hs, Bool.or_assoc]
  simp only [hn, Option.any_some, NamedExpr.isNamed]

theorem namesAt_join {op : Sql.JoinOp} {left right : Header} {fields : Schema} {cs : List Expr}
    {a b : String}
    (hg : join t op left right fields cs (f.joinSide a) (f'.joinSide b) = .ok g) :
    NamesAt (fun _ => true) g.items g.columns := by
  obtain ⟨on, -, rfl⟩ := join_eq_ok hg
  have hsides : ∀ c ∈ (f.joinSide a).2 ++ (f'.joinSide b).2, c.expr.isComputed = false :=
    List.forall_mem_append.mpr ⟨List.forall_mem_map.mpr fun _ _ => rfl,
      List.forall_mem_map.mpr fun _ _ => rfl⟩
  refine namesAt_of_forall₂ ?_
  simp only [items, List.unzip_eq_map, List.forall₂_map_left_iff, List.forall₂_map_right_iff,
    List.forall₂_same]
  intro x hx
  obtain ⟨field, c, hc, rfl⟩ := mem_joinColumns hx
  simp [joinColumn, Sql.itemName?_itemAlias, hsides c hc]

end Fragment

namespace Relation

open Fragment

variable {t : Target} {d : Dialect} {r input : Relation} {f f' g : Fragment}
  {computed below : Nat → Bool}

/-- What an operator names. -/
theorem namesAt_operate (hin : r.inputs = [input]) (hg : Grounded input f)
    (hc : PassesAt Sql.Expr.isComputed computed f.columns)
    (hn : NamesAt below f.items f.columns) (h : r.operate (Target.builtin d) f = .ok g) :
    NamesAt (r.namedOver computed below) g.items g.columns := by
  cases r with
  | table | join => simp [inputs] at hin
  | project id i exprs =>
    obtain rfl := List.singleton_inj.mp hin
    obtain ⟨items, columns, ho, rfl⟩ := project_eq_ok h
    have hnames : NamesAt (fun j => (exprs[j]?).any (NamedExpr.isNamed i.header computed)) items
        columns := namesAt_outputs hc ho
    exact hnames
  | aggregate id i keys metrics having =>
    obtain rfl := List.singleton_inj.mp hin
    obtain ⟨keyItems, keyColumns, _, _, _, hk, hm, -, rfl⟩ := aggregate_eq_ok h
    obtain ⟨hkc, hki⟩ := outputs_eq_ok hk
    -- all keys are named, also where they are computed
    have hkeys : NamesAt (fun _ => true) keyItems keyColumns := by
      refine (namesAt_outputs hc hk).congr fun j hj => ?_
      rw [← hkc.length_eq] at hj
      simp [hj]
    have happ := hkeys.append (namesAt_outputs hc hm) hki.length_eq
    rw [← hkc.length_eq] at happ
    exact happ
  | window id i exprs =>
    obtain rfl := List.singleton_inj.mp hin
    obtain ⟨items, columns, ho, rfl⟩ := window_eq_ok h
    have happ := hn.append (namesAt_outputs hc ho) hg.items.length_eq
    rw [hg.length] at happ
    exact happ
  | filter | sort | limit | distinct =>
    obtain ⟨hcols, hproj⟩ := columns_operate rfl h
    have hitems : g.items = f.items := by simp only [Fragment.items, hcols, hproj]
    rw [hitems, hcols]
    exact hn

/-- The columns that an operator works on. -/
theorem namesAt_entered (hn : NamesAt below f.items f.columns) {b : Bool} (he : f.Enters b f') :
    NamesAt (if b then fun _ => true else below) f'.items f'.columns := by
  rcases he with ⟨rfl, rfl⟩ | ⟨rfl, a, rfl⟩
  · exact hn
  · exact namesAt_wrapped f a

/-- The items of a fragment that go by a name. -/
theorem Becomes.namesAt (h : Becomes (Target.builtin d) r f) (hw : r.WellFormed) :
    NamesAt (r.namedAt (Target.builtin d)) f.items f.columns := by
  induction h with
  | table => exact namesAt_ofSource rfl (List.forall_mem_map.mpr fun _ _ => ⟨none, rfl⟩)
  | join _ _ _ _ hg => exact namesAt_join hg
  | @step r input f f' g hin hf he hg ih =>
    have hwi := hw.input (i := input) (by simp [hin])
    have hcomp := hf.passesBelow (traces_isComputed d) hwi hin he
    rw [namedAt_of_input hin]
    exact namesAt_operate hin (hf.grounded_entered hwi he) hcomp
      (namesAt_entered (ih hwi) (hf.enters hwi hin he)) hg

/-- A statement without a projection has the names of its source. -/
theorem Grounded.outputNames (h : Grounded r f) : ∃ visible, Scoped r f.select visible ∧
    f.select.outputNames visible = f.items.map Sql.itemName? := by
  obtain ⟨visible, hs, he, -, hp⟩ := h.sees
  refine ⟨visible, .mk hs he, ?_⟩
  unfold Sql.SelectOver.outputNames Fragment.items
  cases hi : f.select.projection with
  | some items => rfl
  | none =>
    rw [hi] at hp
    obtain ⟨rfl, hexprs⟩ := hp
    have hnames := congrArg (List.map fun e => Sql.itemName? (.unnamed e)) hexprs
    simpa [seenAs, Function.comp_def, Named.unnamed, Sql.itemName?] using hnames.symm

/-- The names in the statement of a relation. -/
theorem toSelect_shownNames {r : Relation} (h : r.Valid) {s : Sql.Select}
    (hs : r.toSelect (Target.builtin d) = .ok s) : ∃ visible, Scoped r s visible ∧
      s.outputNames visible = r.shownNames (Target.builtin d) := by
  obtain ⟨f, hf, rfl⟩ := toSelect_becomes h.coherent hs
  have hg := hf.grounded h.wellFormed
  obtain ⟨visible, hscoped, hnames⟩ := hg.outputNames
  refine ⟨visible, hscoped, ?_⟩
  rw [hnames, (hf.namesAt h.wellFormed).map_itemName? hg.items.length_eq, hg.names, shownNames]

end Relation

end PlanSql
