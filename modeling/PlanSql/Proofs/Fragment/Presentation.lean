import PlanSql.Proofs.Fragment.Sharing
import PlanSql.Proofs.Fragment.Unsharing

/-!
# What fragments show of their nodes

Operators find columns by position and set items and columns side by side, so each of them takes for
granted that the columns of a fragment are the fields of its node, in order and with the same types,
that a projection has one item for each, and that a statement without one passes on the columns of a
single source. All of this holds of every fragment that is asked for while a statement is made, also
of one that has been made before for another user of its node.
-/
namespace PlanSql

/-- The column has the name and the type of a field. -/
def OutputColumn.Fits (c : OutputColumn) (field : Field) : Prop :=
  c.name = field.name ∧ c.dataType = field.dataType

/-- A table or a derived table. -/
def Sql.FromItem.isSingle : Sql.FromItem → Bool
  | .table _ _ | .derived _ _ => true
  | .join _ _ _ _ => false

namespace Fragment

/-- What operators take for granted of the fragment of a node. -/
structure Presents (r : Relation) (f : Fragment) : Prop where
  fits : List.Forall₂ OutputColumn.Fits f.columns r.schema
  items : ∀ items, f.select.projection = some items → List.Forall₂ Shows items f.columns
  single : f.select.projection = none → f.select.source.isSingle = true
  bare : f.select.projection = none → ∀ c ∈ f.columns, c.expr = .column none c.name
  separate : ¬(f.aggregated = true ∧ f.windowed = true)
  windowed : ∀ c ∈ f.columns, c.expr.windows = true → f.windowed = true

variable {t : Target} {scope : Scope} {f : Fragment}

theorem fits_of_columnOf {exprs : List NamedExpr} {columns : List OutputColumn}
    (h : List.Forall₂ (ColumnOf t scope) exprs columns) :
    List.Forall₂ OutputColumn.Fits columns (exprs.map NamedExpr.field) := by
  rw [List.forall₂_map_right_iff]
  exact h.flip.imp fun _ _ hc => ⟨hc.2.1, hc.2.2⟩

theorem fits_ofFields {fields : Schema} (column : Field → OutputColumn)
    (h : ∀ field, (column field).Fits field) :
    List.Forall₂ OutputColumn.Fits (fields.map column) fields := by
  rw [List.forall₂_map_left_iff, List.forall₂_same]
  exact fun field _ => h field

theorem fits_under {columns : List OutputColumn} {fields : Schema} (qualifier : Option String)
    (h : List.Forall₂ OutputColumn.Fits columns fields) :
    List.Forall₂ OutputColumn.Fits (columns.map (OutputColumn.under qualifier)) fields := by
  rw [List.forall₂_map_left_iff]
  exact h.imp fun _ _ hc => hc

/-- The columns of a join are its fields, whatever they are called on their sides. -/
theorem fits_joinColumns {fields : Schema} {columns : List OutputColumn}
    (h : fields.length = columns.length) :
    List.Forall₂ OutputColumn.Fits (List.zipWith joinColumn fields columns).unzip.2 fields := by
  induction fields generalizing columns with
  | nil => exact .nil
  | cons field fields ih =>
    cases columns with
    | nil => simp at h
    | cons c columns => exact .cons ⟨rfl, rfl⟩ (ih (by simpa using h))

end Fragment

namespace Relation

variable {t : Target} {root r : Relation} {f : Fragment} {p p' : Progress}
  {P : Relation → Fragment → Prop} {E : CompileError → Prop}

/-- The columns are the fields of the node, and columns are passed on only from a single source. -/
structure Fitted (r : Relation) (f : Fragment) : Prop where
  fits : List.Forall₂ OutputColumn.Fits f.columns r.schema
  single : f.select.projection = none → f.select.source.isSingle = true

theorem keeps_fitted : Keeps t root Fitted fun _ => True where
  wrapped _ _ h := ⟨Fragment.fits_under none h.fits, fun _ => rfl⟩
  table _ := ⟨Fragment.fits_ofFields _ fun _ => ⟨rfl, rfl⟩, fun _ => rfl⟩
  project _ _ _ _ := settles_of_ok fun _ hg => by
    obtain ⟨items, columns, ho, rfl⟩ := Fragment.project_eq_ok hg
    exact ⟨Fragment.fits_of_columnOf (Fragment.outputs_eq_ok ho).1, by simp⟩
  filter _ h _ _ := settles_of_ok fun _ hg => by
    obtain ⟨ss, -, ⟨-, rfl⟩ | ⟨-, -, rfl⟩ | ⟨-, -, rfl⟩⟩ := Fragment.filter_eq_ok hg <;>
      exact ⟨h.fits, h.single⟩
  aggregate _ _ _ _ _ := settles_of_ok fun _ hg => by
    obtain ⟨keyItems, keyColumns, metricItems, metricColumns, ss, hk, hm, -, rfl⟩ :=
      Fragment.aggregate_eq_ok hg
    refine ⟨?_, by simp⟩
    have hall := List.rel_append (Fragment.outputs_eq_ok hk).1 (Fragment.outputs_eq_ok hm).1
    exact Fragment.fits_of_columnOf hall
  sort _ h _ := settles_of_ok fun _ hg => by
    obtain ⟨ss, -, rfl⟩ := Fragment.sort_eq_ok hg
    exact ⟨h.fits, h.single⟩
  limit _ h _ := ⟨h.fits, h.single⟩
  joinOp _ := settles_of_ok fun _ _ => trivial
  join {id left right kind cs op l r a b} _ _ hl hr _ := settles_of_ok fun _ hg => by
    obtain ⟨on, -, rfl⟩ := Fragment.join_eq_ok hg
    refine ⟨Fragment.fits_joinColumns ?_, by simp⟩
    have hleft := hl.fits.length_eq
    have hright := hr.fits.length_eq
    simp only [schema] at hleft hright
    simp [Fragment.joinSide, hleft, hright]
  window _ h _ _ _ := settles_of_ok fun _ hg => by
    obtain ⟨items, columns, ho, rfl⟩ := Fragment.window_eq_ok hg
    exact ⟨List.rel_append h.fits (Fragment.fits_of_columnOf (Fragment.outputs_eq_ok ho).1), by simp⟩
  distinct _ h _ := ⟨h.fits, h.single⟩

/-- While the fragment of `root` is made, that of a node is asked for, so much having been made
before. A node that has its fragment asks for none; a join asks for its right side once it has the
left one. -/
inductive Asks (t : Target) (root : Relation) : Relation → Progress → Prop
  | root : Asks t root root .start
  | input {r input : Relation} {p : Progress} (h : Asks t root r p)
      (hmade : p.made.lookup r.id = none) (hin : r.inputs = [input]) : Asks t root input p
  | left {id : NodeId} {left right : Relation} {kind : JoinKind} {conditions : List Expr}
      {p : Progress} (h : Asks t root (.join id left right kind conditions) p)
      (hmade : p.made.lookup id = none) : Asks t root left p
  | right {id : NodeId} {left right : Relation} {kind : JoinKind} {conditions : List Expr}
      {p p' : Progress} {f : Fragment} (h : Asks t root (.join id left right kind conditions) p)
      (hmade : p.made.lookup id = none) (hl : (left.fragment t).run p = .ok (f, p')) :
      Asks t root right p'

theorem Asks.mem_nodes (h : Asks t root r p) : r ∈ root.nodes := by
  induction h with
  | root => exact mem_nodes_self root
  | input _ _ hin ih => exact input_mem_nodes ih (by simp [hin])
  | left _ _ ih | right _ _ _ ih => exact input_mem_nodes ih (by simp [inputs])

/-- What the operators keep holds of all that has been made when a node is asked for. -/
theorem Asks.sound (h : Asks t root r p) (hk : Keeps t root P E) (hc : root.Coherent) :
    Sound root P p := by
  induction h with
  | root => exact sound_start
  | input _ _ _ ih | left _ _ ih => exact ih
  | @right _ left _ _ _ _ _ _ h _ hl ih =>
    have hleft : left ∈ root.nodes := input_mem_nodes h.mem_nodes (by simp [inputs])
    exact ((hk.steps.fragment hc hleft _ ih).of_ok hl).2

theorem Asks.kept (h : Asks t root r p) (hk : Keeps t root P E) (hc : root.Coherent)
    (hf : (r.fragment t).run p = .ok (f, p')) : P r f :=
  ((hk.steps.fragment hc h.mem_nodes p (h.sound hk hc)).of_ok hf).1

theorem Grounded.bare (h : Grounded r f) (hp : f.select.projection = none) :
    ∀ c ∈ f.columns, c.expr = .column none c.name := by
  obtain ⟨visible, -, -, -, hshown⟩ := h.sees
  rw [hp] at hshown
  have hexprs := hshown.2
  rw [← h.names, List.map_map, List.map_inj_left] at hexprs
  exact hexprs

/-- Every fragment that is asked for presents its node. -/
theorem Asks.presents (hv : root.Valid) (h : Asks t root r p)
    (hf : (r.fragment t).run p = .ok (f, p')) : f.Presents r := by
  have hfitted := h.kept keeps_fitted hv.coherent hf
  have hgrounded := h.kept (keeps_grounded hv.wellFormed) hv.coherent hf
  have hflagged := h.kept (keeps_flagged hv.wellFormed) hv.coherent hf
  exact {
    fits := hfitted.fits
    items := fun items hp => by
      obtain ⟨visible, -, -, -, hshown⟩ := hgrounded.sees
      rwa [hp] at hshown
    single := hfitted.single
    bare := hgrounded.bare
    separate := fun ⟨ha, hw⟩ => absurd (hw.symm.trans (hflagged.grouped ha)) (by simp)
    windowed := fun c hc hw => by
      by_contra hn
      exact absurd (hw.symm.trans (hflagged.unwindowed (by simpa using hn) c hc)) (by simp) }

/-- The right side of a join with itself has been made as the left side. -/
theorem presents_firstPairs : firstPairs.Valid ∧ ∃ p f,
    Asks (.builtin .mysql) firstPairs firstRows p ∧ p.made.lookup firstRows.id = some f ∧
    (firstRows.fragment (.builtin .mysql)).run p = .ok (f, p) ∧ f.Presents firstRows := by
  have hl : (firstRows.fragment (.builtin .mysql)).run .start = .ok _ := rfl
  exact ⟨valid_firstPairs, _, _, .right .root rfl hl, rfl, rfl,
    Asks.presents valid_firstPairs (.right .root rfl hl) rfl⟩

end Relation

end PlanSql
