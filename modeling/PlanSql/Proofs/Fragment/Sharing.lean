import PlanSql.Proofs.Fragment.Everywhere
import PlanSql.Proofs.Fragment.OperatorClauses
import PlanSql.Proofs.Fragment.WindowClauses

/-!
# Operators that share a SELECT

Which operators of a plan become part of one SELECT can be read off the plan: what decides about it
are four flags of the SELECT of the input, and each operator says what it makes of them. Every
statement within the statement of a plan is that of a node whose user starts a SELECT of its own.
-/
namespace PlanSql

namespace Fragment

/-- What the flags of a fragment say about window calls in its columns. -/
structure Flagged (f : Fragment) : Prop where
  grouped : f.aggregated = true → f.windowed = false
  unwindowed : f.windowed = false → ∀ c ∈ f.columns, c.expr.windows = false

variable {t : Target} {header : Header} {f g : Fragment}

theorem flagged_ofSource {source : Sql.FromItem} {columns : List OutputColumn}
    (hc : ∀ c ∈ columns, c.expr.windows = false) : (ofSource source columns).Flagged where
  grouped h := by simp [ofSource] at h
  unwindowed _ := hc

theorem flagged_ofTable (name : String) (aliasName : Option String) (fields : Schema) :
    (ofTable name aliasName fields).Flagged :=
  flagged_ofSource (List.forall_mem_map.mpr fun field _ => windows_column none field.name)

section Outputs

variable {exprs : List NamedExpr} {items : List Sql.SelectItem} {columns : List OutputColumn}
  (hm : ∀ n ∈ exprs, n.expr.Made ∧ n.expr.containsAggregate = false)
  (hf : ∀ c ∈ f.columns, c.expr.windows = false)
include hm hf

/-- Window calls are found in the items of a projection over columns without any. -/
theorem containsWindow_items (ho : outputs t (f.scope header) false exprs = .ok (items, columns)) :
    ∀ item ∈ items, item.expr.containsWindow = item.expr.windows := by
  intro item hi
  obtain ⟨n, hn, hl⟩ := forall₂_mem_right (outputs_items ho) hi
  exact Expr.containsWindow_lower (hm n hn).1 (hm n hn).2 hl (Scope.forall_columns header hf)

/-- They are there if and only if an output keeps a window function. -/
theorem any_containsWindow {d : Dialect}
    (ho : outputs (Target.builtin d) (f.scope header) false exprs = .ok (items, columns)) :
    (items.any fun item => item.expr.containsWindow) =
      exprs.any fun n => n.expr.keepsWindow := by
  have hscope := Scope.forall_columns header (P := fun c => c.windows = false) hf
  have hkeeps : ∀ n ∈ exprs, ∀ s, n.expr.lower (Target.builtin d) (f.scope header) = .ok s →
      (s.windows = true ↔ n.expr.keepsWindow = true) := by
    intro n hn s hl
    rw [Expr.windows_lower_iff (hm n hn).1
      (fun q hq => (hm n hn).1.isAggregate_of_part (hm n hn).2 hq) hl]
    refine or_iff_left ?_
    rintro ⟨ref, -, c, hc, hw⟩
    exact absurd (hw.symm.trans (hscope ref c hc)) (by simp)
  have hitems := outputs_items ho
  have hfound := containsWindow_items hm hf ho
  rw [Bool.eq_iff_iff, List.any_eq_true, List.any_eq_true]
  constructor
  · rintro ⟨item, hi, hw⟩
    obtain ⟨n, hn, hl⟩ := forall₂_mem_right hitems hi
    exact ⟨n, hn, (hkeeps n hn _ hl).mp ((hfound item hi).symm.trans hw)⟩
  · rintro ⟨n, hn, hk⟩
    obtain ⟨item, hi, hl⟩ := forall₂_mem_left hitems hn
    exact ⟨item, hi, (hfound item hi).trans ((hkeeps n hn _ hl).mpr hk)⟩

end Outputs

namespace Flagged

theorem wrapped (f : Fragment) (aliasName : String) : (f.wrapped aliasName).Flagged :=
  flagged_ofSource (windows_under none)

variable (h : f.Flagged)
include h

theorem project {exprs : List NamedExpr}
    (hm : ∀ n ∈ exprs, n.expr.Made ∧ n.expr.containsAggregate = false)
    (ha : f.aggregated = false) (hg : f.project t header exprs = .ok g) : g.Flagged := by
  obtain ⟨items, columns, ho, rfl⟩ := project_eq_ok hg
  refine ⟨fun hp => absurd (ha.symm.trans hp) (by simp), fun hw c hc => ?_⟩
  obtain ⟨hf, hi⟩ := Bool.or_eq_false_iff.mp hw
  obtain ⟨-, hitems⟩ := outputs_eq_ok ho
  obtain ⟨item, him, he, -⟩ := forall₂_mem_right hitems hc
  rw [← he, ← containsWindow_items hm (h.unwindowed hf) ho item him]
  simpa using List.any_eq_false.mp hi item him

theorem filter {cs : List Expr} (hg : f.filter t header cs = .ok g) : g.Flagged := by
  obtain ⟨ss, -, ⟨-, rfl⟩ | ⟨-, -, rfl⟩ | ⟨-, -, rfl⟩⟩ := filter_eq_ok hg <;>
    exact ⟨h.grouped, h.unwindowed⟩

theorem aggregate {keys metrics : List NamedExpr} {having : List Expr}
    (hk : ∀ n ∈ keys, n.expr.containsWindow = false)
    (hm : ∀ n ∈ metrics, n.expr.containsWindow = false) (hf : f.windowed = false)
    (hg : f.aggregate t header keys metrics having = .ok g) : g.Flagged := by
  obtain ⟨keyItems, keyColumns, metricItems, metricColumns, ss, hko, hmo, -, rfl⟩ :=
    aggregate_eq_ok hg
  have hcols := h.unwindowed hf
  exact ⟨fun _ => rfl, fun _ => List.forall_mem_append.mpr
    ⟨windows_columns (outputs_eq_ok hko).1 hk hcols, windows_columns (outputs_eq_ok hmo).1 hm hcols⟩⟩

end Flagged

theorem flagged_window {exprs : List NamedExpr} (ha : f.aggregated = false)
    (hg : f.window t header exprs = .ok g) : g.Flagged := by
  obtain ⟨items, columns, -, rfl⟩ := window_eq_ok hg
  exact ⟨fun hp => absurd (ha.symm.trans hp) (by simp), by simp⟩

/-- The columns of a join are references. -/
theorem exists_column_of_join {op : Sql.JoinOp} {left right : Header} {fields : Schema}
    {cs : List Expr} {l r : Fragment} {a b : String}
    (hg : Fragment.join t op left right fields cs (l.joinSide a) (r.joinSide b) = .ok g) :
    ∀ c ∈ g.columns, ∃ q n, c.expr = .column q n := by
  obtain ⟨on, -, rfl⟩ := join_eq_ok hg
  have hsides : ∀ c ∈ (l.joinSide a).2 ++ (r.joinSide b).2, ∃ q n, c.expr = .column q n :=
    List.forall_mem_append.mpr ⟨List.forall_mem_map.mpr fun c _ => ⟨some a, c.name, rfl⟩,
      List.forall_mem_map.mpr fun c _ => ⟨some b, c.name, rfl⟩⟩
  have hall := forall_joinColumns (P := fun e => ∃ q n, e = .column q n) fields hsides
  rw [List.unzip_eq_map]
  exact List.forall_mem_map.mpr fun x hx => (hall x hx).2

theorem flagged_join {op : Sql.JoinOp} {left right : Header} {fields : Schema} {cs : List Expr}
    {l r : Fragment} {a b : String}
    (hg : Fragment.join t op left right fields cs (l.joinSide a) (r.joinSide b) = .ok g) :
    g.Flagged := by
  have hcols := exists_column_of_join hg
  obtain ⟨on, -, rfl⟩ := join_eq_ok hg
  refine ⟨fun _ => rfl, fun _ c hc => ?_⟩
  obtain ⟨q, n, he⟩ := hcols c hc
  rw [he, windows_column]

end Fragment

namespace Relation

variable {t : Target} {d : Dialect} {root r input n : Relation} {f f' g : Fragment}

theorem keeps_flagged (hw : root.WellFormed) :
    Keeps t root (fun _ f => f.Flagged) fun _ => True where
  wrapped {_ f} a _ _ := Fragment.Flagged.wrapped f a
  table {_ name aliasName fields} _ := Fragment.flagged_ofTable name aliasName fields
  project hr h ha _ := settles_of_ok fun _ hg => h.project
    (fun n hn => ⟨((hw _ hr).2.1 n hn).1, (hw _ hr).2.2.1 n hn⟩) ha hg
  filter _ h _ _ := settles_of_ok fun _ hg => h.filter hg
  aggregate hr h _ hu _ := settles_of_ok fun _ hg => by
    obtain ⟨-, -, -, hk, -, hm, -⟩ := hw _ hr
    exact h.aggregate (fun n hn => (Expr.isRowLevel_eq_true.mp (hk n hn)).2)
      (fun n hn => (hm n hn).2.1) hu hg
  sort _ h _ := settles_of_ok fun _ hg => by
    obtain ⟨ss, -, rfl⟩ := Fragment.sort_eq_ok hg
    exact ⟨h.grouped, h.unwindowed⟩
  limit _ h _ := ⟨h.grouped, h.unwindowed⟩
  joinOp _ := settles_of_ok fun _ _ => trivial
  join _ _ _ _ _ := settles_of_ok fun _ hg => Fragment.flagged_join hg
  window _ _ ha _ _ := settles_of_ok fun _ hg => Fragment.flagged_window ha hg
  distinct _ h _ := ⟨h.grouped, h.unwindowed⟩

theorem Becomes.flagged (h : Becomes t r f) (hw : r.WellFormed) : f.Flagged :=
  (keeps_flagged hw).steps.becomes h (mem_nodes_self r)

theorem Becomes.grounded (h : Becomes t r f) (hw : r.WellFormed) : Grounded r f :=
  (keeps_grounded hw).steps.becomes h (mem_nodes_self r)

/-- A fragment that an operator works on is flagged, and shows the columns of the input. -/
theorem Becomes.flagged_entered {b : Bool} (h : Becomes t input f) (hw : input.WellFormed)
    (he : f.Enters b f') : f'.Flagged := by
  rcases he with ⟨-, rfl⟩ | ⟨-, a, rfl⟩
  · exact h.flagged hw
  · exact .wrapped f a

theorem Becomes.grounded_entered {b : Bool} (h : Becomes t input f) (hw : input.WellFormed)
    (he : f.Enters b f') : Grounded input f' := by
  rcases he with ⟨-, rfl⟩ | ⟨-, a, rfl⟩
  · exact h.grounded hw
  · exact (h.grounded hw).wrapped hw.nodup_names a

/-- What the operator at the root makes of the flags of the SELECT that it becomes part of. -/
def follow (f : Flags) : Relation → Flags
  | .table _ _ _ _ | .join _ _ _ _ _ => .clear
  | .project _ _ exprs =>
    { f with windowed := f.windowed || exprs.any fun n => n.expr.keepsWindow }
  | .filter _ _ _ | .sort _ _ _ => f
  | .aggregate _ _ _ _ _ => { f with aggregated := true, windowed := false }
  | .limit _ _ count offset => { f with limited := count.isSome || 0 < offset }
  | .window _ _ _ => { f with windowed := true }
  | .distinct _ _ => { f with distinct := true }

/-- The flags of the SELECT of a relation. -/
def flags (t : Target) : Relation → Flags
  | .table _ _ _ _ | .join _ _ _ _ _ => .clear
  | r@(.project _ input _) | r@(.filter _ input _) | r@(.aggregate _ input _ _ _)
  | r@(.sort _ input _) | r@(.limit _ input _ _) | r@(.window _ input _)
  | r@(.distinct _ input) =>
    r.follow (if r.separates t (input.flags t) then .clear else input.flags t)

/-- The operator at the root is the first one in its SELECT. -/
def startsSelect (t : Target) (r : Relation) : Bool :=
  r.inputs.all fun i => r.separates t (i.flags t)

/-- The nodes whose operators are part of the SELECT of a relation. -/
def shared (t : Target) : Relation → List Relation
  | r@(.table _ _ _ _) | r@(.join _ _ _ _ _) => [r]
  | r@(.project _ input _) | r@(.filter _ input _) | r@(.aggregate _ input _ _ _)
  | r@(.sort _ input _) | r@(.limit _ input _ _) | r@(.window _ input _)
  | r@(.distinct _ input) => r :: if r.startsSelect t then [] else input.shared t

/-- The relations that a statement is made for: the root, and the inputs of nodes that start a
SELECT. -/
def tops (t : Target) (r : Relation) : List Relation :=
  r :: (r.nodes.filter fun n => n.startsSelect t).flatMap inputs

theorem startsSelect_of_input (hin : r.inputs = [input]) :
    r.startsSelect t = r.separates t (input.flags t) := by
  simp [startsSelect, hin]

theorem flags_of_input (hin : r.inputs = [input]) :
    r.flags t = r.follow (if r.startsSelect t then .clear else input.flags t) := by
  rw [startsSelect_of_input hin]
  cases r with
  | table | join => simp [inputs] at hin
  | _ =>
    obtain rfl := List.singleton_inj.mp hin
    rfl

theorem mem_shared_self (r : Relation) : r ∈ r.shared t := by
  cases r <;> simp [shared]

theorem shared_of_input (hin : r.inputs = [input]) :
    r.shared t = r :: if r.startsSelect t then [] else input.shared t := by
  cases r with
  | table | join => simp [inputs] at hin
  | _ =>
    obtain rfl := List.singleton_inj.mp hin
    rfl

theorem mem_shared_of_input (hin : r.inputs = [input]) :
    n ∈ r.shared t ↔ n = r ∨ r.startsSelect t = false ∧ n ∈ input.shared t := by
  rw [shared_of_input hin, List.mem_cons]
  split <;> simp_all

theorem mem_nodes_of_mem_shared (h : n ∈ r.shared t) : n ∈ r.nodes := by
  induction r using induct with
  | step r ih =>
    have unary : ∀ input, r.inputs = [input] → n ∈ r.nodes := by
      intro input hin
      rcases (mem_shared_of_input hin).mp h with rfl | ⟨-, hn⟩
      · exact mem_nodes_self n
      · exact mem_nodes_of_input (by simp [hin]) (ih input (by simp [hin]) hn)
    cases r with
    | table | join =>
      rw [List.mem_singleton.mp h]
      exact mem_nodes_self _
    | project | filter | aggregate | sort | limit | window | distinct => exact unary _ rfl

theorem mem_tops {m : Relation} (hm : m ∈ r.nodes) (hs : m.startsSelect t = true)
    (hn : n ∈ m.inputs) : n ∈ r.tops t :=
  List.mem_cons_of_mem _ (List.mem_flatMap.mpr ⟨m, List.mem_filter.mpr ⟨hm, hs⟩, hn⟩)

theorem mem_nodes_of_mem_tops (hn : n ∈ r.tops t) : n ∈ r.nodes := by
  rcases List.mem_cons.mp hn with rfl | hn
  · exact mem_nodes_self n
  · obtain ⟨m, hm, hi⟩ := List.mem_flatMap.mp hn
    exact input_mem_nodes (List.mem_filter.mp hm).1 hi

/-- What the operators make of the flags is as the plan says. A projection evaluates window functions
if one of its outputs keeps one. -/
theorem flags_operate (hc : r.Checked) (hin : r.inputs = [input]) (hf : f.Flagged)
    (hg : r.operate (Target.builtin d) f = .ok g) : g.flags = r.follow f.flags := by
  cases r with
  | table | join => simp [inputs] at hin
  | filter id i cs =>
    obtain ⟨ss, -, ⟨-, rfl⟩ | ⟨-, -, rfl⟩ | ⟨-, -, rfl⟩⟩ := Fragment.filter_eq_ok hg <;> rfl
  | aggregate id i keys metrics having =>
    obtain ⟨_, _, _, _, _, -, -, -, rfl⟩ := Fragment.aggregate_eq_ok hg
    rfl
  | sort id i keys =>
    obtain ⟨_, -, rfl⟩ := Fragment.sort_eq_ok hg
    rfl
  | window id i exprs =>
    obtain ⟨_, _, -, rfl⟩ := Fragment.window_eq_ok hg
    rfl
  | limit id i count offset =>
    obtain rfl := Except.ok.inj hg
    rfl
  | distinct id i =>
    obtain rfl := Except.ok.inj hg
    rfl
  | project id i exprs =>
    obtain ⟨items, columns, ho, rfl⟩ := Fragment.project_eq_ok hg
    obtain ⟨-, hmade, hagg, -⟩ := hc
    have hm : ∀ n ∈ exprs, n.expr.Made ∧ n.expr.containsAggregate = false :=
      fun n hn => ⟨(hmade n hn).1, hagg n hn⟩
    have hwin : (f.windowed || items.any fun item => item.expr.containsWindow) =
        (f.windowed || exprs.any fun n => n.expr.keepsWindow) := by
      cases hw : f.windowed with
      | true => rfl
      | false => exact Fragment.any_containsWindow hm (hf.unwindowed hw) ho
    simp only [Fragment.flags, follow, hwin]
    rfl

/-- The flags of the fragment that an operator works on. -/
theorem flags_entered (hf : f.flags = input.flags t) (hin : r.inputs = [input])
    (he : f.Enters (r.separates t f.flags) f') :
    f'.flags = if r.startsSelect t then .clear else input.flags t := by
  rw [startsSelect_of_input hin, ← hf]
  rcases he with ⟨hb, rfl⟩ | ⟨hb, a, rfl⟩ <;> rw [hb] <;> rfl

/-- The flags of a fragment are those that the plan says. -/
theorem Becomes.flags_eq (h : Becomes (Target.builtin d) r f) (hw : r.WellFormed) :
    f.flags = r.flags (Target.builtin d) := by
  induction h with
  | table => rfl
  | join _ _ _ _ hg =>
    obtain ⟨on, -, rfl⟩ := Fragment.join_eq_ok hg
    rfl
  | @step r input f f' g hin hf he hg ih =>
    have hwi := hw.input (i := input) (by simp [hin])
    rw [flags_operate hw.checked hin (hf.flagged_entered hwi he) hg, flags_of_input hin,
      flags_entered (ih hwi) hin he]

/-- An operator works on the fragment of its input unless it is the first in its SELECT. -/
theorem Becomes.enters (h : Becomes (Target.builtin d) input f) (hw : input.WellFormed)
    (hin : r.inputs = [input]) (he : f.Enters (r.separates (Target.builtin d) f.flags) f') :
    f.Enters (r.startsSelect (Target.builtin d)) f' := by
  rwa [startsSelect_of_input hin, ← h.flags_eq hw]

theorem selects_joinSide {q : Sql.Select} {aliasName : String}
    (hq : q ∈ (f.joinSide aliasName).1.selects) : q ∈ f.named.statements := by
  unfold Fragment.joinSide at hq
  cases hb : f.select.bareTable? with
  | some table => simp [hb, Sql.FromItem.selects] at hq
  | none => simpa [hb, Sql.FromItem.selects, Sql.Select.statements] using hq

/-- What a node becomes is a statement: that of the root, or one within it, since the user of the node
puts a new SELECT around it. -/
def IsStatement (t : Target) (root n : Relation) (f : Fragment) : Prop :=
  n = root ∨ ∃ m ∈ root.nodes, n ∈ m.inputs ∧ m.separates t f.flags = true

/-- The statements within a fragment are what inputs become that are put into SELECTs. -/
theorem Becomes.selects (h : Becomes t r f) : ∀ q ∈ f.select.source.selects,
    ∃ m ∈ r.nodes, ∃ n ∈ m.inputs, ∃ g, Becomes t n g ∧ m.separates t g.flags = true ∧
      q = g.named := by
  -- the SELECT of an input, and the statements within it
  have below : ∀ {r input : Relation} {f : Fragment}, input ∈ r.inputs →
      r.separates t f.flags = true → Becomes t input f →
      (∀ q ∈ f.select.source.selects, ∃ m ∈ input.nodes, ∃ n ∈ m.inputs, ∃ g,
        Becomes t n g ∧ m.separates t g.flags = true ∧ q = g.named) →
      ∀ q ∈ f.named.statements, ∃ m ∈ r.nodes, ∃ n ∈ m.inputs, ∃ g,
        Becomes t n g ∧ m.separates t g.flags = true ∧ q = g.named := by
    intro r input f hi hs hf ih q hq
    rcases List.mem_cons.mp hq with rfl | hq
    · exact ⟨r, mem_nodes_self r, input, hi, f, hf, hs, rfl⟩
    · obtain ⟨m, hm, rest⟩ := ih q hq
      exact ⟨m, mem_nodes_of_input hi hm, rest⟩
  induction h with
  | table => simp [Fragment.ofTable, Fragment.ofSource, Sql.SelectOver.ofSource,
      Sql.FromItem.selects]
  | join _ hl hr _ hg ihl ihr =>
    obtain ⟨on, -, rfl⟩ := Fragment.join_eq_ok hg
    intro q hq
    rcases List.mem_append.mp hq with hq | hq
    · exact below (by simp [inputs]) rfl hl ihl q (selects_joinSide hq)
    · exact below (by simp [inputs]) rfl hr ihr q (selects_joinSide hq)
  | @step r input f f' g hin hf he hg ih =>
    have hi : input ∈ r.inputs := by simp [hin]
    intro q hq
    rw [source_operate hg] at hq
    rcases he with ⟨-, rfl⟩ | ⟨hs, a, rfl⟩
    · obtain ⟨m, hm, rest⟩ := ih q hq
      exact ⟨m, mem_nodes_of_input hi hm, rest⟩
    · exact below hi hs hf ih q hq

/-- The statements of a relation, at every depth, are SELECTs of what nodes become. -/
theorem forall_statements_of_becomes {s : Sql.Select} {Q : Sql.Select → Prop} (h : r.Valid)
    (hs : r.toSelect t = .ok s)
    (hQ : ∀ n f, n.WellFormed → Becomes t n f → IsStatement t r n f → Q f.select ∧ Q f.named) :
    ∀ q ∈ s.statements, Q q := by
  obtain ⟨f, hf, rfl⟩ := toSelect_becomes h.coherent hs
  refine List.forall_mem_cons.mpr ⟨(hQ r f h.wellFormed hf (.inl rfl)).1, fun q hq => ?_⟩
  obtain ⟨m, hm, n, hn, g, hg, hsep, rfl⟩ := hf.selects q hq
  exact (hQ n g (h.wellFormed.node (input_mem_nodes hm hn)) hg (.inr ⟨m, hm, hn, hsep⟩)).2

theorem IsStatement.mem_nodes (h : IsStatement t root n f) : n ∈ root.nodes := by
  rcases h with rfl | ⟨m, hm, hi, -⟩
  · exact mem_nodes_self n
  · exact input_mem_nodes hm hi

/-- By the plan these are the nodes that a statement is made for. -/
theorem IsStatement.mem_tops (h : IsStatement (Target.builtin d) root n f) (hw : n.WellFormed)
    (hf : Becomes (Target.builtin d) n f) : n ∈ root.tops (Target.builtin d) := by
  rcases h with rfl | ⟨m, hm, hi, hs⟩
  · exact List.mem_cons_self
  · refine Relation.mem_tops hm ?_ hi
    rw [hf.flags_eq hw] at hs
    cases m with
    | table => rfl
    | join => rfl
    | _ =>
      obtain rfl := List.mem_singleton.mp hi
      rwa [startsSelect_of_input rfl]

/-- The statements of a relation, at every depth, are SELECTs of what its tops become. -/
theorem forall_statements {s : Sql.Select} {Q : Sql.Select → Prop} (h : r.Valid)
    (hs : r.toSelect (Target.builtin d) = .ok s)
    (hQ : ∀ n ∈ r.tops (Target.builtin d), ∀ f, n.WellFormed →
      Becomes (Target.builtin d) n f → Q f.select ∧ Q f.named) :
    ∀ q ∈ s.statements, Q q :=
  forall_statements_of_becomes h hs fun n f hw hf hn => hQ n (hn.mem_tops hw hf) f hw hf

/-- What a relation becomes has a SELECT of which the operator of a node is a part; the fragment
which that operator worked on comes last. -/
inductive Within (t : Target) : Relation → Fragment → Relation → Fragment → Prop
  | here {r input : Relation} {f f' g : Fragment} (hin : r.inputs = [input])
      (hf : Becomes t input f) (he : f.Enters (r.separates t f.flags) f')
      (hg : r.operate t f' = .ok g) : Within t r g r f'
  | further {r input n : Relation} {f f' g : Fragment} (hin : r.inputs = [input])
      (h : Within t input f n f') (hs : r.separates t f.flags = false)
      (hg : r.operate t f = .ok g) : Within t r g n f'

theorem Within.becomes (h : Within t r f n f') : Becomes t r f := by
  induction h with
  | here hin hf he hg => exact .step hin hf he hg
  | further hin _ hs hg ih => exact .step hin ih (.inl ⟨hs, rfl⟩) hg

/-- A node whose operator is part of a SELECT works on what its input has become. -/
theorem Within.entered (h : Within t r f n f') : ∃ input f₀ g, n.inputs = [input] ∧
    Becomes t input f₀ ∧ f₀.Enters (n.separates t f₀.flags) f' ∧ n.operate t f' = .ok g := by
  induction h with
  | here hin hf he hg => exact ⟨_, _, _, hin, hf, he, hg⟩
  | further _ _ _ _ ih => exact ih

theorem Within.mem_nodes (h : Within t r f n f') : n ∈ r.nodes := by
  induction h with
  | here => exact mem_nodes_self _
  | further hin _ _ _ ih => exact mem_nodes_of_input (by simp [hin]) ih

/-- The nodes whose operators are part of a SELECT are those that share it by the plan. -/
theorem Within.mem_shared (h : Within (Target.builtin d) r f n f') (hw : r.WellFormed) :
    n ∈ r.shared (Target.builtin d) := by
  induction h with
  | here => exact mem_shared_self _
  | @further r input n f f' g hin h hs _ ih =>
    have hwi := hw.input (i := input) (by simp [hin])
    refine (mem_shared_of_input hin).mpr (.inr ⟨?_, ih hwi⟩)
    rwa [startsSelect_of_input hin, ← h.becomes.flags_eq hwi]

/-- No operator but a grouping changes whether there are groups. -/
theorem Within.aggregated_eq (h : Within (Target.builtin d) r f n f') (hw : r.WellFormed)
    (hn : ∀ id input keys metrics having, n ≠ .aggregate id input keys metrics having) :
    (n.flags (Target.builtin d)).aggregated = f'.aggregated := by
  obtain ⟨input, f₀, g, hin, hf, henters, hg⟩ := h.entered
  have hflags := (Becomes.step hin hf henters hg).flags_eq (hw.node h.mem_nodes)
  rw [← hflags]
  rcases groups_operate hg with ⟨ha, -⟩ | ⟨-, -, -, -, -, hag, haf⟩ | ⟨⟨_, _, _, _, _, rfl⟩, -⟩
  · exact ha
  · exact hag.trans haf.symm
  · exact absurd rfl (hn _ _ _ _ _)

end Relation

end PlanSql
