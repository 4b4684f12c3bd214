import PlanSql.Fragment.OfRelation
import PlanSql.Proofs.Relation.Session

/-!
# An induction along the making of fragments

A node is met once for every path to it but made into a fragment once, so what is known of a
fragment has to be carried by the table of fragments made so far. What every operator keeps, given
the fragments of its inputs and under the conditions that decide whether a new SELECT is put around
them, holds of the fragment of every node. The fragments that a node can become, whatever aliases
are given out, are those that the operators make of the fragments that its inputs can become.
-/
namespace PlanSql

/-- What decides whether an operator can become part of a SELECT. -/
structure Flags where
  limited : Bool
  distinct : Bool
  aggregated : Bool
  windowed : Bool

/-- The flags of a SELECT that shows its source as it is. -/
def Flags.clear : Flags := ⟨false, false, false, false⟩

def Flags.settled (f : Flags) : Bool := f.limited || f.distinct

namespace Fragment

def flags (f : Fragment) : Flags :=
  ⟨f.select.isLimited, f.select.distinct, f.aggregated, f.windowed⟩

/-- A fragment, or a new SELECT around it if the condition holds. -/
def Enters (b : Bool) (f f' : Fragment) : Prop :=
  b = false ∧ f' = f ∨ b = true ∧ ∃ aliasName, f' = f.wrapped aliasName

end Fragment

namespace Lowering

variable {α β : Type} {S : Progress → Prop} {E : CompileError → Prop}

/-- From progress that satisfies `S`, a computation comes to a result that satisfies `Q` and to
progress that satisfies `S`, or to an error that satisfies `E`. -/
def Ensures (S : Progress → Prop) (E : CompileError → Prop) (m : Lowering α) (Q : α → Prop) :
    Prop :=
  ∀ p, S p → Settles (m.run p) (fun x => Q x.1 ∧ S x.2) E

theorem ensures_pure {Q : α → Prop} {a : α} (h : Q a) : Ensures S E (pure a) Q :=
  fun _ hp => ⟨h, hp⟩

theorem Ensures.bind {Q : α → Prop} {R : β → Prop} {m : Lowering α} {k : α → Lowering β}
    (hm : Ensures S E m Q) (hk : ∀ a, Q a → Ensures S E (k a) R) : Ensures S E (m >>= k) R := by
  intro p hp
  rw [StateT.run_bind]
  exact (hm p hp).bind fun x _ hx => hk x.1 hx.1 x.2 hx.2

theorem ensures_lift {Q : α → Prop} {x : Except CompileError α} (h : Settles x Q E) :
    Ensures S E (liftM x) Q := by
  intro p hp
  cases x with
  | error e => exact h
  | ok a => exact ⟨h, hp⟩

/-- The condition on progress may not depend on the number of the next alias. -/
theorem Ensures.freshAlias {Q : β → Prop} {k : String → Lowering β}
    (hS : ∀ p n, S p → S { p with nextAlias := n })
    (hk : ∀ a, Ensures S E (k a) Q) : Ensures S E (freshAlias >>= k) Q :=
  fun p hp => hk _ _ (hS p (p.nextAlias + 1) hp)

theorem toString_injective {m n : Nat} (h : toString m = toString n) : m = n := by
  have hd : Nat.toDigits 10 m = Nat.toDigits 10 n := by
    simpa [Nat.repr, toString] using congrArg String.toList h
  rw [← Nat.ofDigitChars_toDigits (b := 10) (n := m) (by decide) (by decide), hd,
    Nat.ofDigitChars_toDigits (by decide) (by decide)]

/-- Aliases that are given out one after the other are different. -/
theorem Ensures.freshAliases {Q : β → Prop} {k : String → String → Lowering β}
    (hS : ∀ p n, S p → S { p with nextAlias := n })
    (hk : ∀ a b, a ≠ b → Ensures S E (k a b) Q) :
    Ensures S E (Lowering.freshAlias >>= fun a => Lowering.freshAlias >>= k a) Q := by
  intro p hp
  refine hk ("t" ++ toString p.nextAlias) ("t" ++ toString (p.nextAlias + 1)) ?_ _
    (hS p (p.nextAlias + 1 + 1) hp)
  intro h
  have := toString_injective ((String.append_right_inj "t").mp h)
  omega

end Lowering

open Lowering

namespace Relation

/-- The operator at the root needs a new SELECT around an input whose SELECT has the flags. A table
and a join have a SELECT of their own. -/
def separates (t : Target) (f : Flags) : Relation → Bool
  | .table _ _ _ _ | .join _ _ _ _ _ => true
  | .project _ _ _ => f.aggregated || f.settled
  | .filter _ _ _ =>
    f.settled || f.windowed && !f.aggregated && !t.descriptor.supportsQualify
  | .aggregate _ _ _ _ _ | .window _ _ _ => f.aggregated || f.windowed || f.settled
  | .sort _ _ _ | .limit _ _ _ _ | .distinct _ _ => f.limited

/-- The operator at the root as a part of the SELECT of its input. A table and a join have none. -/
def operate (t : Target) (f : Fragment) : Relation → Except CompileError Fragment
  | .table _ _ _ _ | .join _ _ _ _ _ => .ok f
  | .project _ input exprs => f.project t input.header exprs
  | .filter _ input conditions => f.filter t input.header conditions
  | .aggregate _ input keys metrics having => f.aggregate t input.header keys metrics having
  | .sort _ input keys => f.sort t input.header keys
  | .limit _ _ count offset => .ok (f.limit count offset)
  | .window _ input exprs => f.window t input.header exprs
  | .distinct _ _ => .ok f.distinct

variable {t : Target} {root r input : Relation} {f f' : Fragment}
  {P : Relation → Fragment → Prop} {E : CompileError → Prop}

/-- An operator that has put a new SELECT around its input where it needed one does not need one. -/
theorem separates_entered (hin : r.inputs = [input])
    (he : f.Enters (r.separates t f.flags) f') : r.separates t f'.flags = false := by
  rcases he with ⟨hb, rfl⟩ | ⟨-, a, rfl⟩
  · exact hb
  · cases r with
    | table | join => simp [inputs] at hin
    | _ => rfl

/-- An operator with one input works on the input's fragment or on a new SELECT around it. -/
theorem fragment_of_input (hin : r.inputs = [input]) :
    r.fragment t = once r.id (do
      let f ← input.fragment t
      let f ← wrapIf (r.separates t f.flags) f
      r.operate t f) := by
  cases r with
  | table | join => simp [inputs] at hin
  | filter id i conditions =>
    obtain rfl : i = input := by simpa [inputs] using hin
    rw [fragment]
    congr 1
    refine congrArg (i.fragment t >>= ·) (funext fun f => ?_)
    -- a SELECT that has just been put around the fragment needs no other
    change _ = wrapIf (f.isSettled || _) f >>= _
    cases f.isSettled <;> rfl
  | project id i _ | aggregate id i _ _ _ | sort id i _ | limit id i _ _ | window id i _
  | distinct id i =>
    obtain rfl : i = input := by simpa [inputs] using hin
    rw [fragment]
    rfl

/-- Every fragment made so far for a node is one that `P` allows. -/
def Sound (root : Relation) (P : Relation → Fragment → Prop) (p : Progress) : Prop :=
  ∀ i f, (i, f) ∈ p.made → ∀ n ∈ root.nodes, n.id = i → P n f

theorem Sound.fresh {p : Progress} (n : Nat) (h : Sound root P p) :
    Sound root P { p with nextAlias := n } := h

theorem sound_start : Sound root P .start := by simp [Sound, Progress.start]

/-- A node gets the fragment made for it before, and the one made for it now is put down for no
other node. -/
theorem ensures_once (hc : root.Coherent) {r : Relation} (hr : r ∈ root.nodes)
    {make : Lowering Fragment} (h : Ensures (Sound root P) E make (P r)) :
    Ensures (Sound root P) E (once r.id make) (P r) := by
  intro p hp
  unfold once
  simp only [StateT.run_bind, StateT.run_get, pure_bind]
  cases hl : p.made.lookup r.id with
  | some f =>
    obtain ⟨made, rest, hm, -⟩ := List.lookup_eq_some_iff.mp hl
    exact ⟨hp r.id f (by simp [hm]) r hr rfl, hp⟩
  | none =>
    simp only [StateT.run_bind]
    refine (h p hp).bind fun ⟨f, q⟩ _ ⟨hf, hq⟩ => ?_
    refine ⟨hf, fun i g hm n hn hi => ?_⟩
    rcases List.mem_cons.mp hm with he | hm
    · obtain ⟨rfl, rfl⟩ := Prod.mk.inj he
      obtain rfl := hc n hn r hr hi
      exact hf
    · exact hq i g hm n hn hi

/-- What each operator keeps of a property of nodes and their fragments. The conditions on the
input's fragment are those under which the operator becomes part of its SELECT; a new SELECT put
around a fragment satisfies all of them. -/
structure Keeps (t : Target) (root : Relation) (P : Relation → Fragment → Prop)
    (E : CompileError → Prop) : Prop where
  wrapped {r : Relation} {f : Fragment} (aliasName : String) : r ∈ root.nodes → P r f →
    P r (f.wrapped aliasName)
  table {id : NodeId} {name : String} {aliasName : Option String} {fields : Schema} :
    .table id name aliasName fields ∈ root.nodes →
    P (.table id name aliasName fields) (.ofTable name aliasName fields)
  project {id : NodeId} {input : Relation} {exprs : List NamedExpr} {f : Fragment} :
    .project id input exprs ∈ root.nodes → P input f →
    f.aggregated = false → f.isSettled = false →
    Settles (f.project t input.header exprs) (P (.project id input exprs)) E
  filter {id : NodeId} {input : Relation} {conditions : List Expr} {f : Fragment} :
    .filter id input conditions ∈ root.nodes → P input f → f.isSettled = false →
    (f.windowed = true → f.aggregated = true ∨ t.descriptor.supportsQualify = true) →
    Settles (f.filter t input.header conditions) (P (.filter id input conditions)) E
  aggregate {id : NodeId} {input : Relation} {keys metrics : List NamedExpr}
    {having : List Expr} {f : Fragment} :
    .aggregate id input keys metrics having ∈ root.nodes → P input f →
    f.aggregated = false → f.windowed = false → f.isSettled = false →
    Settles (f.aggregate t input.header keys metrics having)
      (P (.aggregate id input keys metrics having)) E
  sort {id : NodeId} {input : Relation} {keys : List (SortKey Expr)} {f : Fragment} :
    .sort id input keys ∈ root.nodes → P input f → f.select.isLimited = false →
    Settles (f.sort t input.header keys) (P (.sort id input keys)) E
  limit {id : NodeId} {input : Relation} {count : Option Nat} {offset : Nat} {f : Fragment} :
    .limit id input count offset ∈ root.nodes → P input f → f.select.isLimited = false →
    P (.limit id input count offset) (f.limit count offset)
  joinOp {id : NodeId} {left right : Relation} {kind : JoinKind} {conditions : List Expr} :
    .join id left right kind conditions ∈ root.nodes →
    Settles (Fragment.joinOp t kind) (fun _ => True) E
  join {id : NodeId} {left right : Relation} {kind : JoinKind} {conditions : List Expr}
    {op : Sql.JoinOp} {l r : Fragment} {leftAlias rightAlias : String} :
    .join id left right kind conditions ∈ root.nodes → Fragment.joinOp t kind = .ok op →
    P left l → P right r → leftAlias ≠ rightAlias →
    Settles (Fragment.join t op left.header right.header
        (joinFields left.header.fields right.header.fields) conditions
        (l.joinSide leftAlias) (r.joinSide rightAlias))
      (P (.join id left right kind conditions)) E
  window {id : NodeId} {input : Relation} {exprs : List NamedExpr} {f : Fragment} :
    .window id input exprs ∈ root.nodes → P input f →
    f.aggregated = false → f.windowed = false → f.isSettled = false →
    Settles (f.window t input.header exprs) (P (.window id input exprs)) E
  distinct {id : NodeId} {input : Relation} {f : Fragment} :
    .distinct id input ∈ root.nodes → P input f → f.select.isLimited = false →
    P (.distinct id input) f.distinct

theorem ensures_wrapIf {Q : Fragment → Prop} {b : Bool} {k : Fragment → Lowering Fragment}
    (hk : ∀ g, f.Enters b g → Ensures (Sound root P) E (k g) Q) :
    Ensures (Sound root P) E (Lowering.wrapIf b f >>= k) Q := by
  unfold Lowering.wrapIf
  cases b with
  | true =>
    simp only [if_true, bind_assoc, pure_bind]
    exact Ensures.freshAlias (fun p n hp => hp.fresh n) fun a => hk _ (.inr ⟨rfl, a, rfl⟩)
  | false => simpa using hk f (.inl ⟨rfl, rfl⟩)

/-- What is kept by tables, by joins and by every operator with one input, which works on a fragment
of that input or on a new SELECT around it. -/
structure Steps (t : Target) (root : Relation) (P : Relation → Fragment → Prop)
    (E : CompileError → Prop) : Prop where
  table {id : NodeId} {name : String} {aliasName : Option String} {fields : Schema} :
    .table id name aliasName fields ∈ root.nodes →
    P (.table id name aliasName fields) (.ofTable name aliasName fields)
  joinOp {id : NodeId} {left right : Relation} {kind : JoinKind} {conditions : List Expr} :
    .join id left right kind conditions ∈ root.nodes →
    Settles (Fragment.joinOp t kind) (fun _ => True) E
  join {id : NodeId} {left right : Relation} {kind : JoinKind} {conditions : List Expr}
    {op : Sql.JoinOp} {l r : Fragment} {leftAlias rightAlias : String} :
    .join id left right kind conditions ∈ root.nodes → Fragment.joinOp t kind = .ok op →
    P left l → P right r → leftAlias ≠ rightAlias →
    Settles (Fragment.join t op left.header right.header
        (joinFields left.header.fields right.header.fields) conditions
        (l.joinSide leftAlias) (r.joinSide rightAlias))
      (P (.join id left right kind conditions)) E
  step {r input : Relation} {f f' : Fragment} : r ∈ root.nodes → r.inputs = [input] →
    P input f → f.Enters (r.separates t f.flags) f' → Settles (r.operate t f') (P r) E

/-- What is kept holds of the fragment of every node. -/
theorem Steps.fragment (hs : Steps t root P E) (hc : root.Coherent) (hr : r ∈ root.nodes) :
    Ensures (Sound root P) E (r.fragment t) (P r) := by
  induction r using induct with
  | step r ih =>
    have below : ∀ i ∈ r.inputs, Ensures (Sound root P) E (i.fragment t) (P i) :=
      fun i hi => ih i hi (input_mem_nodes hr hi)
    have unary : ∀ input, r.inputs = [input] →
        Ensures (Sound root P) E (r.fragment t) (P r) := by
      intro input hin
      rw [fragment_of_input hin]
      refine ensures_once hc hr ((below input (by simp [hin])).bind fun f hf => ?_)
      exact ensures_wrapIf fun g hg => ensures_lift (hs.step hr hin hf hg)
    cases r with
    | table id name aliasName fields =>
      rw [Relation.fragment]
      exact ensures_once hc hr (ensures_pure (hs.table hr))
    | join id left right kind conditions =>
      rw [Relation.fragment]
      refine ensures_once hc hr ?_
      refine (ensures_lift (Q := fun op => Fragment.joinOp t kind = .ok op)
        ((hs.joinOp hr).mono (fun _ he _ => he) fun _ he => he)).bind fun op hop => ?_
      refine (below left (by simp [inputs])).bind fun l hl =>
        (below right (by simp [inputs])).bind fun r' hr' => ?_
      apply Ensures.freshAliases (fun p n hp => hp.fresh n)
      intro a b hab
      exact ensures_lift (hs.join hr hop hl hr' hab)
    | project | filter | aggregate | sort | limit | window | distinct => exact unary _ rfl

/-- What is kept holds of the fragment whose SELECT is the statement. -/
theorem Steps.toSelect (hs : Steps t root P E) (hc : root.Coherent) :
    Settles (root.toSelect t) (fun s => ∃ f, P root f ∧ f.select = s) E :=
  (hs.fragment hc (mem_nodes_self root) .start sound_start).bind fun x _ hx => ⟨x.1, hx.1, rfl⟩

/-- The conditions under which an operator works on a fragment are met by a new SELECT. -/
theorem Keeps.steps (hk : Keeps t root P E) : Steps t root P E where
  table := hk.table
  joinOp := hk.joinOp
  join := hk.join
  step {r input f f'} hr hin hp he := by
    have hP : P input f' := by
      rcases he with ⟨-, rfl⟩ | ⟨-, a, rfl⟩
      · exact hp
      · exact hk.wrapped a (input_mem_nodes hr (by simp [hin])) hp
    have hs := separates_entered hin he
    cases r with
    | table | join => simp [inputs] at hin
    | project id i exprs =>
      obtain rfl : i = input := by simpa [inputs] using hin
      obtain ⟨ha, hs⟩ := Bool.or_eq_false_iff.mp hs
      exact hk.project hr hP ha hs
    | filter id i conditions =>
      obtain rfl : i = input := by simpa [inputs] using hin
      obtain ⟨hs, hq⟩ := Bool.or_eq_false_iff.mp hs
      refine hk.filter hr hP hs fun hw => ?_
      simpa [Fragment.flags, hw, or_iff_not_imp_left] using hq
    | aggregate id i keys metrics having =>
      obtain rfl : i = input := by simpa [inputs] using hin
      obtain ⟨hs, hl⟩ := Bool.or_eq_false_iff.mp hs
      obtain ⟨ha, hw⟩ := Bool.or_eq_false_iff.mp hs
      exact hk.aggregate hr hP ha hw hl
    | sort id i keys =>
      obtain rfl : i = input := by simpa [inputs] using hin
      exact hk.sort hr hP hs
    | limit id i count offset =>
      obtain rfl : i = input := by simpa [inputs] using hin
      exact hk.limit hr hP hs
    | window id i exprs =>
      obtain rfl : i = input := by simpa [inputs] using hin
      obtain ⟨hs, hl⟩ := Bool.or_eq_false_iff.mp hs
      obtain ⟨ha, hw⟩ := Bool.or_eq_false_iff.mp hs
      exact hk.window hr hP ha hw hl
    | distinct id i =>
      obtain rfl : i = input := by simpa [inputs] using hin
      exact hk.distinct hr hP hs

/-- What the operators keep holds of the fragment whose SELECT is the statement. -/
theorem Keeps.toSelect (hk : Keeps t root P E) (hc : root.Coherent) :
    Settles (root.toSelect t) (fun s => ∃ f, P root f ∧ f.select = s) E :=
  hk.steps.toSelect hc

/-- The fragments that the operators can make of a relation, whatever aliases are given out. -/
inductive Becomes (t : Target) : Relation → Fragment → Prop
  | table {id : NodeId} {name : String} {aliasName : Option String} {fields : Schema} :
      Becomes t (.table id name aliasName fields) (.ofTable name aliasName fields)
  | join {id : NodeId} {left right : Relation} {kind : JoinKind} {conditions : List Expr}
      {op : Sql.JoinOp} {l r g : Fragment} {leftAlias rightAlias : String}
      (hop : Fragment.joinOp t kind = .ok op) (hl : Becomes t left l) (hr : Becomes t right r)
      (hab : leftAlias ≠ rightAlias)
      (hg : Fragment.join t op left.header right.header
        (joinFields left.header.fields right.header.fields) conditions
        (l.joinSide leftAlias) (r.joinSide rightAlias) = .ok g) :
      Becomes t (.join id left right kind conditions) g
  | step {r input : Relation} {f f' g : Fragment} (hin : r.inputs = [input])
      (hf : Becomes t input f) (he : f.Enters (r.separates t f.flags) f')
      (hg : r.operate t f' = .ok g) : Becomes t r g

theorem steps_becomes : Steps t root (Becomes t) fun _ => True where
  table _ := .table
  joinOp _ := settles_of_ok fun _ _ => trivial
  join _ hop hl hr hab := settles_of_ok fun _ hg => .join hop hl hr hab hg
  step _ hin hf he := settles_of_ok fun _ hg => .step hin hf he hg

/-- What is kept holds of all fragments that a node can become. -/
theorem Steps.becomes (hs : Steps t root P E) (h : Becomes t r f) (hr : r ∈ root.nodes) :
    P r f := by
  induction h with
  | table => exact hs.table hr
  | join hop _ _ hab hg ihl ihr =>
    have hl := ihl (input_mem_nodes hr (by simp [inputs]))
    have hr' := ihr (input_mem_nodes hr (by simp [inputs]))
    exact (hs.join hr hop hl hr' hab).of_ok hg
  | step hin _ he hg ih =>
    exact (hs.step hr hin (ih (input_mem_nodes hr (by simp [hin]))) he).of_ok hg

/-- The statement of a relation is the SELECT of a fragment that it can become. -/
theorem toSelect_becomes (hc : root.Coherent) {s : Sql.Select} (hs : root.toSelect t = .ok s) :
    ∃ f, Becomes t root f ∧ f.select = s :=
  (steps_becomes.toSelect hc).of_ok hs

end Relation

end PlanSql
