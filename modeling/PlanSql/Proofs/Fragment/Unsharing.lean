import Mathlib.Data.List.Nodup
import PlanSql.Proofs.Fragment.Renaming

/-!
# Shared nodes do not matter

A node that is used in several places is made into a fragment once, with the aliases given out on
the first visit. Without a table of fragments and without numbered aliases the same operators make a
fragment of every relation; what is made of a node, on the first visit or on a later one, is that
fragment under other aliases. Since nothing in it depends on which nodes are shared, a relation and
its copy without shared nodes become the same statement under other aliases, or are refused with the
same error.
-/
namespace PlanSql

theorem Lowering.Ensures.mono_error {α : Type} {S : Progress → Prop} {E E' : CompileError → Prop}
    {m : Lowering α} {Q : α → Prop} (h : Ensures S E m Q) (he : ∀ e, E e → E' e) :
    Ensures S E' m Q :=
  fun p hp => (h p hp).mono (fun _ _ hq => hq) he

namespace Relation

open Lowering

variable {t : Target} {root r input : Relation}

/-- The fragment of a relation where every node is made into a fragment whenever it is met and all
aliases are given out anew in every FROM clause. -/
def plainFragment (t : Target) : Relation → Except CompileError Fragment
  | .table _ name aliasName fields => .ok (.ofTable name aliasName fields)
  | .join _ left right kind conditions => do
    let op ← Fragment.joinOp t kind
    let l ← left.plainFragment t
    let r ← right.plainFragment t
    Fragment.join t op left.header right.header
      (joinFields left.header.fields right.header.fields) conditions
      (l.joinSide "left") (r.joinSide "right")
  | r@(.project _ input _) | r@(.filter _ input _) | r@(.aggregate _ input _ _ _)
  | r@(.sort _ input _) | r@(.limit _ input _ _) | r@(.window _ input _)
  | r@(.distinct _ input) => do
    let f ← input.plainFragment t
    r.operate t (if r.separates t f.flags then f.wrapped "input" else f)

theorem plainFragment_of_input (hin : r.inputs = [input]) :
    r.plainFragment t = input.plainFragment t >>= fun f =>
      r.operate t (if r.separates t f.flags then f.wrapped "input" else f) := by
  cases r with
  | table | join => simp [inputs] at hin
  | _ =>
    obtain rfl := List.singleton_inj.mp hin
    rfl

/-- What a node is made into is its plain fragment under other aliases. -/
def Realizes (t : Target) (r : Relation) (f : Fragment) : Prop :=
  ∃ g, r.plainFragment t = .ok g ∧ f.Renamed g

/-- What a node is made into at any time, on the first visit or a later one, is its plain fragment
under other aliases, and the node is refused if and only if it has no plain fragment. -/
theorem fragment_realizes (hc : root.Coherent) (hr : r ∈ root.nodes) :
    Ensures (Sound root (Realizes t)) (fun e => r.plainFragment t = .error e) (r.fragment t)
      (Realizes t r) := by
  induction r using induct with
  | step r ih =>
    have below : ∀ i ∈ r.inputs, Ensures (Sound root (Realizes t))
        (fun e => i.plainFragment t = .error e) (i.fragment t) (Realizes t i) :=
      fun i hi => ih i hi (input_mem_nodes hr hi)
    have unary : ∀ input, r.inputs = [input] → Ensures (Sound root (Realizes t))
        (fun e => r.plainFragment t = .error e) (r.fragment t) (Realizes t r) := by
      intro input hin
      have hplain := plainFragment_of_input (t := t) hin
      rw [fragment_of_input hin]
      refine ensures_once hc hr (Ensures.bind (Q := Realizes t input) ?_ fun f hf => ?_)
      · refine (below input (by simp [hin])).mono_error fun e he => ?_
        rw [hplain, he, error_bind]
      · obtain ⟨g, hg, hfg⟩ := hf
        rw [hg, ok_bind, hfg.flags_eq] at hplain
        refine ensures_wrapIf fun f' hf' => ensures_lift ?_
        unfold Realizes
        rw [hplain]
        exact operate_renamed (hfg.enters hf' "input")
    cases r with
    | table id name aliasName fields =>
      rw [Relation.fragment]
      exact ensures_once hc hr (ensures_pure ⟨_, rfl, .refl _⟩)
    | join id left right kind conditions =>
      rw [Relation.fragment]
      refine ensures_once hc hr ?_
      -- the plain computation stops at the first of these steps that fails
      refine Ensures.bind (Q := fun op => Fragment.joinOp t kind = .ok op) (ensures_lift ?_)
        fun op hop => ?_
      · cases hop : Fragment.joinOp t kind with
        | ok op => rfl
        | error e => simp [plainFragment, hop]
      refine ((below left (by simp [inputs])).mono_error fun e he => ?_).bind fun l hl => ?_
      · simp [plainFragment, hop, he]
      obtain ⟨l', hl', hll⟩ := hl
      refine ((below right (by simp [inputs])).mono_error fun e he => ?_).bind fun r hr' => ?_
      · simp [plainFragment, hop, hl', he]
      obtain ⟨r', hr', hrr⟩ := hr'
      refine Ensures.freshAliases (fun p n hp => hp.fresh n) fun a b hab => ensures_lift ?_
      have hplain : (join id left right kind conditions).plainFragment t =
          Fragment.join t op left.header right.header
            (joinFields left.header.fields right.header.fields) conditions
            (l'.joinSide "left") (r'.joinSide "right") := by
        simp [plainFragment, hop, hl', hr']
      unfold Realizes
      rw [hplain]
      exact hll.join hrr hab (by decide) ..
    | project | filter | aggregate | sort | limit | window | distinct => exact unary _ rfl

/-- The statement of a relation is that of its plain fragment under other aliases. -/
theorem toSelect_realizes (hc : root.Coherent) :
    Alike (fun s g => s.Renamed (Fragment.select g)) (root.toSelect t) (root.plainFragment t) := by
  have hroot := fragment_realizes (t := t) hc (mem_nodes_self root) .start sound_start
  refine hroot.bind fun x _ hx => ?_
  obtain ⟨g, hg, hxg⟩ := hx.1
  exact ⟨g, hg, hxg.select⟩

/-- The tree of a relation, without the identities of its nodes. -/
def anonymous : Relation → Relation
  | .table _ name aliasName fields => .table 0 name aliasName fields
  | .project _ input exprs => .project 0 input.anonymous exprs
  | .filter _ input conditions => .filter 0 input.anonymous conditions
  | .aggregate _ input keys metrics having => .aggregate 0 input.anonymous keys metrics having
  | .sort _ input keys => .sort 0 input.anonymous keys
  | .limit _ input count offset => .limit 0 input.anonymous count offset
  | .join _ left right kind conditions => .join 0 left.anonymous right.anonymous kind conditions
  | .window _ input exprs => .window 0 input.anonymous exprs
  | .distinct _ input => .distinct 0 input.anonymous

theorem header_anonymous (r : Relation) : r.anonymous.header = r.header := by
  induction r <;> simp_all [anonymous, header]

theorem plainFragment_anonymous (r : Relation) :
    r.anonymous.plainFragment t = r.plainFragment t := by
  induction r with
  | table => rfl
  | join id left right kind cs ihl ihr =>
    simp [anonymous, plainFragment, ihl, ihr, header_anonymous]
  | project id input _ ih | filter id input _ ih | aggregate id input _ _ _ ih | sort id input _ ih
  | limit id input _ _ ih | window id input _ ih | distinct id input ih =>
    simp only [anonymous, plainFragment, ih, operate, header_anonymous]
    rfl

/-- The statement of a relation depends on its tree only, up to aliases. -/
theorem toSelect_of_anonymous_eq {s : Relation} (hr : r.Coherent) (hs : s.Coherent)
    (h : r.anonymous = s.anonymous) :
    Alike Sql.Select.Renamed (r.toSelect t) (s.toSelect t) := by
  have hplain : r.plainFragment t = s.plainFragment t := by
    rw [← plainFragment_anonymous r, h, plainFragment_anonymous]
  have hrp := toSelect_realizes (t := t) hr
  have hsp := toSelect_realizes (t := t) hs
  rw [hplain] at hrp
  exact hrp.trans_symm (fun h h' => h.trans h'.symm) hsp

/-- The same tree with nodes of its own, numbered from `n` on in the order in which they are met. -/
def renumber (n : NodeId) : Relation → Relation
  | .table _ name aliasName fields => .table n name aliasName fields
  | .project _ input exprs => .project n (input.renumber (n + 1)) exprs
  | .filter _ input conditions => .filter n (input.renumber (n + 1)) conditions
  | .aggregate _ input keys metrics having =>
    .aggregate n (input.renumber (n + 1)) keys metrics having
  | .sort _ input keys => .sort n (input.renumber (n + 1)) keys
  | .limit _ input count offset => .limit n (input.renumber (n + 1)) count offset
  | .join _ left right kind conditions =>
    .join n (left.renumber (n + 1)) (right.renumber (n + 1 + left.nodes.length)) kind conditions
  | .window _ input exprs => .window n (input.renumber (n + 1)) exprs
  | .distinct _ input => .distinct n (input.renumber (n + 1))

/-- The copy of a relation in which no node is used in two places. -/
def unshared (r : Relation) : Relation := r.renumber 0

theorem anonymous_renumber (r : Relation) (n : NodeId) :
    (r.renumber n).anonymous = r.anonymous := by
  induction r generalizing n <;> simp_all [renumber, anonymous]

theorem ids_renumber (r : Relation) (n : NodeId) :
    (r.renumber n).nodes.map id = List.range' n r.nodes.length := by
  induction r generalizing n with
  | table => rfl
  | join i left right kind cs ihl ihr =>
    simp [renumber, nodes, id, ihl, ihr, List.range'_succ, List.range'_append_1]
  | project i input _ ih | filter i input _ ih | aggregate i input _ _ _ ih | sort i input _ ih
  | limit i input _ _ ih | window i input _ ih | distinct i input ih =>
    simp [renumber, nodes, id, ih, List.range'_succ]

/-- A relation without shared nodes is coherent. -/
theorem coherent_of_nodup (h : (r.nodes.map id).Nodup) : r.Coherent :=
  fun _ hm _ hn he => List.inj_on_of_nodup_map h hm hn he

/-- The unshared copy of a relation has the same tree and no node in two places. Both become the
same statement up to a renaming of aliases that is one to one in every FROM clause, or both are
refused with the same error. -/
theorem toSelect_unshared (h : r.Coherent) (t : Target) :
    (r.unshared.nodes.map id).Nodup ∧ r.unshared.anonymous = r.anonymous ∧
      Alike Sql.Select.Renamed (r.toSelect t) (r.unshared.toSelect t) := by
  have hnodup : (r.unshared.nodes.map id).Nodup := by
    rw [unshared, ids_renumber]
    exact List.nodup_range'
  have htree := anonymous_renumber r 0
  exact ⟨hnodup, htree, toSelect_of_anonymous_eq h (coherent_of_nodup hnodup) htree.symm⟩

/-- The first three of the first five rows of a table. -/
def firstRows : Relation :=
  .limit 2 (.limit 1 (.table 0 "a" none [⟨"x", .int64, false⟩]) (some 5) 0) (some 3) 0

/-- The pairs of these rows. -/
def firstPairs : Relation := .join 3 firstRows firstRows .cross []

theorem valid_firstPairs : firstPairs.Valid := by
  have ha : scan 0 "a" none [⟨"x", .int64, false⟩] = .ok _ := rfl
  have hl : slice 1 (.table 0 "a" none [⟨"x", .int64, false⟩]) (some 5) 0 = .ok _ := rfl
  have hr : slice 2 (.limit 1 (.table 0 "a" none [⟨"x", .int64, false⟩]) (some 5) 0) (some 3) 0 =
      .ok firstRows := rfl
  have hj : joinWith 3 firstRows firstRows .cross [] = .ok firstPairs := rfl
  exact ⟨_, .call (.call (.call (.call .start (.scan ha) (by simp))
    (.slice List.mem_cons_self hl) (by simp [id]))
    (.slice List.mem_cons_self hr) (by simp [id, firstRows]))
    (.joinWith List.mem_cons_self List.mem_cons_self (by simp) hj)
    (by simp [id, firstPairs, firstRows]), List.mem_cons_self⟩

theorem toSelect_firstPairs_unshared : firstPairs.Coherent ∧ ∃ s s',
    firstPairs.toSelect (Target.builtin .mysql) = .ok s ∧
      firstPairs.unshared.toSelect (Target.builtin .mysql) = .ok s' ∧ s ≠ s' ∧ s.Renamed s' := by
  have hs : firstPairs.toSelect (Target.builtin .mysql) = .ok _ := rfl
  have hu : firstPairs.unshared.toSelect (Target.builtin .mysql) = .ok _ := rfl
  have hc := valid_firstPairs.coherent
  obtain ⟨s', hs', hr⟩ := (toSelect_unshared hc (Target.builtin .mysql)).2.2.of_ok hs
  obtain rfl := Except.ok.inj (hu.symm.trans hs')
  refine ⟨hc, _, _, hs, hu, fun h => ?_, hr⟩
  -- before the join gives out its aliases, two copies have taken one each, a shared node only one
  have hcolumns := congrArg (fun s : Sql.Select => s.expressions.map (·.reference?)) h
  exact absurd hcolumns (by decide +kernel)

end Relation

end PlanSql
