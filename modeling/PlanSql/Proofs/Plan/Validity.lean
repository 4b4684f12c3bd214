import PlanSql.Proofs.Plan.Terms
import PlanSql.Proofs.Relation.Typing

/-!
# The relations of plans

A plan is a program of constructor and builder calls: its terms become expressions that the checked
constructors make, and each of its operators makes one node, on relations made before and under an
identity that no earlier node has. So what a plan describes is a relation that some sequence of
builder calls makes, and whatever holds of these holds of it. Its columns are given by the very
relations that an operator works on.
-/
namespace PlanSql

namespace Header

theorem column_eq_ok {h : Header} {name : String} {e : Expr} (he : h.column name = .ok e) :
    ∃ ref t, e = .column ref t := by
  unfold column at he
  split at he
  · exact ⟨_, _, by simpa using he.symm⟩
  · simp at he

theorem columnOf_eq_ok {h : Header} {ref : ColumnRef} {e : Expr} (he : h.columnOf ref = .ok e) :
    ∃ t, e = .column ref t := by
  obtain ⟨i, -, he⟩ := PlanSql.bind_eq_ok.mp he
  exact ⟨_, by simpa using he.symm⟩

theorem madeWith_column {h : Header} {name : String} {e : Expr} (he : h.column name = .ok e) :
    e.MadeWith h.Gives := by
  obtain ⟨ref, t, rfl⟩ := column_eq_ok he
  exact .column (.column he)

theorem madeWith_columnOf {h : Header} {ref : ColumnRef} {e : Expr} (he : h.columnOf ref = .ok e) :
    e.MadeWith h.Gives := by
  obtain ⟨t, rfl⟩ := columnOf_eq_ok he
  exact .column (.columnOf he)

end Header

/-- A header in scope gives the column. -/
def TermScope.Gives : TermScope → ColumnRef → DataType → Prop
  | .single h => h.Gives
  | .join left right => fun ref t => left.Gives ref t ∨ right.Gives ref t

namespace Term

variable {scope : TermScope}

theorem gives_of_header {asked ref : ColumnRef} {t : DataType} {h : Header}
    (hh : scope.header asked = .ok h) (hg : h.Gives ref t) : scope.Gives ref t := by
  cases scope with
  | single h' =>
    obtain rfl : h' = h := by simpa [TermScope.header] using hh
    exact hg
  | join left right =>
    obtain ⟨⟨side, i⟩, -, hh⟩ := bind_eq_ok.mp hh
    cases side with
    | left =>
      obtain rfl : left = h := by simpa using hh
      exact .inl hg
    | right =>
      obtain rfl : right = h := by simpa using hh
      exact .inr hg

theorem madeWith_column {name : String} {table : Option String} {e : Expr}
    (he : scope.column name table = .ok e) : e.MadeWith scope.Gives := by
  obtain ⟨h, hh, he⟩ := bind_eq_ok.mp he
  have hm : e.MadeWith h.Gives := by
    cases table with
    | none => exact Header.madeWith_column he
    | some table => exact Header.madeWith_columnOf he
  exact hm.mono fun ref t => gives_of_header hh

/-- A window function before its window is attached is made of its arguments. -/
theorem madeWith_windowFunction {C : ColumnRef → DataType → Prop} {name : String}
    {args : List Expr} {e : Expr} (ha : ∀ a ∈ args, a.MadeWith C)
    (he : windowFunction name args = .ok e) : e.MadeWith C := by
  have hshift : ∀ {f : WindowFunction} {a : Expr} {rest : List Expr}, f ∈ [.lag, .lead] →
      a.MadeWith C → (shiftOffset name rest >>= Expr.shift f a) = .ok e → e.MadeWith C := by
    intro f a rest hf hm he
    obtain ⟨offset, -, he⟩ := bind_eq_ok.mp he
    exact .shift hf hm he
  simp only [windowFunction] at he
  split at he
  · obtain rfl : _ = e := by simpa using he
    exact .ranking (by simp)
  · obtain rfl : _ = e := by simpa using he
    exact .ranking (by simp)
  · obtain rfl : _ = e := by simpa using he
    exact .ranking (by simp)
  · split at he
    · simp at he
    · exact hshift (by simp) (ha _ List.mem_cons_self) he
  · split at he
    · simp at he
    · exact hshift (by simp) (ha _ List.mem_cons_self) he
  · split at he
    · obtain rfl : _ = e := by simpa using he
      exact .countStar
    · exact .aggregate (ha _ List.mem_cons_self) he
    · simp at he

theorem madeWith_resolve {t : Term} {e : Expr} (h : t.resolve scope = .ok e) :
    e.MadeWith scope.Gives := by
  induction t using induct generalizing e with
  | step t ih =>
    have belowAll : ∀ {ts : List Term} {es : List Expr}, (∀ c ∈ ts, c ∈ t.children) →
        List.Forall₂ (Describes scope) ts es → ∀ e ∈ es, e.MadeWith scope.Gives := by
      intro ts es hts hes e he
      obtain ⟨c, hc, hce⟩ := forall₂_mem_right hes he
      exact ih c (hts c hc) hce
    cases t with
    | literal value dataType =>
      obtain ⟨v, -, h⟩ := bind_eq_ok.mp h
      obtain rfl : _ = e := by simpa using h
      exact .literal v
    | column name table => exact madeWith_column h
    | unary op operand =>
      obtain ⟨a, ha, h⟩ := bind_eq_ok.mp h
      exact .unary (ih operand (by simp [children]) ha) h
    | binary op left right =>
      obtain ⟨l, hl, h⟩ := bind_eq_ok.mp h
      obtain ⟨r, hr, h⟩ := bind_eq_ok.mp h
      exact .binary (ih left (by simp [children]) hl) (ih right (by simp [children]) hr) h
    | call function args =>
      obtain ⟨f, -, h⟩ := bind_eq_ok.mp h
      obtain ⟨as, ha, h⟩ := bind_eq_ok.mp h
      exact .function (belowAll (fun c hc => hc) (resolveAll_eq_ok.mp ha)) h
    | extract part operand =>
      obtain ⟨a, ha, h⟩ := bind_eq_ok.mp h
      exact .extract (ih operand (by simp [children]) ha) h
    | toTimestamp operand unit =>
      obtain ⟨a, ha, h⟩ := bind_eq_ok.mp h
      exact .toTimestamp (ih operand (by simp [children]) ha) h
    | inList operand values negated =>
      obtain ⟨a, ha, h⟩ := bind_eq_ok.mp h
      obtain ⟨vs, -, h⟩ := bind_eq_ok.mp h
      exact .inList (ih operand (by simp [children]) ha) h
    | isNull operand negated =>
      obtain ⟨a, ha, h⟩ := bind_eq_ok.mp h
      obtain rfl : _ = e := by simpa using h
      exact .isNull (ih operand (by simp [children]) ha)
    | cast operand target =>
      obtain ⟨a, ha, h⟩ := bind_eq_ok.mp h
      obtain rfl : _ = e := by simpa using h
      exact .cast (ih operand (by simp [children]) ha)
    | case branches otherwise =>
      obtain ⟨bs, hb, h⟩ := bind_eq_ok.mp h
      obtain ⟨o, ho, h⟩ := bind_eq_ok.mp h
      have hbs := belowAll (fun c hc => List.mem_append_left _ hc) (resolveBranches_eq_ok hb)
      have hos := belowAll (fun c hc => List.mem_append_right _ hc) (resolveOption_eq_ok ho)
      refine .case (fun b hmem => ⟨hbs b.1 ?_, hbs b.2 ?_⟩) (by simpa using hos) h
      · exact List.mem_flatMap.mpr ⟨b, hmem, by simp⟩
      · exact List.mem_flatMap.mpr ⟨b, hmem, by simp⟩
    | aggregate function arg distinct filter =>
      obtain ⟨a, ha, hfilter⟩ := resolve_aggregate h
      have hm : a.MadeWith scope.Gives := by
        obtain ⟨-, rfl⟩ | ⟨x, f, y, once, rfl, hy, ha⟩ := ha
        · exact .countStar
        · exact .aggregate (ih x (by simp [children]) hy) ha
      obtain ⟨-, rfl⟩ | ⟨p, c, rfl, hc, h⟩ := hfilter
      · exact hm
      · exact .withFilter hm (ih p (by simp [children]) hc) h
    | window function args partitionBy orderBy =>
      obtain ⟨as, ha, h⟩ := bind_eq_ok.mp h
      obtain ⟨f, hf, h⟩ := bind_eq_ok.mp h
      obtain ⟨ps, hp, h⟩ := bind_eq_ok.mp h
      obtain ⟨ks, hk, h⟩ := bind_eq_ok.mp h
      have has := belowAll (fun c hc => by simp [children, hc]) (resolveAll_eq_ok.mp ha)
      have hps := belowAll (fun c hc => by simp [children, hc]) (resolveAll_eq_ok.mp hp)
      have hks := belowAll (fun c hc => List.mem_append_right _ hc) (resolveKeys_eq_ok hk)
      exact .windowed (madeWith_windowFunction has hf) hps (by simpa using hks) h

theorem madeWith_resolveAll {ts : List Term} {es : List Expr} (h : resolveAll scope ts = .ok es) :
    ∀ e ∈ es, e.MadeWith scope.Gives := by
  intro e he
  obtain ⟨t, -, ht⟩ := forall₂_mem_right (resolveAll_eq_ok.mp h) he
  exact madeWith_resolve ht

theorem madeWith_resolveKeys {ks : List (SortKey Term)} {xs : List (SortKey Expr)}
    (h : resolveKeys scope ks = .ok xs) : ∀ x ∈ xs, x.expr.MadeWith scope.Gives := by
  intro x hx
  obtain ⟨t, -, ht⟩ := forall₂_mem_right (resolveKeys_eq_ok h) (List.mem_map_of_mem hx)
  exact madeWith_resolve ht

theorem madeWith_resolveNamed {n : Named Term} {x : NamedExpr} (h : resolveNamed scope n = .ok x) :
    x.expr.MadeWith scope.Gives := by
  obtain ⟨e, he, h⟩ := bind_eq_ok.mp h
  obtain rfl : _ = x := by simpa using h
  exact madeWith_resolve he

theorem madeWith_resolveOutputs {ns : List (Named Term)} {xs : List NamedExpr}
    (h : resolveOutputs scope ns = .ok xs) : ∀ x ∈ xs, x.expr.MadeWith scope.Gives := by
  intro x hx
  obtain ⟨n, -, hn⟩ := forall₂_mem_right (mapM_eq_ok.mp h) hx
  exact madeWith_resolveNamed hn

theorem madeWith_resolveGroupConditions {h : Header} {ts : List Term} {es : List Expr}
    (hr : resolveGroupConditions h ts = .ok es) :
    ∀ e ∈ es, e.MadeWith (TermScope.single h).Gives := by
  intro e he
  obtain ⟨t, -, ht⟩ := forall₂_mem_right (mapM_eq_ok.mp hr) he
  obtain ⟨e', he', ht⟩ := bind_eq_ok.mp ht
  obtain ⟨⟨⟩, -, ht⟩ := bind_eq_ok.mp ht
  obtain rfl : e' = e := by simpa using ht
  exact madeWith_resolve he'

end Term

namespace Building

open PlanSql.Relation

variable {α β : Type} {existing : List Relation}

/-- The relations that a sequence of builder calls has made, all under identities below a number. -/
def Numbered (existing : List Relation) (next : NodeId) : Prop :=
  Session existing ∧ ∀ s ∈ existing, s.id < next

/-- Once some relations exist, a computation makes more of them, if any, and comes to a result with
a property with respect to all of them. -/
def Extends (existing : List Relation) (m : Building α) (Q : α → List Relation → Prop) : Prop :=
  ∀ next a next', Numbered existing next → m.run next = .ok (a, next') →
    ∃ later, Numbered later next' ∧ existing ⊆ later ∧ Q a later

theorem Extends.bind {m : Building α} {k : α → Building β} {Q : α → List Relation → Prop}
    {R : β → List Relation → Prop} (hm : Extends existing m Q)
    (hk : ∀ a later, existing ⊆ later → Q a later → Extends later (k a) R) :
    Extends existing (m >>= k) R := by
  intro next b next' hn h
  rw [StateT.run_bind] at h
  obtain ⟨⟨a, between⟩, ha, h⟩ := bind_eq_ok.mp h
  obtain ⟨later, hl, hsub, hq⟩ := hm next a between hn ha
  obtain ⟨last, hlast, hsub', hr⟩ := hk a later hsub hq between b next' hl h
  exact ⟨last, hlast, List.Subset.trans hsub hsub', hr⟩

theorem extends_lift {x : Except PlanError α} {Q : α → Prop} (hx : ∀ a, x = .ok a → Q a) :
    Extends existing (liftM x) fun a _ => Q a := by
  intro next a next' hn h
  cases x with
  | error e => simp [liftM, monadLift, MonadLift.monadLift] at h
  | ok b =>
    obtain ⟨rfl, rfl⟩ : b = a ∧ next = next' := by
      simpa [liftM, monadLift, MonadLift.monadLift, StateT.lift] using h
    exact ⟨existing, hn, List.Subset.refl _, hx b rfl⟩

/-- A builder call adds its relation, under an identity that none has had so far. -/
theorem extends_node {make : NodeId → Except PlanError Relation} {Q : Relation → Prop}
    (h : ∀ id r, make id = .ok r → r.id = id ∧ Builds existing r ∧ Q r) :
    Extends existing (node make) fun r later => r ∈ later ∧ Q r := by
  rintro next r next' ⟨hs, hid⟩ hr
  have hrun : (node make).run next = make next >>= fun r => .ok (r, next + 1) := by
    cases h : make next <;> simp [node, h]
  rw [hrun] at hr
  obtain ⟨made, hm, hr⟩ := bind_eq_ok.mp hr
  obtain ⟨rfl, rfl⟩ : made = r ∧ next + 1 = next' := by simpa using hr
  obtain ⟨hnew, hb, hq⟩ := h next made hm
  refine ⟨made :: existing, ⟨hs.call hb fun s hmem => ?_, ?_⟩, List.subset_cons_self _ _,
    List.mem_cons_self, hq⟩
  · rw [hnew]
    exact Nat.ne_of_lt (hid s hmem)
  · refine List.forall_mem_cons.mpr ⟨?_, fun s hmem => Nat.lt_succ_of_lt (hid s hmem)⟩
    rw [hnew]
    exact Nat.lt_succ_self next

end Building

namespace Relation

/-- The columns in the expressions of the root were given by its inputs. -/
def TakesFromInputs (r : Relation) : Prop :=
  ∀ e ∈ r.exprs, ∀ ref t, .column ref t ∈ e.parts → ∃ i ∈ r.inputs, i.header.Gives ref t

/-- Each operator takes its columns from the relations it works on. -/
def TakesFromBelow (r : Relation) : Prop := ∀ n ∈ r.nodes, n.TakesFromInputs

theorem takesFromBelow_single {r i : Relation} (hr : r.inputs = [i]) (hi : i.TakesFromBelow)
    (he : ∀ e ∈ r.exprs, e.MadeWith (TermScope.single i.header).Gives) : r.TakesFromBelow := by
  intro n hn
  rcases mem_nodes.mp hn with rfl | ⟨i', hi', hn⟩
  · exact fun e hmem ref t hp => ⟨i, by simp [hr], (he e hmem).2 ref t hp⟩
  · obtain rfl : i' = i := by simpa [hr] using hi'
    exact hi n hn

theorem takesFromBelow_join {id : NodeId} {left right : Relation} {kind : JoinKind}
    {conditions : List Expr} (hl : left.TakesFromBelow) (hr : right.TakesFromBelow)
    (hc : ∀ c ∈ conditions, c.MadeWith (TermScope.join left.header right.header).Gives) :
    (join id left right kind conditions).TakesFromBelow := by
  intro n hn
  rcases mem_nodes.mp hn with rfl | ⟨i, hi, hni⟩
  · intro c hmem ref t hp
    rcases (hc c hmem).2 ref t hp with hg | hg
    · exact ⟨left, by simp [inputs], hg⟩
    · exact ⟨right, by simp [inputs], hg⟩
  · simp only [inputs, List.mem_cons, List.not_mem_nil, or_false] at hi
    rcases hi with rfl | rfl
    · exact hl n hni
    · exact hr n hni

end Relation

namespace Plan

open PlanSql.Relation Building

/-- Resolving a plan is making builder calls, each on columns of the relations it is made on. -/
theorem extends_resolve (catalog : Catalog) (p : Plan) (existing : List Relation) :
    Extends existing (p.resolve catalog) fun r later => r ∈ later ∧ r.TakesFromBelow := by
  induction p generalizing existing with
  | table name aliasName =>
    refine (extends_lift (Q := fun _ => True) fun _ _ => trivial).bind fun fields later _ _ => ?_
    refine extends_node fun id r h => ?_
    obtain ⟨rfl, -⟩ := scan_eq_ok h
    exact ⟨rfl, .scan h, by simp [TakesFromBelow, TakesFromInputs, nodes, exprs]⟩
  | project input exprs ih =>
    refine (ih existing).bind fun i made _ hinput => ?_
    obtain ⟨hi, hb⟩ := hinput
    refine (extends_lift fun _ => Term.madeWith_resolveOutputs).bind fun outs later hsub hm => ?_
    refine extends_node fun id r h => ?_
    have hmade : ∀ n ∈ outs, n.expr.Made := fun n hn => (hm n hn).1
    obtain ⟨rfl, -⟩ := select_eq_ok hmade h
    exact ⟨rfl, .select (hsub hi) hmade h,
      takesFromBelow_single rfl hb (by simpa [Relation.exprs] using hm)⟩
  | filter input predicates ih =>
    refine (ih existing).bind fun i made _ hinput => ?_
    obtain ⟨hi, hb⟩ := hinput
    refine (extends_lift fun _ => Term.madeWith_resolveAll).bind fun conditions later hsub hm => ?_
    refine extends_node fun id r h => ?_
    have hmade : ∀ c ∈ conditions, c.Made := fun c hc => (hm c hc).1
    obtain ⟨rfl, -⟩ := restrict_eq_ok hmade h
    exact ⟨rfl, .restrict (hsub hi) hmade h, takesFromBelow_single rfl hb hm⟩
  | aggregate input keys metrics having ih =>
    refine (ih existing).bind fun i made _ hinput => ?_
    obtain ⟨hi, hb⟩ := hinput
    refine (extends_lift fun _ => Term.madeWith_resolveOutputs).bind fun ks l₁ h₁ hk => ?_
    refine (extends_lift fun _ => Term.madeWith_resolveGroupConditions).bind fun hs l₂ h₂ hh => ?_
    refine (extends_lift fun _ => Term.madeWith_resolveOutputs).bind fun ms l₃ h₃ hm => ?_
    refine extends_node fun id r h => ?_
    have hkeys : ∀ n ∈ ks, n.expr.Made := fun n hn => (hk n hn).1
    have hconditions : ∀ c ∈ hs, c.Made := fun c hc => (hh c hc).1
    have hmetrics : ∀ n ∈ ms, n.expr.Made := fun n hn => (hm n hn).1
    obtain ⟨rfl, -⟩ := group_eq_ok hkeys hconditions hmetrics h
    refine ⟨rfl, .group (h₃ (h₂ (h₁ hi))) hkeys hconditions hmetrics h,
      takesFromBelow_single rfl hb ?_⟩
    simp only [Relation.exprs, List.forall_mem_append, List.forall_mem_map]
    exact ⟨⟨hk, hm⟩, hh⟩
  | valueCounts input expr ih =>
    refine (ih existing).bind fun i made _ hinput => ?_
    obtain ⟨hi, hb⟩ := hinput
    refine (extends_lift fun _ => Term.madeWith_resolveNamed).bind fun key later hsub hk => ?_
    have hkeys : ∀ n ∈ [key], n.expr.Made := by simpa using hk.1
    have hsize : ∀ n ∈ [groupSize], n.expr.Made := by simpa [groupSize] using Expr.Made.countStar
    refine extends_node fun id r h => ?_
    obtain ⟨rfl, -⟩ := group_eq_ok hkeys (by simp) hsize h
    refine ⟨rfl, .group (hsub hi) hkeys (by simp) hsize h, takesFromBelow_single rfl hb ?_⟩
    simpa [Relation.exprs, groupSize] using ⟨hk, .countStar⟩
  | sort input keys ih =>
    refine (ih existing).bind fun i made _ hinput => ?_
    obtain ⟨hi, hb⟩ := hinput
    refine (extends_lift fun _ => Term.madeWith_resolveKeys).bind fun ks later hsub hk => ?_
    refine extends_node fun id r h => ?_
    have hmade : ∀ k ∈ ks, k.expr.Made := fun k hmem => (hk k hmem).1
    obtain ⟨rfl, -⟩ := sortBy_eq_ok hmade h
    exact ⟨rfl, .sortBy (hsub hi) hmade h,
      takesFromBelow_single rfl hb (by simpa [Relation.exprs] using hk)⟩
  | limit input count offset ih =>
    refine (ih existing).bind fun i made _ hinput => extends_node fun id r h => ?_
    obtain ⟨hi, hb⟩ := hinput
    obtain ⟨rfl, -⟩ := slice_eq_ok h
    exact ⟨rfl, .slice hi h, takesFromBelow_single rfl hb (by simp [Relation.exprs])⟩
  | join left right kind predicates ihl ihr =>
    refine (ihl existing).bind fun l l₁ _ hleft => (ihr l₁).bind fun r l₂ h₂ hright => ?_
    obtain ⟨hl, hbl⟩ := hleft
    obtain ⟨hr, hbr⟩ := hright
    refine (extends_lift fun _ => Term.madeWith_resolveAll).bind fun conditions l₃ h₃ hm => ?_
    refine extends_node fun id j h => ?_
    have hmade : ∀ c ∈ conditions, c.Made := fun c hc => (hm c hc).1
    obtain ⟨rfl, -⟩ := joinWith_eq_ok hmade h
    exact ⟨rfl, .joinWith (h₃ (h₂ hl)) (h₃ hr) hmade h, takesFromBelow_join hbl hbr hm⟩
  | window input exprs ih =>
    refine (ih existing).bind fun i made _ hinput => ?_
    obtain ⟨hi, hb⟩ := hinput
    refine (extends_lift fun _ => Term.madeWith_resolveOutputs).bind fun outs later hsub hm => ?_
    refine extends_node fun id r h => ?_
    have hmade : ∀ n ∈ outs, n.expr.Made := fun n hn => (hm n hn).1
    obtain ⟨rfl, -⟩ := extend_eq_ok hmade h
    exact ⟨rfl, .extend (hsub hi) hmade h,
      takesFromBelow_single rfl hb (by simpa [Relation.exprs] using hm)⟩
  | distinct input ih =>
    refine (ih existing).bind fun i made _ hinput => extends_node fun id r h => ?_
    obtain ⟨hi, hb⟩ := hinput
    obtain rfl : _ = r := by simpa using h
    exact ⟨rfl, .deduplicate hi,
      takesFromBelow_single rfl hb (by simp [deduplicate, Relation.exprs])⟩

/-- What a plan describes is a relation that a sequence of builder calls makes, and its operators
take their columns from the relations they work on. -/
theorem made_relation {catalog : Catalog} {p : Plan} {r : Relation}
    (h : p.relation catalog = .ok r) :
    (∃ existing, Session existing ∧ r ∈ existing) ∧ r.TakesFromBelow := by
  obtain ⟨⟨made, next⟩, hm, h⟩ := bind_eq_ok.mp h
  obtain rfl : made = r := by simpa using h
  obtain ⟨later, ⟨hs, -⟩, -, hmem, hb⟩ :=
    extends_resolve catalog p [] 0 made next ⟨.start, by simp⟩ hm
  exact ⟨⟨later, hs, hmem⟩, hb⟩

theorem valid_relation {catalog : Catalog} {p : Plan} {r : Relation}
    (h : p.relation catalog = .ok r) : r.Valid :=
  (made_relation h).1

end Plan

end PlanSql
