import Mathlib.Algebra.BigOperators.Group.Multiset.Basic
import Mathlib.Tactic.Abel
import PlanSql.Proofs.Plan.Validity

/-!
# The columns and constants of a term

A term is made of columns and constants, and the expression that it describes is made of what these
stand for, each as often as it is given: no operand is lost, and none is made up but the offset of a
shift that has none. There is one exception. A window function looks at a number of arguments that
its name tells, and the arguments beyond these are read, checked and left out.
-/
namespace PlanSql

namespace Expr

/-- The columns and constants at the root of an expression. -/
def own : Expr → List Expr
  | .literal v => [.literal v]
  | .column ref t => [.column ref t]
  | .inList _ values _ => values.map .literal
  | _ => []

/-- All columns and constants in an expression, each as often as it occurs. -/
def leaves (e : Expr) : Multiset Expr := e.parts.flatMap own

theorem leaves_eq (e : Expr) : e.leaves = e.own + (e.children.map leaves).sum := by
  have hsum : ∀ es : List Expr, ((es.flatMap parts).flatMap own : Multiset Expr) =
      (es.map leaves).sum := by
    intro es
    induction es with
    | nil => rfl
    | cons e rest ih => simp [← ih, leaves]
  rw [← hsum, leaves, parts, walk_eq, List.flatMap_cons, Multiset.coe_add]
  rfl

theorem leaves_int (i : Int) : (Expr.int i).leaves = {.int i} := rfl

end Expr

namespace Term

/-- The number of arguments that a window function looks at. -/
def looksAt (name : String) : Nat :=
  match name with
  | "row_number" | "rank" | "dense_rank" => 0
  | "lag" | "lead" => 2
  | _ => 1

/-- The arguments that a window function does not look at. -/
def surplus : Term → List Term
  | .window name args _ _ => args.drop (looksAt name)
  | _ => []

/-- The terms that a term applies to, without surplus arguments. -/
def operands : Term → List Term
  | .window name args partitionBy orderBy =>
    args.take (looksAt name) ++ partitionBy ++ orderBy.map (·.expr)
  | t => t.children

theorem children_perm (t : Term) : t.children.Perm (t.operands ++ t.surplus) := by
  cases t with
  | window name args partitionBy orderBy =>
    have hargs : (args : Multiset Term) = args.take (looksAt name) + args.drop (looksAt name) := by
      rw [Multiset.coe_add, List.take_append_drop]
    simp only [children, operands, surplus, ← Multiset.coe_eq_coe, ← Multiset.coe_add, hargs]
    abel
  | _ => simp [operands, surplus]

theorem mem_children_of_mem_operands {t c : Term} (h : c ∈ t.operands) : c ∈ t.children :=
  t.children_perm.mem_iff.mpr (List.mem_append_left _ h)

theorem mem_children_of_mem_surplus {t c : Term} (h : c ∈ t.surplus) : c ∈ t.children :=
  t.children_perm.mem_iff.mpr (List.mem_append_right _ h)

/-- A shift without an offset. -/
def isBareShift : Term → Bool
  | .window name args _ _ => (name = "lag" || name = "lead") && args.length = 1
  | _ => false

/-- The columns and constants at the root of a term. -/
def own : Term → List Term
  | .literal value dataType => [.literal value dataType]
  | .column name table => [.column name table]
  | .inList _ values _ => values.map (.literal · none)
  | _ => []

/-- All columns and constants in a term, each as often as it occurs. -/
def leaves (t : Term) : Multiset Term :=
  t.own + (t.children.attach.map fun c => c.1.leaves).sum
termination_by sizeOf t
decreasing_by exact sizeOf_lt_of_mem_children c.2

theorem leaves_eq (t : Term) : t.leaves = t.own + (t.children.map leaves).sum := by
  rw [leaves, List.attach_map_val (f := leaves)]

/-- The columns and constants in surplus arguments. -/
def ignored (t : Term) : Multiset Term :=
  (t.surplus.map leaves).sum + (t.operands.attach.map fun c => c.1.ignored).sum
termination_by sizeOf t
decreasing_by exact sizeOf_lt_of_mem_children (mem_children_of_mem_operands c.2)

theorem ignored_eq (t : Term) :
    t.ignored = (t.surplus.map leaves).sum + (t.operands.map ignored).sum := by
  rw [ignored, List.attach_map_val (f := ignored)]

/-- The number of shifts without an offset, outside of surplus arguments. -/
def bareShifts (t : Term) : Nat :=
  (if t.isBareShift then 1 else 0) + (t.operands.attach.map fun c => c.1.bareShifts).sum
termination_by sizeOf t
decreasing_by exact sizeOf_lt_of_mem_children (mem_children_of_mem_operands c.2)

theorem bareShifts_eq (t : Term) : t.bareShifts =
    (if t.isBareShift then 1 else 0) + (t.operands.map bareShifts).sum := by
  rw [bareShifts, List.attach_map_val (f := bareShifts)]

variable {scope : TermScope}

/-- The arguments that a window function works on: the offset of a shift is one unless given. -/
def windowArgs (name : String) (args : List Expr) : List Expr :=
  args.take (looksAt name) ++
    if (name = "lag" || name = "lead") && args.length = 1 then [.int 1] else []

theorem shift_eq_ok {f : WindowFunction} {name : String} {a e : Expr} {rest : List Expr}
    (h : (shiftOffset name rest >>= Expr.shift f a) = .ok e) :
    e = .window f ((a :: rest).take 2 ++ if rest.length = 0 then [.int 1] else []) [] [] := by
  obtain ⟨offset, ho, h⟩ := bind_eq_ok.mp h
  obtain ⟨rfl, -⟩ := Expr.shift_eq_ok h
  unfold shiftOffset at ho
  split at ho
  · obtain rfl : 1 = offset := by simpa using ho
    simp
  · obtain rfl : _ = offset := by simpa using ho
    simp [Expr.int]
  · simp at ho

theorem windowFunction_eq_ok {name : String} {args : List Expr} {e : Expr}
    (h : windowFunction name args = .ok e) :
    (∃ f, e = .window f (windowArgs name args) [] []) ∨
      ∃ f arg, e = .aggregate f arg false none ∧ arg.toList = windowArgs name args := by
  simp only [windowFunction] at h
  split at h
  · obtain rfl : _ = e := by simpa using h
    exact .inl ⟨_, rfl⟩
  · obtain rfl : _ = e := by simpa using h
    exact .inl ⟨_, rfl⟩
  · obtain rfl : _ = e := by simpa using h
    exact .inl ⟨_, rfl⟩
  · split at h
    · simp at h
    · exact .inl ⟨_, by simpa [windowArgs, looksAt] using shift_eq_ok h⟩
  · split at h
    · simp at h
    · exact .inl ⟨_, by simpa [windowArgs, looksAt] using shift_eq_ok h⟩
  · next hlag hlead =>
    have hargs : windowArgs name args = args.take 1 := by
      have hshift : ¬ (name = "lag" ∨ name = "lead") := not_or.mpr ⟨hlag, hlead⟩
      simp [windowArgs, looksAt, hshift]
    rw [hargs]
    split at h
    · obtain rfl : _ = e := by simpa using h
      exact .inr ⟨_, _, rfl, rfl⟩
    · obtain ⟨rfl, -⟩ := Expr.applyAggregate_eq_ok h
      exact .inr ⟨_, _, rfl, rfl⟩
    · simp at h

/-- What a window of a term comes to. -/
theorem window_eq_ok {name : String} {args ps : List Expr} {ks : List (SortKey Expr)} {f e : Expr}
    (hf : windowFunction name args = .ok f) (h : Expr.applyOver f ps ks = .ok e) :
    ∃ g, e = .window g (windowArgs name args) ps ks := by
  obtain ⟨-, ⟨g, as, ps', ks', rfl, rfl⟩ | ⟨g, arg, rfl, rfl⟩⟩ := Expr.applyOver_eq_ok h
  · rcases windowFunction_eq_ok hf with ⟨g', hg⟩ | ⟨g', arg, hg, -⟩
    · simp only [Expr.window.injEq] at hg
      exact ⟨g, by rw [hg.2.1]⟩
    · simp at hg
  · rcases windowFunction_eq_ok hf with ⟨g', hg⟩ | ⟨g', arg', hg, hargs⟩
    · simp at hg
    · simp only [Expr.aggregate.injEq] at hg
      exact ⟨.aggregate g, by rw [hg.2.1, hargs]⟩

theorem describes_column {name : String} {table : Option String} {e : Expr}
    (h : Describes scope (.column name table) e) :
    List.Forall₂ (Describes scope) [.column name table] e.own ∧ e.children = [] := by
  obtain ⟨header, -, he⟩ := bind_eq_ok.mp h
  obtain ⟨ref, t, rfl⟩ : ∃ ref t, e = .column ref t := by
    cases table with
    | none => exact Header.column_eq_ok he
    | some table =>
      obtain ⟨t, rfl⟩ := Header.columnOf_eq_ok he
      exact ⟨_, t, rfl⟩
  exact ⟨.cons h .nil, rfl⟩

theorem describes_aggregate {function : String} {arg filter : Option Term} {distinct : Bool}
    {e : Expr} (h : Describes scope (.aggregate function arg distinct filter) e) :
    ∃ f a once c, e = .aggregate f a once c ∧
      List.Forall₂ (Describes scope) arg.toList a.toList ∧
      List.Forall₂ (Describes scope) filter.toList c.toList := by
  obtain ⟨g, hg, hfilter⟩ := resolve_aggregate h
  obtain ⟨f, a, once, rfl, ha⟩ : ∃ f a once, g = .aggregate f a once none ∧
      List.Forall₂ (Describes scope) arg.toList a.toList := by
    obtain ⟨rfl, rfl⟩ | ⟨x, f, y, once, rfl, hy, hg⟩ := hg
    · exact ⟨_, none, _, rfl, .nil⟩
    · obtain ⟨rfl, -⟩ := Expr.applyAggregate_eq_ok hg
      exact ⟨f, some y, once, rfl, .cons hy .nil⟩
  obtain ⟨rfl, rfl⟩ | ⟨p, c, rfl, hc, h⟩ := hfilter
  · exact ⟨f, a, once, none, rfl, ha, .nil⟩
  · obtain ⟨-, f', a', once', hplain, rfl⟩ := Expr.withFilter_eq_ok h
    obtain ⟨rfl, rfl, rfl, -⟩ := Expr.aggregate.inj hplain
    exact ⟨f, a, once, some c, rfl, ha, .cons hc .nil⟩

/-- The expression that a term describes has at its root what the term has there, and applies to
what the operands of the term describe. The surplus arguments describe something, too. -/
def Keeps (scope : TermScope) (t : Term) (e : Expr) : Prop :=
  ∃ os ss, List.Forall₂ (Describes scope) t.operands os ∧
    List.Forall₂ (Describes scope) t.surplus ss ∧ List.Forall₂ (Describes scope) t.own e.own ∧
    e.children.Perm (os ++ if t.isBareShift then [.int 1] else [])

theorem Keeps.of_children {t : Term} {e : Expr} (ht : t.operands = t.children ∧ t.surplus = [])
    (hb : t.isBareShift = false) (hc : List.Forall₂ (Describes scope) t.children e.children)
    (ho : List.Forall₂ (Describes scope) t.own e.own) : Keeps scope t e := by
  refine ⟨e.children, [], ?_, ?_, ho, by simp [hb]⟩
  · rwa [ht.1]
  · rw [ht.2]
    exact .nil

theorem Keeps.window {name : String} {args ps : List Term} {ks : List (SortKey Term)}
    {as : List Expr} {f : WindowFunction} {qs : List Expr} {ls : List (SortKey Expr)}
    (ha : List.Forall₂ (Describes scope) args as) (hp : List.Forall₂ (Describes scope) ps qs)
    (hk : List.Forall₂ (Describes scope) (ks.map (·.expr)) (ls.map (·.expr))) :
    Keeps scope (.window name args ps ks) (.window f (windowArgs name as) qs ls) := by
  refine ⟨as.take (looksAt name) ++ qs ++ ls.map (·.expr), as.drop (looksAt name), ?_,
    List.forall₂_drop _ ha, .nil, ?_⟩
  · exact List.rel_append (List.rel_append (List.forall₂_take _ ha) hp) hk
  · simp only [Expr.children, windowArgs, isBareShift, ha.length_eq, ← Multiset.coe_eq_coe,
      ← Multiset.coe_add]
    abel

/-- Every form of a term keeps its operands; only a window function chooses among them. -/
theorem keeps_of_describes {t : Term} {e : Expr} (h : Describes scope t e) : Keeps scope t e := by
  cases t with
  | literal value dataType =>
    obtain ⟨v, -, he⟩ := bind_eq_ok.mp h
    obtain rfl : _ = e := by simpa using he
    exact .of_children ⟨rfl, rfl⟩ rfl .nil (.cons h .nil)
  | column name table =>
    obtain ⟨hown, hc⟩ := describes_column h
    exact .of_children ⟨rfl, rfl⟩ rfl (by rw [hc]; exact .nil) hown
  | unary op operand =>
    obtain ⟨a, ha, h⟩ := bind_eq_ok.mp h
    obtain rfl := Expr.applyUnary_eq_ok h
    exact .of_children ⟨rfl, rfl⟩ rfl (.cons ha .nil) .nil
  | binary op left right =>
    obtain ⟨l, hl, h⟩ := bind_eq_ok.mp h
    obtain ⟨r, hr, h⟩ := bind_eq_ok.mp h
    obtain rfl := Expr.applyBinary_eq_ok h
    exact .of_children ⟨rfl, rfl⟩ rfl (.cons hl (.cons hr .nil)) .nil
  | call function args =>
    obtain ⟨f, -, h⟩ := bind_eq_ok.mp h
    obtain ⟨as, ha, h⟩ := bind_eq_ok.mp h
    obtain ⟨rfl, -⟩ := Expr.applyFunction_eq_ok h
    exact .of_children ⟨rfl, rfl⟩ rfl (resolveAll_eq_ok.mp ha) .nil
  | extract part operand =>
    obtain ⟨a, ha, h⟩ := bind_eq_ok.mp h
    obtain rfl := Expr.applyExtract_eq_ok h
    exact .of_children ⟨rfl, rfl⟩ rfl (.cons ha .nil) .nil
  | toTimestamp operand unit =>
    obtain ⟨a, ha, h⟩ := bind_eq_ok.mp h
    obtain rfl := Expr.applyToTimestamp_eq_ok h
    exact .of_children ⟨rfl, rfl⟩ rfl (.cons ha .nil) .nil
  | inList operand values negated =>
    obtain ⟨a, ha, h⟩ := bind_eq_ok.mp h
    obtain ⟨vs, hv, h⟩ := bind_eq_ok.mp h
    obtain rfl := Expr.applyInList_eq_ok h
    refine .of_children ⟨rfl, rfl⟩ rfl (.cons ha .nil) ?_
    rw [own, Expr.own, List.forall₂_map_left_iff, List.forall₂_map_right_iff]
    refine (mapM_eq_ok.mp hv).imp fun v w hw => ?_
    simp [Describes, resolve, hw]
  | isNull operand negated =>
    obtain ⟨a, ha, h⟩ := bind_eq_ok.mp h
    obtain rfl : _ = e := by simpa using h
    exact .of_children ⟨rfl, rfl⟩ rfl (.cons ha .nil) .nil
  | cast operand target =>
    obtain ⟨a, ha, h⟩ := bind_eq_ok.mp h
    obtain rfl : _ = e := by simpa using h
    exact .of_children ⟨rfl, rfl⟩ rfl (.cons ha .nil) .nil
  | case branches otherwise =>
    obtain ⟨bs, hb, h⟩ := bind_eq_ok.mp h
    obtain ⟨o, ho, h⟩ := bind_eq_ok.mp h
    obtain ⟨rfl, -⟩ := Expr.applyCase_eq_ok h
    exact .of_children ⟨rfl, rfl⟩ rfl
      (List.rel_append (resolveBranches_eq_ok hb) (resolveOption_eq_ok ho)) .nil
  | aggregate function arg distinct filter =>
    obtain ⟨f, a, once, c, rfl, ha, hc⟩ := describes_aggregate h
    exact .of_children ⟨rfl, rfl⟩ rfl (List.rel_append ha hc) .nil
  | window function args partitionBy orderBy =>
    obtain ⟨as, ha, h⟩ := bind_eq_ok.mp h
    obtain ⟨f, hf, h⟩ := bind_eq_ok.mp h
    obtain ⟨ps, hp, h⟩ := bind_eq_ok.mp h
    obtain ⟨ks, hk, h⟩ := bind_eq_ok.mp h
    obtain ⟨g, rfl⟩ := window_eq_ok hf h
    exact .window (resolveAll_eq_ok.mp ha) (resolveAll_eq_ok.mp hp) (resolveKeys_eq_ok hk)

/-- The leaves found in an expression are what those of a term describe, but for what those
describe that are ignored and for the constants made up. -/
def Accounts (scope : TermScope) (leaves ignored : Multiset Term) (made : Nat)
    (found : Multiset Expr) : Prop :=
  ∃ as ds, Multiset.Rel (Describes scope) leaves as ∧ Multiset.Rel (Describes scope) ignored ds ∧
    found + ds = as + Multiset.replicate made (.int 1)

namespace Accounts

theorem zero : Accounts scope 0 0 0 0 := ⟨0, 0, .zero, .zero, rfl⟩

theorem add {l l' i i' : Multiset Term} {n n' : Nat} {f f' : Multiset Expr}
    (h : Accounts scope l i n f) (h' : Accounts scope l' i' n' f') :
    Accounts scope (l + l') (i + i') (n + n') (f + f') := by
  obtain ⟨as, ds, ha, hd, hf⟩ := h
  obtain ⟨as', ds', ha', hd', hf'⟩ := h'
  refine ⟨as + as', ds + ds', ha.add ha', hd.add hd', ?_⟩
  rw [Multiset.replicate_add, add_add_add_comm, hf, hf', add_add_add_comm]

theorem of_forall₂ {ts : List Term} {es : List Expr} (h : List.Forall₂ (Describes scope) ts es) :
    Accounts scope ts 0 0 es := by
  refine ⟨es, 0, ?_, .zero, by simp⟩
  induction h with
  | nil => exact .zero
  | cons hte _ ih => exact .cons hte ih

theorem made (b : Bool) : Accounts scope 0 0 (if b then 1 else 0) (if b then {.int 1} else 0) := by
  refine ⟨0, 0, .zero, .zero, ?_⟩
  cases b <;> simp

/-- Leaves that describe something can be ignored as a whole. -/
theorem ignore {l i : Multiset Term} {n : Nat} {f : Multiset Expr} (h : Accounts scope l i n f) :
    Accounts scope l l 0 0 := by
  obtain ⟨as, -, ha, -, -⟩ := h
  exact ⟨as, as, ha, ha, by simp⟩

theorem sum {ts : List Term} {es : List Expr}
    (h : List.Forall₂ (fun t e => Accounts scope t.leaves t.ignored t.bareShifts e.leaves) ts es) :
    Accounts scope (ts.map leaves).sum (ts.map ignored).sum (ts.map bareShifts).sum
      (es.map Expr.leaves).sum := by
  induction h with
  | nil => exact zero
  | cons hte _ ih => simpa using hte.add ih

end Accounts

/-- By induction on the term: what one step keeps, the terms below keep. -/
theorem accounts_of_describes {t : Term} {e : Expr} (h : Describes scope t e) :
    Accounts scope t.leaves t.ignored t.bareShifts e.leaves := by
  induction t using induct generalizing e with
  | step t ih =>
    obtain ⟨os, ss, ho, hs, hown, hc⟩ := keeps_of_describes h
    have below : ∀ {ts : List Term} {es : List Expr}, (∀ c ∈ ts, c ∈ t.children) →
        List.Forall₂ (Describes scope) ts es →
        Accounts scope (ts.map leaves).sum (ts.map ignored).sum (ts.map bareShifts).sum
          (es.map Expr.leaves).sum := fun hts hf =>
      .sum (((List.forall₂_and_left _ _).mpr ⟨hts, hf⟩).imp fun c x hcx => ih c hcx.1 hcx.2)
    have hoperands := below (fun c => mem_children_of_mem_operands) ho
    -- surplus arguments count among the leaves and, with all their leaves, among the ignored ones
    have hsurplus := (below (fun c => mem_children_of_mem_surplus) hs).ignore
    have htotal := ((Accounts.of_forall₂ hown).add hoperands).add
      (hsurplus.add (.made t.isBareShift))
    have hleaves : t.leaves = t.own + (t.operands.map leaves).sum + (t.surplus.map leaves).sum := by
      rw [leaves_eq, (t.children_perm.map leaves).sum_eq, List.map_append, List.sum_append,
        add_assoc]
    have hfound : e.leaves = e.own + (os.map Expr.leaves).sum +
        if t.isBareShift then {.int 1} else 0 := by
      rw [Expr.leaves_eq, (hc.map Expr.leaves).sum_eq, List.map_append, List.sum_append,
        ← add_assoc]
      split <;> simp [Expr.leaves_int]
    rw [hleaves, hfound, ignored_eq, bareShifts_eq]
    simp only [add_zero, zero_add] at htotal
    rwa [add_comm (t.operands.map ignored).sum, add_comm (t.operands.map bareShifts).sum] at htotal

/-- The columns and constants of a term and those of the expression that it describes are the same,
as often as they occur, apart from those in surplus arguments, which the expression does without,
and from the ones that are made the offsets of shifts without an offset. -/
theorem resolve_leaves {t : Term} {e : Expr} (h : t.resolve scope = .ok e) :
    ∃ as ds, Multiset.Rel (fun l a => l.resolve scope = .ok a) t.leaves as ∧
      Multiset.Rel (fun l a => l.resolve scope = .ok a) t.ignored ds ∧
      e.leaves + ds = as + Multiset.replicate t.bareShifts (.int 1) :=
  accounts_of_describes h

/-- The columns of readings taken by sensors. -/
def readings : TermScope :=
  .single (.make (some "readings") [⟨"sensor", .int64, true⟩, ⟨"level", .float64, true⟩] [])

/-- Whether the level of a sensor was the one before. -/
def unchanged : Term :=
  .binary .eq (.column "level" none)
    (.window "lag" [.column "level" none] [.column "sensor" (some "readings")] [])

/-- The columns are all there, and one row is made the offset. -/
theorem unchanged_leaves : unchanged.bareShifts = 1 ∧ unchanged.ignored = 0 ∧
    ∃ e as ds, unchanged.resolve readings = .ok e ∧
      Multiset.Rel (fun l a => l.resolve readings = .ok a) unchanged.leaves as ∧
      Multiset.Rel (fun l a => l.resolve readings = .ok a) unchanged.ignored ds ∧
      e.leaves + ds = as + Multiset.replicate unchanged.bareShifts (.int 1) := by
  have h : unchanged.resolve readings = .ok _ := rfl
  obtain ⟨as, ds, has, hds, hleaves⟩ := resolve_leaves h
  refine ⟨?_, ?_, _, as, ds, h, has, hds, hleaves⟩
  · simp [unchanged, bareShifts_eq, isBareShift, operands, looksAt, children]
  · simp [unchanged, ignored_eq, surplus, operands, looksAt, children]

/-- The number of a row in the order of the levels. -/
def levelNumber : Term := .window "row_number" [.column "level" none] [] []

/-- A column that is an argument where none is looked at is not in the expression. -/
theorem levelNumber_loses_leaf : levelNumber.leaves = {.column "level" none} ∧
    ∃ e, levelNumber.resolve readings = .ok e ∧ e.leaves = 0 :=
  ⟨by simp [levelNumber, leaves_eq, own, children], _, rfl, rfl⟩

end Term

end PlanSql
