import PlanSql.Proofs.Expr.Made
import PlanSql.Proofs.Fragment.Lowering
import PlanSql.Proofs.Semantics.Meaning

/-!
# Lowering keeps values

If each single step from plans to SQL keeps values, then so does the lowering of a whole expression:
above columns, aggregates and window functions by the structure of the expression, and at an
aggregate or a window function because the rows it is evaluated over correspond.
-/
namespace PlanSql

variable {V : Type} [DecidableEq V]

namespace Template

variable (D : Domain V) (S : Sql.Operations V) (vs : List V)

mutual

/-- The value of a template, given the values of the arguments. -/
def value : Template → V
  | .arg index => vs.getD index D.null
  | .args => D.null
  | .int value => D.constant (.int value)
  | .number text => S.number text
  | .string value => D.constant (.text value)
  | .call name items => S.call name (values items)
  | .extract field operand => S.extract field operand.value
  | .cast operand typeName => S.cast typeName operand.value
  | .binary op left right => S.apply D op left.value right.value

def values : List Template → List V
  | [] => []
  | .args :: rest => vs ++ values rest
  | item :: rest => item.value :: values rest

end

end Template

/-- Each single step from plans to the SQL of a dialect keeps values: the step of an operator, of a
rule, of a type as the target of a cast, of an aggregate and of a window function. -/
structure Meaning.Keeps (M : Meaning V) (d : Dialect) : Prop where
  negate (v : V) : M.sql.minus v = M.plan.negate v
  binary {op : BinaryOp} {l r : DataType} (ht : (Target.builtin d).truncates op l r = false)
    (hl : op.isLogical = false) (v w : V) : M.sql.binary op.sql v w = M.plan.binary op l r v w
  division {l r : DataType} {double : String}
    (ht : (Target.builtin d).truncates .div l r = true)
    (hd : d.castTypeName? .float64 = some double) (v w : V) :
    M.sql.binary .divide (M.sql.cast double v) w = M.plan.binary .div l r v w
  /-- A comparison of two constants stands for membership in no values. -/
  noValues (negated : Bool) : M.sql.binary .eq M.one
    (M.constant (.int (if negated then 1 else 0))) = M.bool negated
  function {f : ScalarFunction} {vs : List V} {T : Template}
    (hT : RuleTable.builtin.resolve (f.ruleName vs.length) d = .ok (.template T)) :
    T.value M.toDomain M.sql vs = M.plan.function f vs
  extract {p : DatePart} {T : Template}
    (hT : RuleTable.builtin.resolve p.ruleName d = .ok (.template T)) (v : V) :
    T.value M.toDomain M.sql [v] = M.plan.extract p v
  toTimestamp {u : TimeUnit} {T : Template}
    (hT : RuleTable.builtin.resolve u.ruleName d = .ok (.template T)) (v : V) :
    T.value M.toDomain M.sql [v] = M.plan.toTimestamp u v
  cast {target : DataType} {name : String} (hn : d.castTypeName? target = some name) (v : V) :
    M.sql.cast name v = M.plan.cast target v
  aggregate (f : AggregateFunction) : M.sql.aggregate f.sqlName = M.plan.aggregate f
  window (f : WindowFunction) : M.sql.window f.sqlName = M.plan.window f

variable {M : Meaning V} {d : Dialect} {ρ σ : Type}

namespace Expr

variable {look : ColumnRef → ρ → V} {frame : Multiset (Focus ρ)}

theorem evalAll_eq (es : List Expr) (x : Focus ρ) :
    evalAll M look frame es x = es.map (eval M look frame · x) := by
  induction es with
  | nil => rfl
  | cons e rest ih => simp [evalAll, ih]

theorem evalKeys_eq (ks : List (SortKey Expr)) (x : Focus ρ) :
    evalKeys M look frame ks x = ks.map fun k => (eval M look frame k.expr x, k.descending) := by
  induction ks with
  | nil => rfl
  | cons k rest ih => simp [evalKeys, ih]

end Expr

namespace Sql.Expr

variable {look : Reference → σ → V} {frame frame' : Multiset (Focus σ)} {x : Focus σ}

theorem evalAll_eq (es : List Sql.Expr) (x : Focus σ) :
    evalAll M look frame es x = es.map (eval M look frame · x) := by
  induction es with
  | nil => rfl
  | cons e rest ih => simp [evalAll, ih]

theorem evalKeys_eq (ks : List (SortKey Sql.Expr)) (x : Focus σ) :
    evalKeys M look frame ks x = ks.map fun k => (eval M look frame k.expr x, k.descending) := by
  induction ks with
  | nil => rfl
  | cons k rest ih => simp [evalKeys, ih]

theorem evalCase_congr {branches : List (Expr × Expr)} {x' : Focus σ} {v w : V}
    (h : ∀ b ∈ branches, b.1.eval M look frame x = b.1.eval M look frame' x' ∧
      b.2.eval M look frame x = b.2.eval M look frame' x') (hvw : v = w) :
    evalCase M look frame branches x v = evalCase M look frame' branches x' w := by
  induction branches with
  | nil => exact hvw
  | cons b rest ih =>
    obtain ⟨hb, hrest⟩ := List.forall_mem_cons.mp h
    obtain ⟨c, r⟩ := b
    simp only [evalCase, hb.1, hb.2, ih hrest]

/-- Without a window the value does not depend on the frame, and without an aggregate not on the
group. -/
theorem eval_congr {e : Expr} (hw : e.windows = false) {x x' : Focus σ} (hrow : x.row = x'.row)
    (hg : e.aggregates = false ∨ x.group = x'.group) :
    e.eval M look frame x = e.eval M look frame' x' := by
  induction e using induct generalizing x x' with
  | step e ih =>
    have below : ∀ c ∈ e.children, ∀ {x x' : Focus σ}, x.row = x'.row →
        (c.aggregates = false ∨ x.group = x'.group) →
        c.eval M look frame x = c.eval M look frame' x' :=
      fun c hc => ih c hc (windows_of_child hc hw)
    have here : ∀ c ∈ e.children, c.eval M look frame x = c.eval M look frame' x' :=
      fun c hc => below c hc hrow (hg.imp_left (aggregates_of_child hc))
    have hereAll : ∀ es : List Expr, (∀ c ∈ es, c ∈ e.children) →
        evalAll M look frame es x = evalAll M look frame' es x' := by
      intro es hes
      rw [evalAll_eq, evalAll_eq]
      exact List.map_congr_left fun c hc => here c (hes c hc)
    have hereOr : ∀ (v : V) (o : Option Expr), (∀ c ∈ o, c ∈ e.children) →
        evalOr M look frame v o x = evalOr M look frame' v o x' := by
      intro v o ho
      cases o with
      | none => rfl
      | some c => exact here c (ho c rfl)
    cases e with
    | column q n => simp only [eval, hrow]
    | literal l => cases l <;> rfl
    | star => rfl
    | unary op operand =>
      have hv := here operand (by simp [children])
      cases op <;> simp only [eval, hv]
    | extract field operand | isNull operand negated | cast operand typeName =>
      simp only [eval, here operand (by simp [children])]
    | binary op left right =>
      simp only [eval, here left (by simp [children]), here right (by simp [children])]
    | inList operand list negated =>
      simp only [eval, here operand (by simp [children]),
        hereAll list fun c hc => by simp [children, hc]]
    | case branches otherwise =>
      rw [eval, eval]
      refine evalCase_congr (fun b hb => ?_) (hereOr _ _ fun c hc => ?_)
      · have hmem : ∀ c ∈ [b.1, b.2], c ∈ (Expr.case branches otherwise).children := fun c hc =>
          List.mem_append_left _ (List.mem_flatMap.mpr ⟨b, hb, hc⟩)
        exact ⟨here b.1 (hmem b.1 (by simp)), here b.2 (hmem b.2 (by simp))⟩
      · exact List.mem_append_right _ (Option.mem_toList.mpr hc)
    | call name args distinct filter window =>
      cases window with
      | some w => simpa [isWindowCall] using windows_eq_false.mp hw _ (mem_parts_self _)
      | none =>
        cases hname : aggregateNames.contains name with
        | false =>
          have hargs := hereAll args fun c hc => by simp [children, hc]
          simp only [eval, hname, Bool.false_eq_true, if_false, hargs]
        | true =>
          -- the call is about the group, where each row is looked at by itself
          have hgroup : x.group = x'.group := by
            apply hg.resolve_left
            intro ha
            have hcall := aggregates_eq_false.mp ha _ (mem_parts_self _)
            exact absurd (hname.symm.trans hcall) (by simp)
          have hargs : ∀ row, evalAll M look frame args (.single row) =
              evalAll M look frame' args (.single row) := by
            intro row
            rw [evalAll_eq, evalAll_eq]
            exact List.map_congr_left fun c hc =>
              below c (by simp [children, hc]) rfl (.inr rfl)
          have hfilter : ∀ row, evalOr M look frame (M.bool true) filter (.single row) =
              evalOr M look frame' (M.bool true) filter (.single row) := by
            intro row
            cases filter with
            | none => rfl
            | some c => exact below c (by simp [children]) rfl (.inr rfl)
          simp only [eval, hname, if_true, hgroup, hargs, hfilter]

end Sql.Expr

namespace Template

variable {look : Sql.Expr.Reference → σ → V} {frame : Multiset (Focus σ)} {x : Focus σ}
  {args : List Sql.Expr}

omit [DecidableEq V] in
theorem values_cons (vs : List V) (item : Template) (rest : List Template) :
    values M.toDomain M.sql vs (item :: rest) =
      (match item with
        | .args => vs
        | item => [item.value M.toDomain M.sql vs]) ++ values M.toDomain M.sql vs rest := by
  cases item <;> simp [values]

mutual

/-- An expansion is worth what the template is worth for the values of the arguments. -/
theorem eval_expand : ∀ {T : Template} {s : Sql.Expr}, T.expand args = .ok s →
    (∀ name ∈ T.callNames, name ∉ Sql.Expr.aggregateNames) →
    s.eval M look frame x = T.value M.toDomain M.sql (args.map fun a => a.eval M look frame x)
  | .arg index, s, h, _ => by
    simp only [expand] at h
    split at h
    · next e he =>
      obtain rfl : e = s := by simpa using h
      simp [value, he]
    · simp at h
  | .args, s, h, _ => by simp [expand] at h
  | .int value, s, h, _ | .string value, s, h, _ | .number value, s, h, _ => by
    obtain rfl : _ = s := by simpa [expand] using h
    rfl
  | .call name items, s, h, hn => by
    obtain ⟨ss, hss, h⟩ := bind_eq_ok.mp h
    obtain rfl : _ = s := by simpa using h
    simp only [callNames, List.forall_mem_cons] at hn
    simp only [Sql.Expr.apply, Sql.Expr.eval, value, List.contains_iff_mem, hn.1, if_false,
      Sql.Expr.evalAll_eq]
    rw [evalAll_expandItems hss hn.2]
  | .extract field operand, s, h, hn | .cast operand field, s, h, hn => by
    obtain ⟨o, ho, h⟩ := bind_eq_ok.mp h
    obtain rfl : _ = s := by simpa using h
    simp only [Sql.Expr.eval, value, eval_expand ho hn]
  | .binary op left right, s, h, hn => by
    obtain ⟨l, hl, h⟩ := bind_eq_ok.mp h
    obtain ⟨r, hr, h⟩ := bind_eq_ok.mp h
    obtain rfl : _ = s := by simpa using h
    obtain ⟨hnl, hnr⟩ := List.forall_mem_append.mp hn
    simp only [Sql.Expr.eval, value, eval_expand hl hnl, eval_expand hr hnr]

theorem evalAll_expandItems : ∀ {items : List Template} {ss : List Sql.Expr},
    expandItems args items = .ok ss →
    (∀ name ∈ callNamesOf items, name ∉ Sql.Expr.aggregateNames) →
    ss.map (fun s => s.eval M look frame x) =
      values M.toDomain M.sql (args.map fun a => a.eval M look frame x) items
  | [], ss, h, _ => by
    obtain rfl : [] = ss := by simpa [expandItems] using h
    rfl
  | item :: rest, ss, h, hn => by
    rw [expandItems_cons] at h
    obtain ⟨first, hf, h⟩ := bind_eq_ok.mp h
    obtain ⟨others, ho, h⟩ := bind_eq_ok.mp h
    obtain rfl : first ++ others = ss := by simpa using h
    obtain ⟨hni, hnr⟩ := List.forall_mem_append.mp hn
    rw [List.map_append, evalAll_expandItems ho hnr, values_cons]
    congr 1
    rcases expandItem_eq_ok hf with ⟨rfl, rfl⟩ | ⟨s, hs, rfl⟩
    · rfl
    · split
      · simp [expand] at hs
      · simp [eval_expand hs hni]

end

end Template

namespace Expr

/-- The values of columns, aggregates and window functions come from outside of the expression. -/
def isLeaf (e : Expr) : Bool := e.column?.isSome || e.isAggregate || e.isWindow

theorem isLeaf_of_isAggregate {e : Expr} (h : e.isAggregate = true) : e.isLeaf = true := by
  simp [isLeaf, h]

theorem isLeaf_of_isWindow {e : Expr} (h : e.isWindow = true) : e.isLeaf = true := by
  simp [isLeaf, h]

variable {lookP : ColumnRef → ρ → V} {lookS : Sql.Expr.Reference → σ → V}
  {frameP : Multiset (Focus ρ)} {frameS : Multiset (Focus σ)} {p : Focus ρ} {x : Focus σ}
  {scope : Scope}

theorem evalCase_eq {branches : List (Expr × Expr)} {bs : List (Sql.Expr × Sql.Expr)} {v w : V}
    (h : List.Forall₂ (fun b s => s.1.eval M lookS frameS x = b.1.eval M lookP frameP p ∧
      s.2.eval M lookS frameS x = b.2.eval M lookP frameP p) branches bs) (hvw : v = w) :
    Sql.Expr.evalCase M lookS frameS bs x v = evalCase M lookP frameP branches p w := by
  induction h with
  | nil => exact hvw
  | @cons b s branches bs hb _ ih =>
    obtain ⟨bc, br⟩ := b
    obtain ⟨sc, sr⟩ := s
    simp only [Sql.Expr.evalCase, evalCase, hb.1, hb.2, ih]

theorem evalOr_eq {o : Option Expr} {so : Option Sql.Expr} {v : V}
    (h : List.Forall₂ (fun e s => s.eval M lookS frameS x = e.eval M lookP frameP p)
      o.toList so.toList) :
    Sql.Expr.evalOr M lookS frameS v so x = evalOr M lookP frameP v o p := by
  cases o with
  | none =>
    cases so with
    | none => rfl
    | some s => simp at h
  | some e =>
    cases so with
    | none => simp at h
    | some s => simpa [Sql.Expr.evalOr, evalOr] using h

theorem map_eval_eq {es : List Expr} {ss : List Sql.Expr}
    (h : List.Forall₂ (fun e s => s.eval M lookS frameS x = e.eval M lookP frameP p) es ss) :
    ss.map (fun s => s.eval M lookS frameS x) = es.map fun e => e.eval M lookP frameP p := by
  induction h with
  | nil => rfl
  | cons h _ ih => simp [h, ih]

theorem map_keys_eq {es : List (SortKey Expr)} {ss : List (SortKey Sql.Expr)}
    (h : List.Forall₂ (fun k s => s.expr.eval M lookS frameS x = k.expr.eval M lookP frameP p ∧
      k.descending = s.descending) es ss) :
    Sql.Expr.evalKeys M lookS frameS ss x = evalKeys M lookP frameP es p := by
  rw [Sql.Expr.evalKeys_eq, evalKeys_eq]
  induction h with
  | nil => rfl
  | cons h _ ih => simp [h.1, h.2, ih]

theorem eval_constants {t : Target} {e : Expr} {vs : List Value} {cs : List Sql.Expr}
    (h : List.Forall₂ (fun v c => t.constant e v = .ok c) vs cs) :
    cs.map (fun c => c.eval M lookS frameS x) = vs.map M.constant := by
  induction h with
  | nil => rfl
  | cons hc _ ih =>
    obtain rfl := Target.constant_eq_ok hc
    simp only [List.map_cons, ih]
    rfl

theorem eval_row {fn : String} {n : Nat} {e : Expr} {es : List Expr} {ss : List Sql.Expr}
    {s : Sql.Expr} (hfn : (fn, n) ∈ RuleTable.rowFunctions)
    (h : (Target.builtin d).call e fn ss = .ok s)
    (hes : List.Forall₂ (fun e s => s.eval M lookS frameS x = e.eval M lookP frameP p) es ss) :
    ∃ T, RuleTable.builtin.resolve fn d = .ok (.template T) ∧
      s.eval M lookS frameS x =
        T.value M.toDomain M.sql (es.map fun e => e.eval M lookP frameP p) := by
  obtain ⟨T, hT, hs⟩ := Target.call_eq_ok.mp h
  obtain ⟨T', hT', -, hn⟩ := Target.resolve_row d hfn (Nat.le_refl n)
  obtain rfl : T = T' := by
    have := hT.symm.trans hT'
    simpa using this
  exact ⟨T, hT, by rw [Template.eval_expand hs hn, map_eval_eq hes]⟩

/-- The SQL of an expression is worth what the expression is worth, if this is so for the columns,
aggregates and window functions in it. -/
theorem eval_lower_of_leaves (hM : M.Keeps d) {e : Expr} {s : Sql.Expr}
    (h : e.lower (Target.builtin d) scope = .ok s)
    (hl : ∀ q ∈ e.walk isLeaf, q.isLeaf = true → ∀ s', q.lower (Target.builtin d) scope = .ok s' →
      s'.eval M lookS frameS x = q.eval M lookP frameP p) :
    s.eval M lookS frameS x = e.eval M lookP frameP p := by
  induction e using induct generalizing s with
  | step e ih =>
    by_cases hleaf : e.isLeaf = true
    · exact hl e (mem_walk_self _ e) hleaf s h
    · have hleaf : e.isLeaf = false := by simpa using hleaf
      have below : ∀ c ∈ e.children, ∀ s', c.lower (Target.builtin d) scope = .ok s' →
          s'.eval M lookS frameS x = c.eval M lookP frameP p :=
        fun c hc s' hs' => ih c hc hs' fun q hq => hl q (mem_walk_of_child hleaf hc hq)
      have belowAll : ∀ (es : List Expr) {ss : List Sql.Expr}, (∀ c ∈ es, c ∈ e.children) →
          List.Forall₂ (fun e s => e.lower (Target.builtin d) scope = .ok s) es ss →
          List.Forall₂ (fun e s => s.eval M lookS frameS x = e.eval M lookP frameP p) es ss := by
        intro es ss hes hf
        have hf := (List.forall₂_and_left es ss).mpr ⟨hes, hf⟩
        exact hf.imp fun c s hcs => below c hcs.1 s hcs.2
      have h := lower_eq_ok.mp h
      cases e with
      | column ref type => simp [isLeaf, column?] at hleaf
      | aggregate f arg distinct filter => simp [isLeaf, isAggregate] at hleaf
      | window f args ps ks => simp [isLeaf, isWindow] at hleaf
      | literal v =>
        obtain rfl := Target.constant_eq_ok h
        rfl
      | unary op operand =>
        obtain ⟨a, ha, rfl⟩ := h
        have hv := below operand (by simp [children]) a ha
        cases op <;> simp [UnaryOp.sql, Sql.Expr.eval, eval, hv, hM.negate]
      | isNull operand negated =>
        obtain ⟨a, ha, rfl⟩ := h
        have hv := below operand (by simp [children]) a ha
        simp [Sql.Expr.eval, eval, hv]
      | binary op left right =>
        obtain ⟨l, r, hl, hr, h⟩ := h
        have hvl := below left (by simp [children]) l hl
        have hvr := below right (by simp [children]) r hr
        unfold Target.binary at h
        cases ht : (Target.builtin d).truncates op left.dataType right.dataType with
        | true =>
          obtain rfl : op = .div := by
            simp only [Target.truncates, Bool.and_eq_true, decide_eq_true_eq] at ht
            exact ht.1.1.1
          rw [ht, if_pos rfl] at h
          obtain ⟨double, hd, h⟩ := bind_eq_ok.mp h
          obtain rfl : _ = s := by simpa using h
          have hd := Target.castType_eq_ok hd
          simp only [BinaryOp.sql, Sql.Expr.eval, eval, Sql.Operations.apply, Operations.apply,
            hvl, hvr]
          exact hM.division ht hd _ _
        | false =>
          rw [ht, if_neg (by simp)] at h
          obtain rfl : _ = s := by simpa using h
          simp only [Sql.Expr.eval, eval, hvl, hvr]
          cases hop : op.isLogical with
          | true => cases op <;> first | rfl | simp [BinaryOp.isLogical] at hop
          | false =>
            have hb := hM.binary ht hop (eval M lookP frameP left p) (eval M lookP frameP right p)
            cases op <;> first | exact hb | simp [BinaryOp.isLogical] at hop
      | function f args =>
        obtain ⟨as, has, h⟩ := h
        obtain ⟨n, -, hn⟩ := scalar_mem_rowFunctions f args.length
        obtain ⟨T, hT, hv⟩ := eval_row hn h (belowAll args (fun c hc => hc) has)
        rw [hv, eval, evalAll_eq]
        exact hM.function (by simpa using hT)
      | extract part operand =>
        obtain ⟨a, ha, h⟩ := h
        obtain ⟨T, hT, hv⟩ := eval_row (datePart_mem_rowFunctions part) h
          (belowAll [operand] (by simp [children]) (.cons ha .nil))
        rw [hv, eval]
        exact hM.extract hT _
      | toTimestamp operand unit =>
        obtain ⟨a, ha, h⟩ := h
        obtain ⟨T, hT, hv⟩ := eval_row (timeUnit_mem_rowFunctions unit) h
          (belowAll [operand] (by simp [children]) (.cons ha .nil))
        rw [hv, eval]
        exact hM.toTimestamp hT _
      | inList operand values negated =>
        cases values with
        | nil =>
          obtain rfl := h
          have hno := hM.noValues negated
          cases negated <;> exact hno
        | cons v vs =>
          obtain ⟨a, cs, ha, hcs, rfl⟩ := h
          have hv := below operand (by simp [children]) a ha
          simp only [Sql.Expr.eval, eval, hv, Sql.Expr.evalAll_eq, eval_constants hcs]
      | cast operand target =>
        obtain ⟨a, name, ha, hn, rfl⟩ := h
        have hv := below operand (by simp [children]) a ha
        simp only [Sql.Expr.eval, eval, hv]
        exact hM.cast (Target.castType_eq_ok hn) _
      | case branches otherwise =>
        obtain ⟨bs, o, hbs, ho, rfl⟩ := h
        have hb : ∀ b ∈ branches, b.1 ∈ (Expr.case branches otherwise).children ∧
            b.2 ∈ (Expr.case branches otherwise).children := by
          intro b hb
          simp only [children, List.mem_append, List.mem_flatMap]
          exact ⟨.inl ⟨b, hb, by simp⟩, .inl ⟨b, hb, by simp⟩⟩
        have hbs := (List.forall₂_and_left branches bs).mpr ⟨hb, hbs⟩
        rw [Sql.Expr.eval, eval]
        refine evalCase_eq (hbs.imp fun b s hbs => ?_) (evalOr_eq ?_)
        · exact ⟨below b.1 hbs.1.1 s.1 hbs.2.1, below b.2 hbs.1.2 s.2 hbs.2.2⟩
        · exact belowAll _ (fun c hc => List.mem_append_right _ hc) ho

/-- Each column of an expression is worth at one row what it stands for is worth at the other. -/
def Agrees (M : Meaning V) (scope : Scope) (lookP : ColumnRef → ρ → V)
    (lookS : Sql.Expr.Reference → σ → V) (frame : Multiset (Focus σ)) (e : Expr) (x : Focus σ)
    (row : ρ) : Prop :=
  ∀ ref ∈ e.columnRefs, ∀ c, scope.column ref = .ok c → c.eval M lookS frame x = lookP ref row

theorem Agrees.child {e c : Expr} {row : ρ} (h : Agrees M scope lookP lookS frameS e x row)
    (hc : c ∈ e.children) : Agrees M scope lookP lookS frameS c x row :=
  fun ref hr => h ref (mem_columnRefs_of_child hc hr)

/-- The SQL of a row-level expression is worth what the expression is worth, whatever the rows
around it are. -/
theorem eval_lower_row (hM : M.Keeps d) {e : Expr} {s : Sql.Expr}
    (h : e.lower (Target.builtin d) scope = .ok s) (hr : e.isRowLevel = true)
    (hc : Agrees M scope lookP lookS frameS e x p.row) :
    s.eval M lookS frameS x = e.eval M lookP frameP p := by
  apply eval_lower_of_leaves hM h
  intro q hq hl s' hs'
  obtain ⟨ha, hw⟩ := isRowLevel_iff.mp hr q (mem_parts_of_mem_walk hq)
  cases q with
  | column ref type =>
    exact hc ref (mem_columnRefs.mpr ⟨type, mem_parts_of_mem_walk hq⟩) s' hs'
  | aggregate => simp [isAggregate] at ha
  | window => simp [isWindow] at hw
  | _ => simp [isLeaf, column?, isAggregate, isWindow] at hl

theorem evalOr_lower_row (hM : M.Keeps d) {o : Option Expr} {so : Option Sql.Expr} (v : V)
    (h : List.Forall₂ (fun e s => e.lower (Target.builtin d) scope = .ok s) o.toList so.toList)
    (hr : ∀ e ∈ o, e.isRowLevel = true)
    (hc : ∀ e ∈ o, Agrees M scope lookP lookS frameS e x p.row) :
    Sql.Expr.evalOr M lookS frameS v so x = evalOr M lookP frameP v o p := by
  refine evalOr_eq ?_
  have hmem : ∀ e ∈ o.toList, e ∈ o := fun e he => Option.mem_toList.mp he
  exact ((List.forall₂_and_left _ _).mpr ⟨hmem, h⟩).imp fun e s hes =>
    eval_lower_row hM hes.2 (hr e hes.1) (hc e hes.1)

/-- An aggregate without a FILTER clause sees nothing where the condition does not hold. -/
theorem collect_guarded {α : Type} (distinct : Bool) (keep : α → Bool) (value : α → V)
    (rows : Multiset α) :
    M.collect distinct (rows.map fun a => if keep a then value a else M.null) =
      M.collect distinct ((rows.filter fun a => keep a).map value) := by
  have h : ((rows.map fun a => if keep a then value a else M.null).filter (· ≠ M.null)) =
      (((rows.filter fun a => keep a).map value).filter (· ≠ M.null)) := by
    simp only [Multiset.filter_map, Multiset.filter_filter, Function.comp_def]
    have hf : (rows.filter fun a => (if keep a then value a else M.null) ≠ M.null) =
        rows.filter fun a => value a ≠ M.null ∧ keep a := by
      apply Multiset.filter_congr
      intro a _
      cases keep a <;> simp
    rw [hf]
    apply Multiset.map_congr rfl
    intro a ha
    rw [if_pos (Multiset.mem_filter.mp ha).2.2]
  unfold Domain.collect
  simp only [h]

/-- The SQL of an aggregate is worth what the aggregate is worth over corresponding rows. -/
theorem eval_lower_aggregate (hM : M.Keeps d) {f : AggregateFunction} {arg filter : Option Expr}
    {distinct : Bool} {s : Sql.Expr} {rowOf : σ → ρ}
    (h : (Expr.aggregate f arg distinct filter).lower (Target.builtin d) scope = .ok s)
    (hf : Formed (.aggregate f arg distinct filter)) (hg : p.group = x.group.map rowOf)
    (hc : ∀ y ∈ x.group, Agrees M scope lookP lookS frameS (.aggregate f arg distinct filter)
      (.single y) (rowOf y)) :
    s.eval M lookS frameS x = (Expr.aggregate f arg distinct filter).eval M lookP frameP p := by
  obtain ⟨a, c, ha, hcond, h⟩ := lower_eq_ok.mp h
  obtain rfl := Target.aggregate_builtin rfl h
  obtain ⟨-, harg, hfilter⟩ := hf
  have hchild : ∀ e, e ∈ arg ∨ e ∈ filter →
      e ∈ (Expr.aggregate f arg distinct filter).children := by
    intro e he
    simpa [children] using he
  have hargs : ∀ y ∈ x.group, Sql.Expr.evalOr M lookS frameS M.one a (.single y) =
      evalOr M lookP frameP M.one arg (.single (rowOf y)) := fun y hy =>
    evalOr_lower_row hM _ ha harg fun e he => (hc y hy).child (hchild e (.inl he))
  have hconds : ∀ y ∈ x.group, Sql.Expr.evalOr M lookS frameS (M.bool true) c (.single y) =
      evalOr M lookP frameP (M.bool true) filter (.single (rowOf y)) := fun y hy =>
    evalOr_lower_row hM _ hcond hfilter fun e he => (hc y hy).child (hchild e (.inr he))
  have hstar : ∀ y, (a.getD .star).eval M lookS frameS (.single y) =
      Sql.Expr.evalOr M lookS frameS M.one a (.single y) := by
    intro y
    cases a <;> rfl
  have hname : Sql.Expr.aggregateNames.contains f.sqlName = true :=
    List.contains_iff_mem.mpr f.sqlName_mem
  -- both sides collect the arguments of the rows that are kept
  have hrows : M.collect distinct ((p.group.filter fun row =>
        M.holds (evalOr M lookP frameP (M.bool true) filter (.single row))).map fun row =>
          evalOr M lookP frameP M.one arg (.single row)) =
      M.collect distinct ((x.group.filter fun y =>
        M.holds (Sql.Expr.evalOr M lookS frameS (M.bool true) c (.single y))).map fun y =>
          Sql.Expr.evalOr M lookS frameS M.one a (.single y)) := by
    rw [hg, Multiset.filter_map, Multiset.map_map]
    have hfc : (x.group.filter fun y =>
        M.holds (Sql.Expr.evalOr M lookS frameS (M.bool true) c (.single y))) =
        x.group.filter ((fun row => (M.holds (evalOr M lookP frameP (M.bool true) filter
          (.single row)) : Prop)) ∘ rowOf) :=
      Multiset.filter_congr fun y hy => by rw [hconds y hy, Function.comp_apply]
    rw [hfc]
    refine congrArg _ (Multiset.map_congr rfl fun y hy => ?_)
    rw [hargs y (Multiset.mem_filter.mp hy).1, Function.comp_apply]
  rw [eval, Sql.Expr.eval, if_pos hname, hM.aggregate, hrows]
  refine congrArg _ ?_
  cases hs : (Target.builtin d).descriptor.supportsFilterClause with
  | true =>
    have harg : (Target.builtin d).aggregateArg a c = a.getD .star := by
      cases c <;> simp [Target.aggregateArg, hs]
    simp only [Target.aggregateFilter, hs, if_true, harg, Sql.Expr.evalAll, List.headD_cons, hstar]
  | false =>
    cases c with
    | none =>
      have harg : (Target.builtin d).aggregateArg a none = a.getD .star := rfl
      simp only [Target.aggregateFilter, hs, Bool.false_eq_true, if_false, harg, Sql.Expr.evalAll,
        List.headD_cons, hstar]
    | some c =>
      have hguard : ∀ y, ((Target.builtin d).aggregateArg a (some c)).eval M lookS frameS
          (.single y) = if M.holds (c.eval M lookS frameS (.single y)) then
            Sql.Expr.evalOr M lookS frameS M.one a (.single y) else M.null := by
        intro y
        simp only [Target.aggregateArg, hs, Bool.false_eq_true, if_false, Target.guarded,
          Sql.Expr.eval, Sql.Expr.evalCase, Sql.Expr.evalOr]
        cases a <;> rfl
      have htrue : M.holds (M.bool true) = true := by simp [Domain.holds, M.truth_bool]
      simp only [Target.aggregateFilter, hs, Bool.false_eq_true, if_false, Sql.Expr.evalAll,
        List.headD_cons, hguard, Sql.Expr.evalOr, htrue, Multiset.filter_true]
      exact collect_guarded distinct _ _ _

theorem map_eq_map {α β γ : Type} {xs : Multiset α} {ys : Multiset β} {f : α → γ} {g : β → γ}
    {k : α → β} (hk : ys = xs.map k) (h : ∀ x ∈ xs, f x = g (k x)) : xs.map f = ys.map g := by
  rw [hk, Multiset.map_map]
  exact Multiset.map_congr rfl h

/-- The SQL of a window function is worth what the window function is worth over corresponding
frames. -/
theorem eval_lower_window (hM : M.Keeps d) {f : WindowFunction} {args partitionBy : List Expr}
    {orderBy : List (SortKey Expr)} {s : Sql.Expr} {focusOf : Focus σ → Focus ρ}
    (h : (Expr.window f args partitionBy orderBy).lower (Target.builtin d) scope = .ok s)
    (hf : Formed (.window f args partitionBy orderBy)) (hframe : frameP = frameS.map focusOf)
    (hc : ∀ y ∈ frameS, Agrees M scope lookP lookS frameS (.window f args partitionBy orderBy) y
      (focusOf y).row)
    (hx : Agrees M scope lookP lookS frameS (.window f args partitionBy orderBy) x p.row) :
    s.eval M lookS frameS x = (Expr.window f args partitionBy orderBy).eval M lookP frameP p := by
  obtain ⟨as, call, ps, ks, -, has, hcall, hps, hks, hattach⟩ := lower_eq_ok.mp h
  obtain rfl := Target.call_window rfl hcall
  obtain rfl : _ = s := by simpa [Target.attach, Sql.Expr.apply] using hattach
  -- a row shows the same arguments and keys on both sides
  have hseen : ∀ (y : Focus σ) (q : Focus ρ),
      Agrees M scope lookP lookS frameS (.window f args partitionBy orderBy) y q.row →
      (⟨Sql.Expr.evalAll M lookS frameS (Target.windowArgs f as) y,
          Sql.Expr.evalAll M lookS frameS ps y, Sql.Expr.evalKeys M lookS frameS ks y⟩ :
          WindowRow V) =
        ⟨if f = .aggregate .count && args.isEmpty then [M.one] else
            evalAll M lookP frameP args q,
          evalAll M lookP frameP partitionBy q, evalKeys M lookP frameP orderBy q⟩ := by
    intro y q hy
    have hrow : ∀ e ∈ (Expr.window f args partitionBy orderBy).children, ∀ s',
        e.lower (Target.builtin d) scope = .ok s' →
        s'.eval M lookS frameS y = e.eval M lookP frameP q := fun e he s' hs' =>
      eval_lower_row hM hs' (hf e he) (hy.child he)
    have hall : ∀ (es : List Expr) {ss : List Sql.Expr},
        (∀ e ∈ es, e ∈ (Expr.window f args partitionBy orderBy).children) →
        List.Forall₂ (fun e s => e.lower (Target.builtin d) scope = .ok s) es ss →
        Sql.Expr.evalAll M lookS frameS ss y = evalAll M lookP frameP es q := by
      intro es ss hes hss
      rw [Sql.Expr.evalAll_eq, evalAll_eq]
      exact map_eval_eq (((List.forall₂_and_left es ss).mpr ⟨hes, hss⟩).imp fun e s hs =>
        hrow e hs.1 s hs.2)
    have hargs := hall args (fun e he => by simp [children, he]) has
    have hkeys : Sql.Expr.evalKeys M lookS frameS ks y = evalKeys M lookP frameP orderBy q := by
      have hmem : ∀ k ∈ orderBy, k.expr ∈
          (Expr.window f args partitionBy orderBy).children := by
        intro k hk
        simp only [children, List.mem_append, List.mem_map]
        exact .inr ⟨k, hk, rfl⟩
      have hks := (List.forall₂_and_left orderBy ks).mpr ⟨hmem, hks⟩
      exact map_keys_eq (hks.imp fun k s hk => ⟨hrow k.expr hk.1 s.expr hk.2.1, hk.2.2⟩)
    rw [hall partitionBy (fun e he => by simp [children, he]) hps, hkeys]
    congr 1
    unfold Target.windowArgs
    rw [← hargs]
    have hempty : as.isEmpty = args.isEmpty := by
      have := has.length_eq
      cases as <;> cases args <;> simp_all
    rw [hempty]
    split <;> rfl
  have hrows : (frameS.map fun y => (⟨Sql.Expr.evalAll M lookS frameS (Target.windowArgs f as) y,
        Sql.Expr.evalAll M lookS frameS ps y, Sql.Expr.evalKeys M lookS frameS ks y⟩ :
        WindowRow V)) =
      frameP.map fun q => ⟨if f = .aggregate .count && args.isEmpty then [M.one] else
          evalAll M lookP frameP args q,
        evalAll M lookP frameP partitionBy q, evalKeys M lookP frameP orderBy q⟩ :=
    map_eq_map hframe fun y hy => hseen y (focusOf y) (hc y hy)
  rw [eval, Sql.Expr.eval, hM.window]
  exact congr (congrArg _ hrows) (hseen x p hx)

/-- The SQL of an expression over groups is worth what the expression is worth over the
corresponding group, if the columns outside of aggregates are worth the same. -/
theorem eval_lower_group (hM : M.Keeps d) {e : Expr} {s : Sql.Expr} {rowOf : σ → ρ}
    (h : e.lower (Target.builtin d) scope = .ok s) (hm : e.Made)
    (hw : e.containsWindow = false) (hg : p.group = x.group.map rowOf)
    (hc : ∀ y ∈ x.group, Agrees M scope lookP lookS frameS e (.single y) (rowOf y))
    (hb : ∀ ref ∈ e.bareColumns, ∀ c, scope.column ref = .ok c →
      c.eval M lookS frameS x = lookP ref p.row) :
    s.eval M lookS frameS x = e.eval M lookP frameP p := by
  apply eval_lower_of_leaves hM h
  intro q hq hl s' hs'
  have hpart := mem_parts_of_mem_walk hq
  cases q with
  | column ref type =>
    have hwalk := mem_walk_mono (fun _ => isLeaf_of_isAggregate) hq
    exact hb ref (List.mem_filterMap.mpr ⟨_, hwalk, rfl⟩) s' hs'
  | aggregate f arg distinct filter =>
    exact eval_lower_aggregate hM hs' (hm.part hpart).formed hg fun y hy ref hr =>
      hc y hy ref (mem_columnRefs_of_part hpart hr)
  | window => simpa [isWindow] using containsWindow_eq_false.mp hw _ hpart
  | _ => simp [isLeaf, column?, isAggregate, isWindow] at hl

/-- The SQL of an expression with window functions is worth what the expression is worth over the
corresponding frame. -/
theorem eval_lower_frame (hM : M.Keeps d) {e : Expr} {s : Sql.Expr}
    {focusOf : Focus σ → Focus ρ} (h : e.lower (Target.builtin d) scope = .ok s) (hm : e.Made)
    (ha : e.containsAggregate = false) (hframe : frameP = frameS.map focusOf)
    (hc : ∀ y ∈ frameS, Agrees M scope lookP lookS frameS e y (focusOf y).row)
    (hx : Agrees M scope lookP lookS frameS e x p.row) :
    s.eval M lookS frameS x = e.eval M lookP frameP p := by
  apply eval_lower_of_leaves hM h
  intro q hq hl s' hs'
  have hpart := mem_parts_of_mem_walk hq
  cases q with
  | column ref type => exact hx ref (mem_columnRefs.mpr ⟨type, hpart⟩) s' hs'
  | aggregate =>
    have hwalk := mem_walk_mono (fun _ => isLeaf_of_isWindow) hq
    have := List.any_eq_false.mp ha _ hwalk
    simp [isAggregate] at this
  | window f args ps ks =>
    exact eval_lower_window hM hs' (hm.part hpart).formed hframe
      (fun y hy ref hr => hc y hy ref (mem_columnRefs_of_part hpart hr))
      fun ref hr => hx ref (mem_columnRefs_of_part hpart hr)
  | _ => simp [isLeaf, column?, isAggregate, isWindow] at hl

end Expr

end PlanSql
