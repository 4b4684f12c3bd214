import PlanSql.Expr.Basic

/-!
# Parts of an expression

An induction over operands, and what the walks over an expression meet. A walk that stops nowhere
meets all parts; a walk that stops somewhere meets some of them.
-/
namespace PlanSql.Expr

theorem sizeOf_lt_of_mem_children {e c : Expr} (h : c ∈ e.children) : sizeOf c < sizeOf e := by
  cases e with
  | literal v => simp [children] at h
  | column ref t => simp [children] at h
  | unary op operand | extract op operand | toTimestamp operand op | isNull operand op
  | cast operand op =>
    simp only [children, List.mem_singleton] at h
    subst h
    simp +arith
  | inList operand values negated =>
    simp only [children, List.mem_singleton] at h
    subst h
    simp +arith
  | binary op left right =>
    simp only [children, List.mem_cons, List.not_mem_nil, or_false] at h
    rcases h with rfl | rfl <;> simp +arith
  | function f args =>
    have := List.sizeOf_lt_of_mem (show c ∈ args from h)
    simp only [function.sizeOf_spec]
    omega
  | case branches otherwise =>
    simp only [children, List.mem_append, List.mem_flatMap, Option.mem_toList] at h
    rcases h with ⟨⟨a, b⟩, hb, hc⟩ | hc
    · have := List.sizeOf_lt_of_mem hb
      simp only [List.mem_cons, List.not_mem_nil, or_false] at hc
      rcases hc with rfl | rfl <;> simp only [case.sizeOf_spec, Prod.mk.sizeOf_spec] at * <;> omega
    · obtain rfl : otherwise = some c := hc
      simp only [case.sizeOf_spec, Option.some.sizeOf_spec]
      omega
  | aggregate f arg distinct filter =>
    simp only [children, List.mem_append, Option.mem_toList] at h
    rcases h with hc | hc
    · obtain rfl : arg = some c := hc
      simp only [aggregate.sizeOf_spec, Option.some.sizeOf_spec]
      omega
    · obtain rfl : filter = some c := hc
      simp only [aggregate.sizeOf_spec, Option.some.sizeOf_spec]
      omega
  | window f args partitionBy orderBy =>
    simp only [children, List.mem_append, List.mem_map] at h
    simp only [window.sizeOf_spec]
    rcases h with (hc | hc) | ⟨⟨k, d⟩, hk, rfl⟩
    · have := List.sizeOf_lt_of_mem hc
      omega
    · have := List.sizeOf_lt_of_mem hc
      omega
    · have := List.sizeOf_lt_of_mem hk
      simp only [SortKey.mk.sizeOf_spec] at this ⊢
      omega

/-- What holds of an expression whenever it holds of its operands holds of all expressions. -/
@[elab_as_elim]
theorem induct {P : Expr → Prop} (step : ∀ e, (∀ c ∈ e.children, P c) → P e) (e : Expr) : P e :=
  step e fun c h =>
    have := sizeOf_lt_of_mem_children h
    induct step c
termination_by sizeOf e

theorem walk_eq (stop : Expr → Bool) (e : Expr) :
    e.walk stop = e :: if stop e then [] else e.children.flatMap (walk stop) := by
  rw [walk, visit, inside_eq]

theorem mem_walk {stop : Expr → Bool} {e p : Expr} :
    p ∈ e.walk stop ↔ p = e ∨ stop e = false ∧ ∃ c ∈ e.children, p ∈ c.walk stop := by
  rw [walk_eq]
  cases stop e <;> simp

@[simp] theorem mem_walk_self (stop : Expr → Bool) (e : Expr) : e ∈ e.walk stop :=
  mem_walk.mpr (.inl rfl)

theorem mem_walk_of_child {stop : Expr → Bool} {e c p : Expr} (hs : stop e = false)
    (hc : c ∈ e.children) (hp : p ∈ c.walk stop) : p ∈ e.walk stop :=
  mem_walk.mpr (.inr ⟨hs, c, hc, hp⟩)

theorem mem_parts {e p : Expr} : p ∈ e.parts ↔ p = e ∨ ∃ c ∈ e.children, p ∈ c.parts := by
  rw [parts, mem_walk]
  simp [parts]

theorem mem_parts_self (e : Expr) : e ∈ e.parts := mem_walk_self _ e

theorem mem_parts_of_child {e c p : Expr} (hc : c ∈ e.children) (hp : p ∈ c.parts) :
    p ∈ e.parts :=
  mem_parts.mpr (.inr ⟨c, hc, hp⟩)

theorem mem_parts_of_mem_walk {stop : Expr → Bool} {e p : Expr} (hp : p ∈ e.walk stop) :
    p ∈ e.parts := by
  induction e using induct with
  | step e ih =>
    rcases mem_walk.mp hp with rfl | ⟨-, c, hc, hpc⟩
    · exact mem_parts_self p
    · exact mem_parts_of_child hc (ih c hc hpc)

/-- A walk that stops more often meets less. -/
theorem mem_walk_mono {stop stop' : Expr → Bool} (h : ∀ e, stop' e = true → stop e = true)
    {e p : Expr} (hp : p ∈ e.walk stop) : p ∈ e.walk stop' := by
  induction e using induct with
  | step e ih =>
    rcases mem_walk.mp hp with rfl | ⟨hs, c, hc, hpc⟩
    · exact mem_walk_self _ p
    · have hs' : stop' e = false := by
        cases ht : stop' e with
        | false => rfl
        | true => simp [h e ht] at hs
      exact mem_walk_of_child hs' hc (ih c hc hpc)

theorem column?_eq_some {e : Expr} {ref : ColumnRef} :
    e.column? = some ref ↔ ∃ t, e = .column ref t := by
  cases e <;> simp [column?]

theorem mem_columnRefs {e : Expr} {ref : ColumnRef} :
    ref ∈ e.columnRefs ↔ ∃ t, .column ref t ∈ e.parts := by
  simp only [columnRefs, List.mem_filterMap, column?_eq_some]
  constructor
  · rintro ⟨p, hp, t, rfl⟩
    exact ⟨t, hp⟩
  · rintro ⟨t, hp⟩
    exact ⟨_, hp, t, rfl⟩

theorem mem_columnRefs_of_child {e c : Expr} {ref : ColumnRef} (hc : c ∈ e.children)
    (hr : ref ∈ c.columnRefs) : ref ∈ e.columnRefs := by
  obtain ⟨t, ht⟩ := mem_columnRefs.mp hr
  exact mem_columnRefs.mpr ⟨t, mem_parts_of_child hc ht⟩

/-- The columns of an expression that is not one itself are those of its operands. -/
theorem columnRefs_eq {e : Expr} (hn : e.column? = none) :
    e.columnRefs = e.children.flatMap columnRefs := by
  rw [columnRefs, parts, walk_eq]
  simp only [List.filterMap_cons, hn, Bool.false_eq_true, if_false, List.filterMap_flatMap]
  rfl

theorem mem_parts_of_mem_conjuncts {e c : Expr} (hc : c ∈ e.conjuncts) : c ∈ e.parts := by
  fun_induction conjuncts e with
  | case1 left right ihl ihr =>
    rcases List.mem_append.mp hc with hc | hc
    · exact mem_parts_of_child (by simp [children]) (ihl hc)
    · exact mem_parts_of_child (by simp [children]) (ihr hc)
  | case2 e he =>
    obtain rfl := List.mem_singleton.mp hc
    exact mem_parts_self c

theorem mem_bareColumns_of_mem_conjuncts {e c : Expr} (hc : c ∈ e.conjuncts) {ref : ColumnRef}
    (hr : ref ∈ c.bareColumns) : ref ∈ e.bareColumns := by
  fun_induction conjuncts e with
  | case1 left right ihl ihr =>
    have below : ∀ o ∈ [left, right], ref ∈ o.bareColumns →
        ref ∈ (Expr.binary .and left right).bareColumns := by
      intro o ho h
      obtain ⟨q, hq, hqr⟩ := List.mem_filterMap.mp h
      exact List.mem_filterMap.mpr ⟨q, mem_walk_of_child rfl ho hq, hqr⟩
    rcases List.mem_append.mp hc with hc | hc
    · exact below left (by simp) (ihl hc)
    · exact below right (by simp) (ihr hc)
  | case2 e he =>
    obtain rfl := List.mem_singleton.mp hc
    exact hr

theorem mem_parts_trans {e p q : Expr} (hp : p ∈ e.parts) (hq : q ∈ p.parts) : q ∈ e.parts := by
  induction e using induct with
  | step e ih =>
    rcases mem_parts.mp hp with rfl | ⟨c, hc, hpc⟩
    · exact hq
    · exact mem_parts_of_child hc (ih c hc hpc)

theorem mem_columnRefs_of_part {e p : Expr} {ref : ColumnRef} (hp : p ∈ e.parts)
    (hr : ref ∈ p.columnRefs) : ref ∈ e.columnRefs := by
  obtain ⟨t, ht⟩ := mem_columnRefs.mp hr
  exact mem_columnRefs.mpr ⟨t, mem_parts_trans hp ht⟩

/-- Membership in no values, which is a constant. -/
def isVoidMembership : Expr → Bool
  | .inList _ [] _ => true
  | _ => false

/-- The parts of an expression that have a part in its SQL. The operand of a membership in no values
is left out, whatever it is. -/
def kept (e : Expr) : List Expr := e.walk isVoidMembership

/-- A window function becomes part of the SQL. -/
def keepsWindow (e : Expr) : Bool := e.kept.any isWindow

/-- An aggregate becomes part of the SQL. -/
def keepsAggregate (e : Expr) : Bool := e.kept.any isAggregate

/-- The column references whose definitions become part of the SQL. -/
def keptRefs (e : Expr) : List ColumnRef := e.kept.filterMap column?

theorem mem_kept {e p : Expr} :
    p ∈ e.kept ↔ p = e ∨ e.isVoidMembership = false ∧ ∃ c ∈ e.children, p ∈ c.kept :=
  mem_walk

theorem mem_kept_self (e : Expr) : e ∈ e.kept := mem_walk_self _ e

theorem mem_kept_of_child {e c p : Expr} (hv : e.isVoidMembership = false) (hc : c ∈ e.children)
    (hp : p ∈ c.kept) : p ∈ e.kept :=
  mem_walk_of_child hv hc hp

theorem mem_parts_of_mem_kept {e p : Expr} (hp : p ∈ e.kept) : p ∈ e.parts :=
  mem_parts_of_mem_walk hp

theorem mem_kept_trans {e p q : Expr} (hp : p ∈ e.kept) (hq : q ∈ p.kept) : q ∈ e.kept := by
  induction e using induct with
  | step e ih =>
    rcases mem_kept.mp hp with rfl | ⟨hv, c, hc, hpc⟩
    · exact hq
    · exact mem_kept_of_child hv hc (ih c hc hpc)

theorem mem_kept_of_mem_conjuncts {e c : Expr} (hc : c ∈ e.conjuncts) : c ∈ e.kept := by
  fun_induction conjuncts e with
  | case1 left right ihl ihr =>
    rcases List.mem_append.mp hc with hc | hc
    · exact mem_kept_of_child rfl (by simp [children]) (ihl hc)
    · exact mem_kept_of_child rfl (by simp [children]) (ihr hc)
  | case2 e he =>
    obtain rfl := List.mem_singleton.mp hc
    exact mem_kept_self c

theorem mem_keptRefs {e : Expr} {ref : ColumnRef} :
    ref ∈ e.keptRefs ↔ ∃ t, .column ref t ∈ e.kept := by
  simp only [keptRefs, List.mem_filterMap, column?_eq_some]
  constructor
  · rintro ⟨p, hp, t, rfl⟩
    exact ⟨t, hp⟩
  · rintro ⟨t, hp⟩
    exact ⟨_, hp, t, rfl⟩

theorem mem_keptRefs_of_child {e c : Expr} {ref : ColumnRef} (hv : e.isVoidMembership = false)
    (hc : c ∈ e.children) (hr : ref ∈ c.keptRefs) : ref ∈ e.keptRefs := by
  obtain ⟨t, ht⟩ := mem_keptRefs.mp hr
  exact mem_keptRefs.mpr ⟨t, mem_kept_of_child hv hc ht⟩

theorem mem_columnRefs_of_mem_keptRefs {e : Expr} {ref : ColumnRef} (hr : ref ∈ e.keptRefs) :
    ref ∈ e.columnRefs := by
  obtain ⟨t, ht⟩ := mem_keptRefs.mp hr
  exact mem_columnRefs.mpr ⟨t, mem_parts_of_mem_kept ht⟩

/-- What a condition keeps, its conjuncts keep, apart from the AND between them. -/
theorem mem_kept_conjunct {e q : Expr} (hq : q ∈ e.kept) :
    (∃ l r, q = .binary .and l r) ∨ ∃ p ∈ e.conjuncts, q ∈ p.kept := by
  fun_induction conjuncts e with
  | case1 left right ihl ihr =>
    rcases mem_kept.mp hq with rfl | ⟨-, c, hc, hqc⟩
    · exact .inl ⟨left, right, rfl⟩
    · have hc : c = left ∨ c = right := by simpa [children] using hc
      rcases hc with rfl | rfl
      · refine (ihl hqc).imp_right ?_
        rintro ⟨p, hp, hqp⟩
        exact ⟨p, List.mem_append_left _ hp, hqp⟩
      · refine (ihr hqc).imp_right ?_
        rintro ⟨p, hp, hqp⟩
        exact ⟨p, List.mem_append_right _ hp, hqp⟩
  | case2 e he => exact .inr ⟨e, List.mem_singleton_self e, hq⟩

theorem exists_conjunct_of_keepsAggregate {e : Expr} (h : e.keepsAggregate = true) :
    ∃ p ∈ e.conjuncts, p.keepsAggregate = true := by
  obtain ⟨q, hq, ha⟩ := List.any_eq_true.mp h
  rcases mem_kept_conjunct hq with ⟨l, r, rfl⟩ | ⟨p, hp, hqp⟩
  · simp [isAggregate] at ha
  · exact ⟨p, hp, List.any_eq_true.mpr ⟨q, hqp, ha⟩⟩

/-- Without a membership in no values all parts are kept, so the aggregates are. -/
theorem keepsAggregate_of_containsAggregate {e : Expr}
    (hv : ∀ p ∈ e.parts, p.isVoidMembership = false) (ha : e.containsAggregate = true) :
    e.keepsAggregate = true := by
  obtain ⟨q, hq, hqa⟩ := List.any_eq_true.mp ha
  refine List.any_eq_true.mpr ⟨q, ?_, hqa⟩
  induction e using induct with
  | step e ih =>
    rcases mem_walk.mp hq with rfl | ⟨-, c, hc, hqc⟩
    · exact mem_kept_self q
    · refine mem_kept_of_child (hv e (mem_parts_self e)) hc (ih c hc ?_ ?_ hqc)
      · exact fun p hp => hv p (mem_parts_of_child hc hp)
      · exact List.any_eq_true.mpr ⟨q, hqc, hqa⟩

/-- Off aggregates and windows, the operands tell whether there is an aggregate. -/
theorem containsAggregate_eq {e : Expr} (ha : e.isAggregate = false) (hw : e.isWindow = false) :
    e.containsAggregate = e.children.any containsAggregate := by
  rw [containsAggregate, walk_eq]
  simp only [ha, hw, List.any_cons, Bool.false_or, Bool.false_eq_true, if_false, List.any_flatMap]
  rfl

theorem containsWindow_eq_false {e : Expr} :
    e.containsWindow = false ↔ ∀ p ∈ e.parts, p.isWindow = false := by
  simp [containsWindow]

theorem containsWindow_of_child {e c : Expr} (hc : c ∈ e.children)
    (h : e.containsWindow = false) : c.containsWindow = false := by
  rw [containsWindow_eq_false] at *
  exact fun p hp => h p (mem_parts_of_child hc hp)

theorem containsWindow_of_part {e p : Expr} (hp : p ∈ e.parts) (h : e.containsWindow = false) :
    p.containsWindow = false := by
  rw [containsWindow_eq_false] at *
  exact fun q hq => h q (mem_parts_trans hp hq)

theorem isRowLevel_eq_true {e : Expr} : e.isRowLevel = true ↔
    e.containsAggregate = false ∧ e.containsWindow = false := by
  simp [isRowLevel]

theorem isRowLevel_iff {e : Expr} : e.isRowLevel = true ↔
    ∀ q ∈ e.parts, q.isAggregate = false ∧ q.isWindow = false := by
  unfold isRowLevel containsAggregate
  simp only [Bool.and_eq_true, Bool.not_eq_true', containsWindow_eq_false, List.any_eq_false]
  constructor
  · rintro ⟨ha, hw⟩ q hq
    refine ⟨?_, hw q hq⟩
    -- no part stops the walk, so it meets all of them
    have hwalk : ∀ e : Expr, (∀ q ∈ e.parts, q.isWindow = false) → ∀ q ∈ e.parts,
        q ∈ e.walk isWindow := by
      intro e
      induction e using induct with
      | step e ih =>
        intro hw q hq
        rcases mem_parts.mp hq with rfl | ⟨c, hc, hqc⟩
        · exact mem_walk_self _ q
        · exact mem_walk_of_child (hw e (mem_parts_self e)) hc
            (ih c hc (fun q hq => hw q (mem_parts_of_child hc hq)) q hqc)
    simpa using ha q (hwalk e hw q hq)
  · intro h
    exact ⟨fun q hq => by simp [(h q (mem_parts_of_mem_walk hq)).1], fun q hq => (h q hq).2⟩

end PlanSql.Expr
