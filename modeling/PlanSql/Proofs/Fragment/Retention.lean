import PlanSql.Proofs.Expr.Made
import PlanSql.Proofs.Fragment.Lowering

/-!
# Aggregates and windows in the SQL of expressions

The templates that come with the library use all the arguments they are given. So nothing of the
operands is left out of the SQL of an expression, unless it is a test for membership in no values,
and the call of an aggregate is there exactly if there is an aggregate in the expression or in what
its columns stand for. What has no windows and speaks of nothing with windows gets none.
-/
namespace PlanSql

namespace Template

mutual

/-- Whether the argument at a position becomes part of the expansion. -/
def mentions (index : Nat) : Template → Bool
  | .arg i => i = index
  | .args => true
  | .int _ | .number _ | .string _ => false
  | .call _ items => mentionsIn index items
  | .extract _ operand => operand.mentions index
  | .cast operand _ => operand.mentions index
  | .binary _ left right => left.mentions index || right.mentions index

def mentionsIn (index : Nat) : List Template → Bool
  | [] => false
  | item :: rest => item.mentions index || mentionsIn index rest

end

/-- A call with all the arguments, however many there are. -/
def isRename : Template → Bool
  | .call _ [.args] => true
  | _ => false

theorem mentions_of_isRename {T : Template} (h : T.isRename = true) (index : Nat) :
    T.mentions index = true := by
  unfold isRename at h
  split at h
  · rfl
  · simp at h

variable {args : List Sql.Expr} {index : Nat} {a p : Sql.Expr}

mutual

theorem mem_parts_of_mentions (ha : args[index]? = some a) (hp : p ∈ a.parts) :
    ∀ {T : Template} {s : Sql.Expr}, T.expand args = .ok s → T.mentions index = true → p ∈ s.parts
  | .arg i, s, h, hm => by
    obtain rfl : i = index := by simpa [mentions] using hm
    obtain rfl : a = s := by simpa [expand, ha] using h
    exact hp
  | .args, s, h, hm => by simp [expand] at h
  | .int _, s, h, hm | .number _, s, h, hm | .string _, s, h, hm => by simp [mentions] at hm
  | .call name items, s, h, hm => by
    obtain ⟨ss, hss, h⟩ := bind_eq_ok.mp h
    obtain rfl : _ = s := by simpa using h
    obtain ⟨c, hc, hpc⟩ := mem_parts_of_mentionsIn ha hp hss (by simpa [mentions] using hm)
    exact Sql.Expr.mem_parts_of_child (by simpa [Sql.Expr.apply, Sql.Expr.children] using hc) hpc
  | .extract field operand, s, h, hm | .cast operand field, s, h, hm => by
    obtain ⟨o, ho, h⟩ := bind_eq_ok.mp h
    obtain rfl : _ = s := by simpa using h
    have hpo := mem_parts_of_mentions ha hp ho (by simpa [mentions] using hm)
    exact Sql.Expr.mem_parts_of_child (by simp [Sql.Expr.children]) hpo
  | .binary op left right, s, h, hm => by
    obtain ⟨l, hl, h⟩ := bind_eq_ok.mp h
    obtain ⟨r, hr, h⟩ := bind_eq_ok.mp h
    obtain rfl : _ = s := by simpa using h
    have hm : left.mentions index = true ∨ right.mentions index = true := by
      simpa [mentions] using hm
    rcases hm with hm | hm
    · exact Sql.Expr.mem_parts_of_child (by simp [Sql.Expr.children])
        (mem_parts_of_mentions ha hp hl hm)
    · exact Sql.Expr.mem_parts_of_child (by simp [Sql.Expr.children])
        (mem_parts_of_mentions ha hp hr hm)

theorem mem_parts_of_mentionsIn (ha : args[index]? = some a) (hp : p ∈ a.parts) :
    ∀ {items : List Template} {ss : List Sql.Expr}, expandItems args items = .ok ss →
      mentionsIn index items = true → ∃ c ∈ ss, p ∈ c.parts
  | [], ss, h, hm => by simp [mentionsIn] at hm
  | item :: rest, ss, h, hm => by
    rw [expandItems_cons] at h
    obtain ⟨first, hf, h⟩ := bind_eq_ok.mp h
    obtain ⟨others, ho, h⟩ := bind_eq_ok.mp h
    obtain rfl : first ++ others = ss := by simpa using h
    have hm : item.mentions index = true ∨ mentionsIn index rest = true := by
      simpa [mentionsIn] using hm
    rcases hm with hm | hm
    · rcases expandItem_eq_ok hf with ⟨-, rfl⟩ | ⟨s, hs, rfl⟩
      · exact ⟨a, List.mem_append_left _ (List.mem_of_getElem? ha), hp⟩
      · exact ⟨s, by simp, mem_parts_of_mentions ha hp hs hm⟩
    · obtain ⟨c, hc, hpc⟩ := mem_parts_of_mentionsIn ha hp ho hm
      exact ⟨c, List.mem_append_right _ hc, hpc⟩

end

end Template

namespace RuleTable

/-- The rule of a function puts its first `n` arguments into the call. -/
def usesAll (table : RuleTable) (function : String) (d : Dialect) (n : Nat) : Bool :=
  match table.resolve function d with
  | .ok (.template T) => (List.range n).all T.mentions
  | _ => true

/-- The rule of a function puts all arguments into the call, however many there are. -/
def usesAny (table : RuleTable) (function : String) (d : Dialect) : Bool :=
  match table.resolve function d with
  | .ok (.template T) => T.isRename
  | _ => true

theorem usesAll_builtin : ∀ d ∈ Dialect.all, ∀ c ∈ rowFunctions,
    builtin.usesAll c.1 d c.2 = true := by
  decide +kernel

theorem usesAny_builtin : ∀ d ∈ Dialect.all, ∀ f ∈ [ScalarFunction.substr, .coalesce],
    builtin.usesAny (f.ruleName 1) d = true := by
  decide +kernel

end RuleTable

namespace Expr

variable {d : Dialect} {scope : Scope} {s : Sql.Expr}

theorem mentions_row {fn : String} {n : Nat} (hc : (fn, n) ∈ RuleTable.rowFunctions)
    {T : Template} (hT : RuleTable.builtin.resolve fn d = .ok (.template T)) {index : Nat}
    (hi : index < n) : T.mentions index = true := by
  have h := RuleTable.usesAll_builtin d d.mem_all _ hc
  unfold RuleTable.usesAll at h
  rw [hT] at h
  exact List.all_eq_true.mp h index (List.mem_range.mpr hi)

/-- The rule of a scalar function uses every argument of a call that can be made. -/
theorem mentions_function {f : ScalarFunction} {n : Nat} (hn : TakesArguments f n)
    {T : Template}
    (hT : RuleTable.builtin.resolve (f.ruleName n) d = .ok (.template T)) {index : Nat}
    (hi : index < n) : T.mentions index = true := by
  rcases hn with rfl | ⟨rfl, rfl⟩ | ⟨hf, -⟩
  · have hc : (f.ruleName 1, 1) ∈ RuleTable.rowFunctions := by cases f <;> decide
    exact mentions_row hc hT hi
  · have hc : (ScalarFunction.round.ruleName 2, 2) ∈ RuleTable.rowFunctions := by decide
    exact mentions_row hc hT hi
  · have hname : f.ruleName n = f.ruleName 1 := by rcases hf with rfl | rfl <;> rfl
    have h := RuleTable.usesAny_builtin d d.mem_all f (by simpa using hf)
    unfold RuleTable.usesAny at h
    rw [← hname, hT] at h
    exact Template.mentions_of_isRename h index

theorem mem_parts_of_call {e : Expr} {fn : String} {as : List Sql.Expr}
    (h : (Target.builtin d).call e fn as = .ok s)
    (hm : ∀ T, RuleTable.builtin.resolve fn d = .ok (.template T) →
      ∀ i < as.length, T.mentions i = true) :
    ∀ a ∈ as, a.parts ⊆ s.parts := by
  obtain ⟨T, hT, hs⟩ := Target.call_eq_ok.mp h
  intro a ha p hp
  obtain ⟨i, hi, rfl⟩ := List.mem_iff_getElem.mp ha
  exact Template.mem_parts_of_mentions (List.getElem?_eq_getElem hi) hp hs (hm T hT i hi)

/-- The SQL of an operand is part of the SQL of the expression. -/
theorem parts_lower_of_child {e : Expr} (hf : e.Formed) (ha : e.isAggregate = false)
    (hw : e.isWindow = false) (hv : e.isVoidMembership = false)
    (h : e.lower (Target.builtin d) scope = .ok s) {c : Expr} (hc : c ∈ e.children) :
    ∃ s', c.lower (Target.builtin d) scope = .ok s' ∧ s'.parts ⊆ s.parts := by
  have h := lower_eq_ok.mp h
  have hsub : ∀ {a : Sql.Expr}, a ∈ s.children → a.parts ⊆ s.parts :=
    fun ha _ hp => Sql.Expr.mem_parts_of_child ha hp
  cases e with
  | literal v => simp [children] at hc
  | column ref type => simp [children] at hc
  | aggregate => simp [isAggregate] at ha
  | window => simp [isWindow] at hw
  | unary op operand | isNull operand op =>
    obtain ⟨a, ha, rfl⟩ := h
    obtain rfl : c = operand := by simpa [children] using hc
    exact ⟨a, ha, hsub (by simp [Sql.Expr.children])⟩
  | cast operand target =>
    obtain ⟨a, name, ha, -, rfl⟩ := h
    obtain rfl : c = operand := by simpa [children] using hc
    exact ⟨a, ha, hsub (by simp [Sql.Expr.children])⟩
  | binary op left right =>
    obtain ⟨l, r, hl, hr, h⟩ := h
    have hboth : l.parts ⊆ s.parts ∧ r.parts ⊆ s.parts := by
      unfold Target.binary at h
      split at h
      · obtain ⟨double, -, h⟩ := bind_eq_ok.mp h
        obtain rfl : _ = s := by simpa using h
        refine ⟨fun p hp => ?_, hsub (by simp [Sql.Expr.children])⟩
        exact hsub (a := .cast l double) (by simp [Sql.Expr.children])
          (Sql.Expr.mem_parts_of_child (by simp [Sql.Expr.children]) hp)
      · obtain rfl : _ = s := by simpa using h
        exact ⟨hsub (by simp [Sql.Expr.children]), hsub (by simp [Sql.Expr.children])⟩
    have hc : c = left ∨ c = right := by simpa [children] using hc
    rcases hc with rfl | rfl
    · exact ⟨l, hl, hboth.1⟩
    · exact ⟨r, hr, hboth.2⟩
  | function f args =>
    obtain ⟨as, has, h⟩ := h
    obtain ⟨a, ha, hca⟩ := forall₂_mem_left has hc
    refine ⟨a, hca, mem_parts_of_call h (fun T hT i hi => ?_) a ha⟩
    exact mentions_function hf hT (has.length_eq ▸ hi)
  | extract part operand =>
    obtain ⟨a, ha, h⟩ := h
    obtain rfl : c = operand := by simpa [children] using hc
    exact ⟨a, ha, mem_parts_of_call h
      (fun T hT i hi => mentions_row (datePart_mem_rowFunctions part) hT hi) a (by simp)⟩
  | toTimestamp operand unit =>
    obtain ⟨a, ha, h⟩ := h
    obtain rfl : c = operand := by simpa [children] using hc
    exact ⟨a, ha, mem_parts_of_call h
      (fun T hT i hi => mentions_row (timeUnit_mem_rowFunctions unit) hT hi) a (by simp)⟩
  | inList operand values negated =>
    cases values with
    | nil => simp [isVoidMembership] at hv
    | cons v vs =>
      obtain ⟨a, cs, ha, -, rfl⟩ := h
      obtain rfl : c = operand := by simpa [children] using hc
      exact ⟨a, ha, hsub (by simp [Sql.Expr.children])⟩
  | case branches otherwise =>
    obtain ⟨bs, o, hbs, ho, rfl⟩ := h
    simp only [children, List.mem_append, List.mem_flatMap] at hc
    rcases hc with ⟨b, hb, hc⟩ | hc
    · obtain ⟨sb, hsb, hb1, hb2⟩ := forall₂_mem_left hbs hb
      have hmem : ∀ a ∈ [sb.1, sb.2], a ∈ (Sql.Expr.case bs o).children := fun a ha =>
        List.mem_append_left _ (List.mem_flatMap.mpr ⟨sb, hsb, ha⟩)
      have hc : c = b.1 ∨ c = b.2 := by simpa using hc
      rcases hc with rfl | rfl
      · exact ⟨sb.1, hb1, hsub (hmem _ (by simp))⟩
      · exact ⟨sb.2, hb2, hsub (hmem _ (by simp))⟩
    · obtain ⟨a, ha, hca⟩ := forall₂_mem_left ho hc
      exact ⟨a, hca, hsub (List.mem_append_right _ ha)⟩

theorem aggregates_of_isAggregate {e : Expr} (ha : e.isAggregate = true)
    (h : e.lower (Target.builtin d) scope = .ok s) : s.aggregates = true := by
  cases e with
  | aggregate f arg distinct filter =>
    obtain ⟨a, c, -, -, h⟩ := lower_eq_ok.mp h
    obtain rfl := Target.aggregate_builtin rfl h
    refine List.any_eq_true.mpr ⟨_, Sql.Expr.mem_parts_self _, ?_⟩
    exact List.contains_iff_mem.mpr f.sqlName_mem
  | _ => simp [isAggregate] at ha

/-- An aggregate that is kept becomes the call of one. -/
theorem aggregates_lower {e : Expr} (hm : e.Made) (hw : e.containsWindow = false)
    (ha : e.keepsAggregate = true) (h : e.lower (Target.builtin d) scope = .ok s) :
    s.aggregates = true := by
  induction e using induct generalizing s with
  | step e ih =>
    cases hea : e.isAggregate with
    | true => exact aggregates_of_isAggregate hea h
    | false =>
      have hroot := containsWindow_eq_false.mp hw e (mem_parts_self e)
      obtain ⟨q, hq, hqa⟩ := List.any_eq_true.mp ha
      rcases mem_kept.mp hq with rfl | ⟨hv, c, hc, hqc⟩
      · simp [hea] at hqa
      · obtain ⟨s', hs', hsub⟩ := parts_lower_of_child hm.formed hea hroot hv h hc
        have hagg := ih c hc (hm.child hc) (containsWindow_of_child hc hw)
          (List.any_eq_true.mpr ⟨q, hqc, hqa⟩) hs'
        obtain ⟨p, hp, hpa⟩ := List.any_eq_true.mp hagg
        exact List.any_eq_true.mpr ⟨p, hsub hp, hpa⟩

/-- An expression without aggregates over columns without any becomes SQL without any. -/
theorem aggregates_lower_eq_false {e : Expr} (h : e.lower (Target.builtin d) scope = .ok s)
    (he : ∀ q ∈ e.parts, q.isAggregate = false)
    (hs : ∀ ref c, scope.column ref = .ok c → c.aggregates = false) : s.aggregates = false := by
  apply Sql.Expr.aggregates_eq_false.mpr
  intro p hp
  rcases mem_parts_lower h hp with ⟨ref, -, c, hc, hpc⟩ | hi
  · exact Sql.Expr.aggregates_eq_false.mp (hs ref c hc) p hpc
  · by_contra hpa
    obtain ⟨q, hq, hqa⟩ := (hi.2 rfl).2 (by simpa using hpa)
    simp [he q (mem_parts_of_mem_kept hq)] at hqa

theorem admits_windowless {t : Target} {e : Expr} (he : e.containsWindow = false) :
    Admits t scope e fun p => p.isWindowCall = false where
  constant h := by
    obtain rfl := Target.constant_eq_ok h
    rfl
  unary := rfl
  binary := rfl
  row _ h hargs := Target.forall_parts_call h (fun _ _ _ _ _ hp => hp.brings.2.1) hargs
  inList := rfl
  isNull := rfl
  cast _ := rfl
  case := rfl
  aggregate _ _ h hx := Target.forall_parts_aggregate h (fun _ _ _ _ _ hp => hp.brings.2.1) rfl rfl
    (fun _ => rfl) (fun _ _ _ _ w hw => by cases w <;> simp_all [Sql.Expr.isWindowCall]) hx
  window hm :=
    absurd (containsWindow_eq_false.mp he _ (mem_parts_of_mem_kept hm)) (by simp [isWindow])

theorem plainFilter_of_heads {T : Template} {p : Sql.Expr} (h : T.Heads p) : p.PlainFilter := by
  cases T with
  | arg | args => exact h.elim
  | call name items =>
    obtain ⟨as, rfl⟩ := h
    trivial
  | extract field operand | cast operand field =>
    obtain ⟨a, rfl⟩ := h
    trivial
  | binary op left right =>
    obtain ⟨l, r, rfl⟩ := h
    trivial
  | int value | number text | string value =>
    obtain rfl := h
    trivial

/-- Only an aggregate gets a FILTER clause. -/
theorem admits_plainFilter {t : Target} {e : Expr} (he : ∀ q ∈ e.parts, q.isAggregate = false) :
    Admits t scope e Sql.Expr.PlainFilter where
  constant h := by
    obtain rfl := Target.constant_eq_ok h
    trivial
  unary := trivial
  binary := trivial
  row _ h hargs := Target.forall_parts_call h (fun _ _ _ _ _ hp => plainFilter_of_heads hp) hargs
  inList := trivial
  isNull := trivial
  cast _ := trivial
  case := trivial
  aggregate hm := absurd (he _ (mem_parts_of_mem_kept hm)) (by simp [isAggregate])
  window _ _ hcall h hx :=
    Target.forall_parts_attach hcall h (fun _ _ _ _ _ hp => plainFilter_of_heads hp) trivial
      (fun hc => by
        obtain ⟨name, args, d, c, w, rfl, rfl⟩ := Target.attach_eq_ok h
        cases c <;> exact hc) hx

/-- A window function becomes the call of one. -/
theorem windows_lower_of_isWindow {t : Target} {e : Expr} (hw : e.isWindow = true)
    (h : e.lower t scope = .ok s) : s.windows = true := by
  cases e with
  | window f args partitionBy orderBy =>
    obtain ⟨as, call, ps, ks, -, -, -, -, -, h⟩ := lower_eq_ok.mp h
    obtain ⟨name, as, d, c, w, -, rfl⟩ := Target.attach_eq_ok h
    exact List.any_eq_true.mpr ⟨_, Sql.Expr.mem_parts_self _, rfl⟩
  | _ => simp [isWindow] at hw

/-- Where no aggregate is in the way, a window function that is kept becomes a window call, and so
does one that a kept column stands for. -/
theorem windows_lower_of_kept {e q : Expr} (hm : e.Made)
    (ha : ∀ p ∈ e.parts, p.isAggregate = false) (hq : q ∈ e.kept)
    (hw : q.isWindow = true ∨
      ∃ ref c, q.column? = some ref ∧ scope.column ref = .ok c ∧ c.windows = true)
    (h : e.lower (Target.builtin d) scope = .ok s) : s.windows = true := by
  induction e using induct generalizing s with
  | step e ih =>
    cases hew : e.isWindow with
    | true => exact windows_lower_of_isWindow hew h
    | false =>
      rcases mem_kept.mp hq with rfl | ⟨hv, c, hc, hqc⟩
      · rcases hw with hw | ⟨ref, c, hr, hc, hcw⟩
        · simp [hew] at hw
        · obtain ⟨type, rfl⟩ := column?_eq_some.mp hr
          obtain rfl : c = s := Except.ok.inj (hc.symm.trans (lower_eq_ok.mp h))
          exact hcw
      · obtain ⟨s', hs', hsub⟩ :=
          parts_lower_of_child hm.formed (ha e (mem_parts_self e)) hew hv h hc
        have hwin := ih c hc (hm.child hc) (fun p hp => ha p (mem_parts_of_child hc hp)) hqc hs'
        obtain ⟨p, hp, hpw⟩ := List.any_eq_true.mp hwin
        exact List.any_eq_true.mpr ⟨p, hsub hp, hpw⟩

/-- The SQL of an expression without aggregates has a window call in it exactly if the expression
keeps a window function, or a column that stands for one. -/
theorem windows_lower_iff {e : Expr} (hm : e.Made) (ha : ∀ p ∈ e.parts, p.isAggregate = false)
    (h : e.lower (Target.builtin d) scope = .ok s) :
    s.windows = true ↔ e.keepsWindow = true ∨
      ∃ ref ∈ e.keptRefs, ∃ c, scope.column ref = .ok c ∧ c.windows = true := by
  constructor
  · intro hw
    obtain ⟨p, hp, hpw⟩ := List.any_eq_true.mp hw
    rcases mem_parts_lower h hp with ⟨ref, hr, c, hc, hpc⟩ | hi
    · exact .inr ⟨ref, hr, c, hc, List.any_eq_true.mpr ⟨p, hpc, hpw⟩⟩
    · exact .inl (List.any_eq_true.mpr ((hi.2 rfl).1 hpw))
  · rintro (hk | ⟨ref, hr, c, hc, hw⟩)
    · obtain ⟨q, hq, hqw⟩ := List.any_eq_true.mp hk
      exact windows_lower_of_kept hm ha hq (.inl hqw) h
    · obtain ⟨q, hq, hqr⟩ := List.mem_filterMap.mp hr
      exact windows_lower_of_kept hm ha hq (.inr ⟨ref, c, hqr, hc, hw⟩) h

/-- An expression without windows over columns without any becomes SQL without any. -/
theorem windows_lower_eq_false {t : Target} {e : Expr} (h : e.lower t scope = .ok s)
    (he : e.containsWindow = false)
    (hs : ∀ ref c, scope.column ref = .ok c → c.windows = false) : s.windows = false :=
  Sql.Expr.windows_eq_false.mpr <| (admits_windowless he).lower
    (fun ref _ c hc => Sql.Expr.windows_eq_false.mp (hs ref c hc)) h

/-- All window calls of an expression without aggregates are found where columns have none: there is
no FILTER clause for them to hide in. -/
theorem containsWindow_lower {t : Target} {e : Expr} (hm : e.Made)
    (ha : e.containsAggregate = false) (h : e.lower t scope = .ok s)
    (hs : ∀ ref c, scope.column ref = .ok c → c.windows = false) :
    s.containsWindow = s.windows := by
  have hplain : ∀ p ∈ s.parts, p.PlainFilter := by
    refine (admits_plainFilter fun q hq => hm.isAggregate_of_part ha hq).lower ?_ h
    intro ref _ c hc p hp
    exact Sql.Expr.plainFilter_of_windows (Sql.Expr.windows_of_part hp (hs ref c hc))
  cases hw : s.containsWindow with
  | true =>
    cases hn : s.windows with
    | true => rfl
    | false => exact hw.symm.trans (Sql.Expr.containsWindow_of_windows hn)
  | false => exact (Sql.Expr.windows_of_containsWindow hplain hw).symm

theorem isRowLevel_lower {e : Expr} (hm : e.Made) (hr : e.isRowLevel = true)
    (h : e.lower (Target.builtin d) scope = .ok s)
    (hs : ∀ ref c, scope.column ref = .ok c → c.isRowLevel = true) : s.isRowLevel = true := by
  obtain ⟨ha, hw⟩ := isRowLevel_eq_true.mp hr
  refine Sql.Expr.isRowLevel_iff.mpr ⟨?_, ?_⟩
  · exact aggregates_lower_eq_false h (fun q hq => hm.isAggregate_of_part ha hq)
      fun ref c hc => (Sql.Expr.isRowLevel_iff.mp (hs ref c hc)).1
  · exact windows_lower_eq_false h hw fun ref c hc => (Sql.Expr.isRowLevel_iff.mp (hs ref c hc)).2

end Expr

end PlanSql
