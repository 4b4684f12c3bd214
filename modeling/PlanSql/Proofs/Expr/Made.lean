import PlanSql.Expr.Construction
import PlanSql.Proofs.Checking
import PlanSql.Proofs.Expr.Parts

/-!
# Expressions made by the checked constructors

The expressions that exist: those that some sequence of constructor calls makes. Their operands are
made as well, functions have the arguments they take, and below an aggregate or a window function
everything is row-level, so that these are never nested.
-/
namespace PlanSql.Expr

/-- An expression that constructors, each of which succeeded, have made. -/
inductive Made : Expr → Prop
  | literal (v : Value) : Made (.literal v)
  | column (ref : ColumnRef) (t : DataType) : Made (.column ref t)
  | countStar : Made countStar
  | ranking {f : WindowFunction} (hf : f ∈ [.rowNumber, .rank, .denseRank]) : Made (ranking f)
  | unary {op : UnaryOp} {a e : Expr} (ha : Made a) (h : applyUnary op a = .ok e) : Made e
  | binary {op : BinaryOp} {l r e : Expr} (hl : Made l) (hr : Made r)
      (h : applyBinary op l r = .ok e) : Made e
  | function {f : ScalarFunction} {args : List Expr} {e : Expr} (ha : ∀ a ∈ args, Made a)
      (h : applyFunction f args = .ok e) : Made e
  | extract {p : DatePart} {a e : Expr} (ha : Made a) (h : applyExtract p a = .ok e) : Made e
  | toTimestamp {a e : Expr} {u : TimeUnit} (ha : Made a) (h : applyToTimestamp a u = .ok e) :
      Made e
  | inList {a e : Expr} {vs : List Value} {negated : Bool} (ha : Made a)
      (h : applyInList a vs negated = .ok e) : Made e
  | isNull {a : Expr} {negated : Bool} (ha : Made a) : Made (.isNull a negated)
  | cast {a : Expr} {t : DataType} (ha : Made a) : Made (.cast a t)
  | case {branches : List (Expr × Expr)} {otherwise : Option Expr} {e : Expr}
      (hc : ∀ b ∈ branches, Made b.1) (hr : ∀ b ∈ branches, Made b.2)
      (ho : ∀ a ∈ otherwise, Made a) (h : applyCase branches otherwise = .ok e) : Made e
  | aggregate {f : AggregateFunction} {a e : Expr} {distinct : Bool} (ha : Made a)
      (h : applyAggregate f a distinct = .ok e) : Made e
  | withFilter {a condition e : Expr} (ha : Made a) (hc : Made condition)
      (h : withFilter a condition = .ok e) : Made e
  | shift {f : WindowFunction} {a e : Expr} {offset : Int} (hf : f ∈ [.lag, .lead])
      (ha : Made a) (h : shift f a offset = .ok e) : Made e
  | windowed {a e : Expr} {ps : List Expr} {ks : List (SortKey Expr)} (ha : Made a)
      (hp : ∀ p ∈ ps, Made p) (hk : ∀ k ∈ ks, Made k.expr) (h : applyOver a ps ks = .ok e) : Made e

/-- The numbers of arguments that a function takes. -/
def TakesArguments (f : ScalarFunction) (n : Nat) : Prop :=
  n = 1 ∨ (f = .round ∧ n = 2) ∨ ((f = .substr ∨ f = .coalesce) ∧ 0 < n)

/-- What the constructors see to at the root of an expression. -/
def Formed : Expr → Prop
  | .function f args => TakesArguments f args.length
  | .case branches _ => branches ≠ []
  | .aggregate f arg distinct filter =>
    (arg = none → f = .count ∧ distinct = false) ∧
      (∀ a ∈ arg, a.isRowLevel = true) ∧ ∀ c ∈ filter, c.isRowLevel = true
  | .window _ args partitionBy orderBy =>
    ∀ a ∈ args ++ partitionBy ++ orderBy.map (·.expr), a.isRowLevel = true
  | _ => True

theorem applyUnary_eq_ok {op : UnaryOp} {a e : Expr} (h : applyUnary op a = .ok e) :
    e = .unary op a := by
  obtain ⟨-, -, h⟩ := bind_eq_ok.mp h
  simpa using h.symm

theorem applyBinary_eq_ok {op : BinaryOp} {l r e : Expr} (h : applyBinary op l r = .ok e) :
    e = .binary op l r := by
  obtain ⟨-, -, h⟩ := bind_eq_ok.mp h
  simpa using h.symm

theorem dataTypes_eq (es : List Expr) : dataTypes es = es.map dataType := by
  induction es with
  | nil => rfl
  | cons e rest ih => simp [dataTypes, ih]

theorem takesArguments_of_resultType {f : ScalarFunction} {ts : List DataType} {t : DataType}
    (h : f.resultType ts = .ok t) : TakesArguments f ts.length := by
  unfold TakesArguments
  match ts with
  | [] => cases f <;> simp [ScalarFunction.resultType] at h
  | [_] => exact .inl rfl
  | _ :: _ :: rest =>
    cases f with
    | substr => simp
    | coalesce => simp
    | round =>
      cases rest with
      | nil => simp
      | cons => simp [ScalarFunction.resultType, PlanSql.bind_eq_ok] at h
    | abs | ceil | floor => simp [ScalarFunction.resultType, PlanSql.bind_eq_ok] at h
    | lower | upper | length => simp [ScalarFunction.resultType] at h

theorem applyFunction_eq_ok {f : ScalarFunction} {args : List Expr} {e : Expr}
    (h : applyFunction f args = .ok e) :
    e = .function f args ∧ TakesArguments f args.length := by
  obtain ⟨t, ht, h⟩ := bind_eq_ok.mp h
  have hn := takesArguments_of_resultType ht
  rw [dataTypes_eq, List.length_map] at hn
  exact ⟨by simpa using h.symm, hn⟩

theorem applyExtract_eq_ok {p : DatePart} {a e : Expr} (h : applyExtract p a = .ok e) :
    e = .extract p a := by
  obtain ⟨-, -, h⟩ := bind_eq_ok.mp h
  simpa using h.symm

theorem applyToTimestamp_eq_ok {a e : Expr} {u : TimeUnit} (h : applyToTimestamp a u = .ok e) :
    e = .toTimestamp a u := by
  obtain ⟨-, -, h⟩ := bind_eq_ok.mp h
  simpa using h.symm

theorem applyInList_eq_ok {a e : Expr} {vs : List Value} {negated : Bool}
    (h : applyInList a vs negated = .ok e) : e = .inList a vs negated := by
  obtain ⟨-, -, h⟩ := bind_eq_ok.mp h
  simpa using h.symm

theorem applyCase_eq_ok {branches : List (Expr × Expr)} {otherwise : Option Expr} {e : Expr}
    (h : applyCase branches otherwise = .ok e) :
    e = .case branches otherwise ∧ branches ≠ [] := by
  unfold applyCase at h
  obtain ⟨hb, h⟩ := guard_eq_ok.mp h
  obtain ⟨-, -, h⟩ := bind_eq_ok.mp h
  exact ⟨by simpa using h.symm, by simpa using hb⟩

theorem applyAggregate_eq_ok {f : AggregateFunction} {a e : Expr} {distinct : Bool}
    (h : applyAggregate f a distinct = .ok e) :
    e = .aggregate f (some a) distinct none ∧ a.isRowLevel = true := by
  unfold applyAggregate at h
  obtain ⟨ha, h⟩ := guard_eq_ok.mp h
  obtain ⟨hw, h⟩ := guard_eq_ok.mp h
  obtain ⟨-, -, h⟩ := bind_eq_ok.mp h
  exact ⟨by simpa using h.symm, by simp [isRowLevel, ha, hw]⟩

theorem withFilter_eq_ok {a c e : Expr} (h : withFilter a c = .ok e) :
    c.isRowLevel = true ∧ ∃ f arg distinct, a = .aggregate f arg distinct none ∧
      e = .aggregate f arg distinct (some c) := by
  obtain ⟨-, -, h⟩ := bind_eq_ok.mp h
  obtain ⟨hc, h⟩ := guard_eq_ok.mp h
  refine ⟨by simpa using hc, ?_⟩
  split at h
  · exact ⟨_, _, _, rfl, by simpa using h.symm⟩
  · simp at h
  · simp at h

theorem shift_eq_ok {f : WindowFunction} {a e : Expr} {offset : Int}
    (h : shift f a offset = .ok e) :
    e = .window f [a, .int offset] [] [] ∧ a.isRowLevel = true := by
  unfold shift at h
  obtain ⟨ha, h⟩ := guard_eq_ok.mp h
  exact ⟨by simpa using h.symm, by simpa using ha⟩

theorem applyOver_eq_ok {a e : Expr} {ps : List Expr} {ks : List (SortKey Expr)}
    (h : applyOver a ps ks = .ok e) :
    (∀ p ∈ ps ++ ks.map (·.expr), p.isRowLevel = true) ∧
      ((∃ f args ps' ks', a = .window f args ps' ks' ∧ e = .window f args ps ks) ∨
        ∃ f arg, a = .aggregate f arg false none ∧
          e = .window (.aggregate f) arg.toList ps ks) := by
  unfold applyOver at h
  obtain ⟨hr, h⟩ := guard_eq_ok.mp h
  refine ⟨List.all_eq_true.mp (by simpa using hr), ?_⟩
  split at h
  · exact .inl ⟨_, _, _, _, rfl, by simpa using h.symm⟩
  · exact .inr ⟨_, _, rfl, by simpa using h.symm⟩
  · simp at h
  · simp at h

theorem isRowLevel_int (i : Int) : (Expr.int i).isRowLevel = true := rfl

/-- What constructors have made is made of what they have made, and each of them has seen to what
it checks. -/
theorem Made.formed_and_children {e : Expr} (h : e.Made) :
    e.Formed ∧ ∀ c ∈ e.children, c.Made := by
  induction h with
  | literal v => exact ⟨trivial, by simp [children]⟩
  | column ref t => exact ⟨trivial, by simp [children]⟩
  | countStar => exact ⟨⟨fun _ => ⟨rfl, rfl⟩, by simp, by simp⟩, by simp [Expr.countStar, children]⟩
  | ranking hf => exact ⟨by simp [Expr.ranking, Formed], by simp [Expr.ranking, children]⟩
  | unary ha h =>
    obtain rfl := applyUnary_eq_ok h
    exact ⟨trivial, by simpa [children] using ha⟩
  | binary hl hr h =>
    obtain rfl := applyBinary_eq_ok h
    exact ⟨trivial, by simpa [children] using ⟨hl, hr⟩⟩
  | function ha h =>
    obtain ⟨rfl, hne⟩ := applyFunction_eq_ok h
    exact ⟨hne, ha⟩
  | extract ha h =>
    obtain rfl := applyExtract_eq_ok h
    exact ⟨trivial, by simpa [children] using ha⟩
  | toTimestamp ha h =>
    obtain rfl := applyToTimestamp_eq_ok h
    exact ⟨trivial, by simpa [children] using ha⟩
  | inList ha h =>
    obtain rfl := applyInList_eq_ok h
    exact ⟨trivial, by simpa [children] using ha⟩
  | isNull ha | cast ha => exact ⟨trivial, by simpa [children] using ha⟩
  | case hc hr ho h =>
    obtain ⟨rfl, hne⟩ := applyCase_eq_ok h
    refine ⟨hne, fun c hm => ?_⟩
    simp only [children, List.mem_append, List.mem_flatMap, List.mem_cons, List.not_mem_nil,
      or_false, Option.mem_toList] at hm
    rcases hm with ⟨b, hb, rfl | rfl⟩ | hm
    · exact hc b hb
    · exact hr b hb
    · exact ho c hm
  | aggregate ha h =>
    obtain ⟨rfl, hr⟩ := applyAggregate_eq_ok h
    exact ⟨by simpa [Formed] using hr, by simpa [children] using ha⟩
  | withFilter ha hc h iha =>
    obtain ⟨hr, f, arg, distinct, rfl, rfl⟩ := withFilter_eq_ok h
    obtain ⟨⟨hn, harg, -⟩, hch⟩ := iha
    refine ⟨⟨hn, harg, by simpa using hr⟩, fun c hm => ?_⟩
    simp only [children, List.mem_append, Option.mem_toList,
      Option.some.injEq] at hm
    rcases hm with hm | rfl
    · exact hch c (by simpa [children] using hm)
    · exact hc
  | shift hf ha h =>
    obtain ⟨rfl, hr⟩ := shift_eq_ok h
    exact ⟨by simpa [Formed, isRowLevel_int] using hr,
      by simpa [children] using ⟨ha, .literal _⟩⟩
  | windowed ha hp hk h iha =>
    -- a window keeps the arguments of what it replaces, so these are known from there
    obtain ⟨hr, ⟨f, args, ps', ks', rfl, rfl⟩ | ⟨f, arg, rfl, rfl⟩⟩ := applyOver_eq_ok h
    · obtain ⟨hf, hch⟩ := iha
      simp only [Formed, children, List.mem_append, List.mem_map] at hf hch hr ⊢
      grind
    · obtain ⟨⟨-, harg, -⟩, hch⟩ := iha
      simp only [Formed, children, List.mem_append, List.mem_map, Option.mem_toList]
        at harg hch hr ⊢
      grind

theorem Made.binary_of_resultType {op : BinaryOp} {l r : Expr} {t : DataType} (hl : l.Made)
    (hr : r.Made) (h : op.resultType l.dataType r.dataType = .ok t) :
    (Expr.binary op l r).Made := by
  have happly : applyBinary op l r = .ok (.binary op l r) := by simp [applyBinary, h]
  exact .binary hl hr happly

theorem Made.function_of_resultType {f : ScalarFunction} {as : List Expr} {t : DataType}
    (ha : ∀ a ∈ as, a.Made) (h : f.resultType (as.map dataType) = .ok t) :
    (Expr.function f as).Made := by
  have happly : applyFunction f as = .ok (.function f as) := by
    simp [applyFunction, dataTypes_eq, h]
  exact .function ha happly

theorem Made.formed {e : Expr} (h : e.Made) : e.Formed := h.formed_and_children.1

theorem Made.child {e c : Expr} (h : e.Made) (hc : c ∈ e.children) : c.Made :=
  h.formed_and_children.2 c hc

theorem Made.part {e p : Expr} (h : e.Made) (hp : p ∈ e.parts) : p.Made := by
  induction e using induct with
  | step e ih =>
    rcases mem_parts.mp hp with rfl | ⟨c, hc, hpc⟩
    · exact h
    · exact ih c hc (h.child hc) hpc

/-- The operands of an aggregate and of a window function are row-level. -/
theorem Formed.isRowLevel_child {e c : Expr} (h : e.Formed)
    (hp : e.isAggregate = true ∨ e.isWindow = true) (hc : c ∈ e.children) :
    c.isRowLevel = true := by
  cases e with
  | aggregate f arg distinct filter =>
    obtain ⟨-, harg, hfilter⟩ := h
    simp only [children, List.mem_append, Option.mem_toList] at hc
    exact hc.elim (harg c) (hfilter c)
  | window f args ps ks => exact h c hc
  | _ => simp [isAggregate, isWindow] at hp

/-- Without an aggregate that belongs to a group there is none at all; those within windows are the
windows themselves. -/
theorem Made.isAggregate_of_part {e p : Expr} (h : e.Made) (ha : e.containsAggregate = false)
    (hp : p ∈ e.parts) : p.isAggregate = false := by
  induction e using induct with
  | step e ih =>
    have hwalk : ∀ q ∈ e.walk isWindow, q.isAggregate = false := by
      simpa [containsAggregate] using ha
    rcases mem_parts.mp hp with rfl | ⟨c, hc, hpc⟩
    · exact hwalk p (mem_walk_self _ p)
    · cases hw : e.isWindow with
      | true => exact (isRowLevel_iff.mp (h.formed.isRowLevel_child (.inr hw) hc) p hpc).1
      | false =>
        refine ih c hc (h.child hc) ?_ hpc
        exact List.any_eq_false.mpr fun q hq => by
          simp [hwalk q (mem_walk_of_child hw hc hq)]

theorem Made.isRowLevel_of_part {e p : Expr} (h : e.Made) (ha : e.containsAggregate = false)
    (hw : e.containsWindow = false) (hp : p ∈ e.parts) : p.isRowLevel = true := by
  apply isRowLevel_iff.mpr
  intro q hq
  have hqe := mem_parts_trans hp hq
  exact ⟨h.isAggregate_of_part ha hqe, containsWindow_eq_false.mp hw q hqe⟩

/-- Aggregates and window functions are not nested: below one of them there is neither. An aggregate
without an argument counts rows, and the aggregates that stand anywhere in the expression are those
that a walk which stops at window functions meets. -/
structure Unnested (e : Expr) : Prop where
  below : ∀ p ∈ e.parts, p.isAggregate = true ∨ p.isWindow = true → ∀ c ∈ p.children,
    ∀ q ∈ c.parts, q.isAggregate = false ∧ q.isWindow = false
  argument : ∀ f distinct filter, .aggregate f none distinct filter ∈ e.parts →
    f = .count ∧ distinct = false
  visible : e.containsAggregate = true ↔ ∃ p ∈ e.parts, p.isAggregate = true

/-- What constructors check one at a time keeps aggregates and window functions from being nested,
whatever the calls are. -/
theorem Made.unnested {e : Expr} (h : e.Made) : e.Unnested where
  below p hp hroot c hc := isRowLevel_iff.mp ((h.part hp).formed.isRowLevel_child hroot hc)
  argument f distinct filter hp := (h.part hp).formed.1 rfl
  visible := by
    constructor
    · intro ha
      obtain ⟨p, hp, hpa⟩ := List.any_eq_true.mp ha
      exact ⟨p, mem_parts_of_mem_walk hp, hpa⟩
    · rintro ⟨p, hp, hpa⟩
      by_contra ha
      simp [h.isAggregate_of_part (by simpa using ha) hp] at hpa

/-- Constructors have made the expression, out of no other columns than those with the property. -/
def MadeWith (C : ColumnRef → DataType → Prop) (e : Expr) : Prop :=
  e.Made ∧ ∀ ref t, .column ref t ∈ e.parts → C ref t

namespace MadeWith

variable {C : ColumnRef → DataType → Prop}

theorem of_children {e : Expr} (hm : e.Made) (hn : e.column? = none)
    (hc : ∀ c ∈ e.children, c.MadeWith C) : e.MadeWith C := by
  refine ⟨hm, fun ref t hp => ?_⟩
  rcases mem_parts.mp hp with rfl | ⟨c, hmem, hp⟩
  · simp [column?] at hn
  · exact (hc c hmem).2 ref t hp

theorem child {e c : Expr} (h : e.MadeWith C) (hc : c ∈ e.children) : c.MadeWith C :=
  ⟨h.1.child hc, fun ref t hp => h.2 ref t (mem_parts_of_child hc hp)⟩

theorem mono {C' : ColumnRef → DataType → Prop} {e : Expr} (h : e.MadeWith C)
    (hc : ∀ ref t, C ref t → C' ref t) : e.MadeWith C' :=
  ⟨h.1, fun ref t hp => hc ref t (h.2 ref t hp)⟩

theorem literal (v : Value) : MadeWith C (.literal v) :=
  of_children (.literal v) rfl (by simp [children])

theorem column {ref : ColumnRef} {t : DataType} (h : C ref t) : MadeWith C (.column ref t) := by
  refine ⟨.column ref t, fun ref' t' hp => ?_⟩
  rcases mem_parts.mp hp with he | ⟨c, hc, -⟩
  · obtain ⟨rfl, rfl⟩ := Expr.column.inj he
    exact h
  · simp [children] at hc

theorem countStar : MadeWith C countStar :=
  of_children .countStar rfl (by simp [Expr.countStar, children])

theorem ranking {f : WindowFunction} (hf : f ∈ [.rowNumber, .rank, .denseRank]) :
    MadeWith C (ranking f) :=
  of_children (.ranking hf) rfl (by simp [Expr.ranking, children])

theorem unary {op : UnaryOp} {a e : Expr} (ha : a.MadeWith C) (h : applyUnary op a = .ok e) :
    e.MadeWith C := by
  have hm := Made.unary ha.1 h
  obtain rfl := applyUnary_eq_ok h
  exact of_children hm rfl (by simpa [children] using ha)

theorem binary {op : BinaryOp} {l r e : Expr} (hl : l.MadeWith C) (hr : r.MadeWith C)
    (h : applyBinary op l r = .ok e) : e.MadeWith C := by
  have hm := Made.binary hl.1 hr.1 h
  obtain rfl := applyBinary_eq_ok h
  exact of_children hm rfl (by simpa [children] using ⟨hl, hr⟩)

theorem function {f : ScalarFunction} {args : List Expr} {e : Expr}
    (ha : ∀ a ∈ args, a.MadeWith C) (h : applyFunction f args = .ok e) : e.MadeWith C := by
  have hm := Made.function (fun a hmem => (ha a hmem).1) h
  obtain ⟨rfl, -⟩ := applyFunction_eq_ok h
  exact of_children hm rfl ha

theorem extract {p : DatePart} {a e : Expr} (ha : a.MadeWith C) (h : applyExtract p a = .ok e) :
    e.MadeWith C := by
  have hm := Made.extract ha.1 h
  obtain rfl := applyExtract_eq_ok h
  exact of_children hm rfl (by simpa [children] using ha)

theorem toTimestamp {a e : Expr} {u : TimeUnit} (ha : a.MadeWith C)
    (h : applyToTimestamp a u = .ok e) : e.MadeWith C := by
  have hm := Made.toTimestamp ha.1 h
  obtain rfl := applyToTimestamp_eq_ok h
  exact of_children hm rfl (by simpa [children] using ha)

theorem inList {a e : Expr} {vs : List Value} {negated : Bool} (ha : a.MadeWith C)
    (h : applyInList a vs negated = .ok e) : e.MadeWith C := by
  have hm := Made.inList ha.1 h
  obtain rfl := applyInList_eq_ok h
  exact of_children hm rfl (by simpa [children] using ha)

theorem isNull {a : Expr} {negated : Bool} (ha : a.MadeWith C) : MadeWith C (.isNull a negated) :=
  of_children (.isNull ha.1) rfl (by simpa [children] using ha)

theorem cast {a : Expr} {t : DataType} (ha : a.MadeWith C) : MadeWith C (.cast a t) :=
  of_children (.cast ha.1) rfl (by simpa [children] using ha)

theorem case {branches : List (Expr × Expr)} {otherwise : Option Expr} {e : Expr}
    (hb : ∀ b ∈ branches, b.1.MadeWith C ∧ b.2.MadeWith C) (ho : ∀ a ∈ otherwise, a.MadeWith C)
    (h : applyCase branches otherwise = .ok e) : e.MadeWith C := by
  have hm := Made.case (fun b hmem => (hb b hmem).1.1) (fun b hmem => (hb b hmem).2.1)
    (fun a hmem => (ho a hmem).1) h
  obtain ⟨rfl, -⟩ := applyCase_eq_ok h
  refine of_children hm rfl fun c hc => ?_
  simp only [children, List.mem_append, List.mem_flatMap, List.mem_cons, List.not_mem_nil,
    or_false, Option.mem_toList] at hc
  rcases hc with ⟨b, hmem, rfl | rfl⟩ | hc
  · exact (hb b hmem).1
  · exact (hb b hmem).2
  · exact ho c hc

theorem aggregate {f : AggregateFunction} {a e : Expr} {distinct : Bool} (ha : a.MadeWith C)
    (h : applyAggregate f a distinct = .ok e) : e.MadeWith C := by
  have hm := Made.aggregate ha.1 h
  obtain ⟨rfl, -⟩ := applyAggregate_eq_ok h
  exact of_children hm rfl (by simpa [children] using ha)

theorem withFilter {a condition e : Expr} (ha : a.MadeWith C) (hc : condition.MadeWith C)
    (h : withFilter a condition = .ok e) : e.MadeWith C := by
  have hm := Made.withFilter ha.1 hc.1 h
  obtain ⟨-, f, arg, distinct, rfl, rfl⟩ := withFilter_eq_ok h
  refine of_children hm rfl fun c hmem => ?_
  simp only [children, List.mem_append, Option.mem_toList, Option.some.injEq] at hmem
  rcases hmem with hmem | rfl
  · exact ha.child (by simpa [children] using hmem)
  · exact hc

theorem shift {f : WindowFunction} {a e : Expr} {offset : Int} (hf : f ∈ [.lag, .lead])
    (ha : a.MadeWith C) (h : shift f a offset = .ok e) : e.MadeWith C := by
  have hm := Made.shift hf ha.1 h
  obtain ⟨rfl, -⟩ := shift_eq_ok h
  exact of_children hm rfl (by simpa [children] using ⟨ha, literal _⟩)

theorem windowed {a e : Expr} {ps : List Expr} {ks : List (SortKey Expr)} (ha : a.MadeWith C)
    (hp : ∀ p ∈ ps, p.MadeWith C) (hk : ∀ k ∈ ks, k.expr.MadeWith C)
    (h : applyOver a ps ks = .ok e) : e.MadeWith C := by
  have hm := Made.windowed ha.1 (fun p hmem => (hp p hmem).1) (fun k hmem => (hk k hmem).1) h
  obtain ⟨-, ⟨f, args, ps', ks', rfl, rfl⟩ | ⟨f, arg, rfl, rfl⟩⟩ := applyOver_eq_ok h
  all_goals
    refine of_children hm rfl fun c hc => ?_
    simp only [children, List.mem_append, List.mem_map] at hc
    rcases hc with (hc | hc) | ⟨k, hmem, rfl⟩
    · exact ha.child (by simp_all [children])
    · exact hp c hc
    · exact hk k hmem

end MadeWith

end PlanSql.Expr
