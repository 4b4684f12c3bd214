import PlanSql.Proofs.Expr.Typing

/-!
# Choices between alternatives

A choice, by conditions or by absence, has the common type of its alternatives, joined from left to
right. Joining is partial. Types fall into families, those that convert to the same widest type, and
only within a family is there a common type; `null` converts into every family. Within a family the
common type is a least upper bound, so that neither whether a choice has a type nor which one it has
depends on the order of the alternatives.
-/
namespace PlanSql

/-- A partial operation under which elements have an upper bound or none, whatever order they are
taken in. -/
structure IsPartialJoin {α : Type} (op : α → α → Option α) (unit : α) : Prop where
  comm : ∀ a b, op a b = op b a
  assoc : ∀ a b c, ((op a b).bind fun ab => op ab c) = (op b c).bind fun bc => op a bc
  idem : ∀ a, op a a = some a
  unit_left : ∀ a, op unit a = some a

namespace IsPartialJoin

variable {α : Type} {op : α → α → Option α} {unit : α}

theorem right_comm (h : IsPartialJoin op unit) (a b c : α) :
    ((op a b).bind fun ab => op ab c) = (op a c).bind fun ac => op ac b := by
  rw [h.assoc, h.comm b c, ← h.assoc]

theorem foldlM_perm (h : IsPartialJoin op unit) {xs ys : List α} (p : xs.Perm ys) (start : α) :
    xs.foldlM op start = ys.foldlM op start := by
  induction p generalizing start with
  | nil => rfl
  | cons x _ ih => simp only [List.foldlM_cons, ih]
  | swap x y zs =>
    simp only [List.foldlM_cons, Option.bind_eq_bind, ← Option.bind_assoc]
    rw [h.right_comm]
  | trans _ _ ih₁ ih₂ => exact (ih₁ start).trans (ih₂ start)

end IsPartialJoin

namespace DataType

def precision : DataType → Nat
  | .decimal p _ => p
  | _ => 0

def scale : DataType → Nat
  | .decimal _ s => s
  | _ => 0

/-- A number that single precision holds or that is one of single precision. -/
def isSingle (t : DataType) : Bool := t.fitsFloat32 && t ≠ .float64

/-- The type in which a family of types ends. Types have a common type within their family only. -/
def widest (t : DataType) : DataType :=
  if t.isNumeric then .float64 else if t = .date then .timestamp else t

/-- The common type of two types of one family. -/
def within (s t : DataType) : DataType :=
  if s.isNumeric then s.promote t else if s = t then s else .timestamp

/-! Numbers. -/

theorem precision_eq_zero {t : DataType} (h : t.isDecimal = false) : t.precision = 0 := by
  cases t <;> simp_all [isDecimal, precision]

theorem scale_eq_zero {t : DataType} (h : t.isDecimal = false) : t.scale = 0 := by
  cases t <;> simp_all [isDecimal, scale]

theorem fitsFloat32_eq (t : DataType) :
    t.fitsFloat32 = (!t.isDecimal && decide (t.integerRank < 4)) := by
  cases t <;> rfl

/-- What a promotion comes to is decided by whether one of the types is floating, then by whether one
is decimal, then by width. -/
theorem promote_eq (s t : DataType) :
    s.promote t =
      if s.isFloating || t.isFloating then
        if s.isSingle && t.isSingle then .float32 else .float64
      else if s.isDecimal || t.isDecimal then
        .decimal (max s.precision t.precision) (max s.scale t.scale)
      else if t.integerRank ≤ s.integerRank then s else t := by
  fun_cases promote s t <;>
    grind [isFloating, isSingle, fitsFloat32, isDecimal, precision, scale]

theorem isFloating_promote (s t : DataType) :
    (s.promote t).isFloating = (s.isFloating || t.isFloating) := by
  rw [promote_eq]
  grind [isFloating]

theorem isSingle_promote (s t : DataType) :
    (s.promote t).isSingle = (s.isSingle && t.isSingle) := by
  rw [promote_eq]
  split_ifs <;> grind [isFloating, isSingle, fitsFloat32_eq, isDecimal, integerRank]

theorem promote_of_floating {s t : DataType} (h : (s.isFloating || t.isFloating) = true) :
    s.promote t = if s.isSingle && t.isSingle then .float32 else .float64 := by
  rw [promote_eq, if_pos h]

theorem promote_of_decimal {s t : DataType} (h : (s.isFloating || t.isFloating) = false)
    (hd : (s.isDecimal || t.isDecimal) = true) :
    s.promote t = .decimal (max s.precision t.precision) (max s.scale t.scale) := by
  rw [promote_eq, if_neg (by simp [h]), if_pos hd]

theorem promote_of_neither {s t : DataType} (h : (s.isFloating || t.isFloating) = false)
    (hd : (s.isDecimal || t.isDecimal) = false) :
    s.promote t = if t.integerRank ≤ s.integerRank then s else t := by
  rw [promote_eq, if_neg (by simp [h]), if_neg (by simp [hd])]

theorem isDecimal_promote {s t : DataType} (h : (s.isFloating || t.isFloating) = false) :
    (s.promote t).isDecimal = (s.isDecimal || t.isDecimal) := by
  cases hd : s.isDecimal || t.isDecimal with
  | true => rw [promote_of_decimal h hd, isDecimal]
  | false => grind [promote_of_neither h hd]

theorem precision_promote {s t : DataType} (h : (s.isFloating || t.isFloating) = false) :
    (s.promote t).precision = max s.precision t.precision := by
  cases hd : s.isDecimal || t.isDecimal with
  | true => rw [promote_of_decimal h hd, precision]
  | false =>
    obtain ⟨hs, ht⟩ := Bool.or_eq_false_iff.mp hd
    rw [promote_of_neither h hd, precision_eq_zero hs, precision_eq_zero ht]
    split
    · exact precision_eq_zero hs
    · exact precision_eq_zero ht

theorem scale_promote {s t : DataType} (h : (s.isFloating || t.isFloating) = false) :
    (s.promote t).scale = max s.scale t.scale := by
  cases hd : s.isDecimal || t.isDecimal with
  | true => rw [promote_of_decimal h hd, scale]
  | false =>
    obtain ⟨hs, ht⟩ := Bool.or_eq_false_iff.mp hd
    rw [promote_of_neither h hd, scale_eq_zero hs, scale_eq_zero ht]
    split
    · exact scale_eq_zero hs
    · exact scale_eq_zero ht

theorem isFloating_of_isInteger {t : DataType} (h : t.isInteger = true) : t.isFloating = false := by
  cases t <;> simp_all [isInteger, isFloating]

theorem isDecimal_of_isInteger {t : DataType} (h : t.isInteger = true) : t.isDecimal = false := by
  cases t <;> simp_all [isInteger, isDecimal]

theorem promote_of_integer {s t : DataType} (hs : s.isInteger = true) (ht : t.isInteger = true) :
    s.promote t = if t.integerRank ≤ s.integerRank then s else t := by
  refine promote_of_neither ?_ ?_
  · rw [isFloating_of_isInteger hs, isFloating_of_isInteger ht, Bool.or_self]
  · rw [isDecimal_of_isInteger hs, isDecimal_of_isInteger ht, Bool.or_self]

theorem isInteger_promote {s t : DataType} (hs : s.isInteger = true) (ht : t.isInteger = true) :
    (s.promote t).isInteger = true := by
  rw [promote_of_integer hs ht]
  split <;> assumption

theorem integerRank_promote {s t : DataType} (hs : s.isInteger = true) (ht : t.isInteger = true) :
    (s.promote t).integerRank = max s.integerRank t.integerRank := by
  rw [promote_of_integer hs ht]
  split <;> omega

theorem integerRank_inj {s t : DataType} (hs : s.isInteger = true) (ht : t.isInteger = true)
    (h : s.integerRank = t.integerRank) : s = t := by
  cases s <;> simp only [isInteger, Bool.false_eq_true] at hs <;> cases t <;>
    simp_all [isInteger, integerRank]

/-- A number that is neither floating nor decimal is an integer. -/
theorem isInteger_of_isNumeric {t : DataType} (h : t.isNumeric = true)
    (hf : t.isFloating = false) (hd : t.isDecimal = false) : t.isInteger = true := by
  simpa [isNumeric, hf, hd] using h

theorem isNumeric_promote {s t : DataType} (hs : s.isNumeric = true) (ht : t.isNumeric = true) :
    (s.promote t).isNumeric = true := by
  rw [promote_eq]
  grind [isNumeric, isFloating, isDecimal]

theorem promote_self (t : DataType) : t.promote t = t := by
  cases t <;> simp [promote, fitsFloat32]

theorem promote_comm {s t : DataType} (hs : s.isNumeric = true) (ht : t.isNumeric = true) :
    s.promote t = t.promote s := by
  by_cases hf : (s.isFloating || t.isFloating) = true
  · rw [promote_of_floating hf, promote_of_floating (Bool.or_comm .. ▸ hf), Bool.and_comm]
  simp only [Bool.not_eq_true] at hf
  by_cases hd : (s.isDecimal || t.isDecimal) = true
  · rw [promote_of_decimal hf hd, promote_of_decimal (Bool.or_comm .. ▸ hf)
      (Bool.or_comm .. ▸ hd), Nat.max_comm, Nat.max_comm s.scale]
  simp only [Bool.not_eq_true, Bool.or_eq_false_iff] at hf hd
  have hs := isInteger_of_isNumeric hs hf.1 hd.1
  have ht := isInteger_of_isNumeric ht hf.2 hd.2
  refine integerRank_inj (isInteger_promote hs ht) (isInteger_promote ht hs) ?_
  rw [integerRank_promote hs ht, integerRank_promote ht hs, Nat.max_comm]

theorem promote_assoc {s t u : DataType} (hs : s.isNumeric = true) (ht : t.isNumeric = true)
    (hu : u.isNumeric = true) : (s.promote t).promote u = s.promote (t.promote u) := by
  by_cases hf : (s.isFloating || t.isFloating || u.isFloating) = true
  · have hl : ((s.promote t).isFloating || u.isFloating) = true := by
      rw [isFloating_promote, hf]
    have hr : (s.isFloating || (t.promote u).isFloating) = true := by
      rw [isFloating_promote, ← Bool.or_assoc, hf]
    rw [promote_of_floating hl, promote_of_floating hr, isSingle_promote, isSingle_promote,
      Bool.and_assoc]
  simp only [Bool.not_eq_true, Bool.or_eq_false_iff] at hf
  obtain ⟨⟨hfs, hft⟩, hfu⟩ := hf
  have hst : (s.isFloating || t.isFloating) = false := by rw [hfs, hft, Bool.or_false]
  have htu : (t.isFloating || u.isFloating) = false := by rw [hft, hfu, Bool.or_false]
  have hl : ((s.promote t).isFloating || u.isFloating) = false := by
    rw [isFloating_promote, hst, hfu, Bool.or_false]
  have hr : (s.isFloating || (t.promote u).isFloating) = false := by
    rw [isFloating_promote, htu, hfs, Bool.or_false]
  by_cases hd : (s.isDecimal || t.isDecimal || u.isDecimal) = true
  · rw [promote_of_decimal hl (by rw [isDecimal_promote hst, hd]),
      promote_of_decimal hr (by rw [isDecimal_promote htu, ← Bool.or_assoc, hd]),
      precision_promote hst, precision_promote htu, scale_promote hst, scale_promote htu,
      Nat.max_assoc, Nat.max_assoc]
  simp only [Bool.not_eq_true, Bool.or_eq_false_iff] at hd
  have hs := isInteger_of_isNumeric hs hfs hd.1.1
  have ht := isInteger_of_isNumeric ht hft hd.1.2
  have hu := isInteger_of_isNumeric hu hfu hd.2
  have hst := isInteger_promote hs ht
  have htu := isInteger_promote ht hu
  refine integerRank_inj (isInteger_promote hst hu) (isInteger_promote hs htu) ?_
  rw [integerRank_promote hst hu, integerRank_promote hs htu, integerRank_promote hs ht,
    integerRank_promote ht hu, Nat.max_assoc]

/-! Families. -/

theorem widest_eq_float64 {t : DataType} : t.widest = .float64 ↔ t.isNumeric = true := by
  cases t <;> simp [widest, isNumeric, isInteger, isFloating, isDecimal]

theorem widest_eq_null {t : DataType} : t.widest = .null ↔ t.isNull = true := by
  cases t <;> simp [widest, isNumeric, isInteger, isFloating, isDecimal, isNull]

theorem widest_of_not_isNumeric {t : DataType} (h : ¬ t.isNumeric = true) :
    t.widest = if t = .date then .timestamp else t := by
  rw [widest, if_neg h]

/-- Of the types of one family all are numeric or none is. -/
theorem isNumeric_congr {s t : DataType} (h : s.widest = t.widest) :
    s.isNumeric = true ↔ t.isNumeric = true := by
  rw [← widest_eq_float64, ← widest_eq_float64, h]

theorem within_of_isNumeric {s : DataType} (h : s.isNumeric = true) (t : DataType) :
    s.within t = s.promote t := if_pos h

theorem within_of_not_isNumeric {s : DataType} (h : ¬ s.isNumeric = true) (t : DataType) :
    s.within t = if s = t then s else .timestamp := if_neg h

theorem within_self (t : DataType) : t.within t = t := by
  rw [within, promote_self, if_pos rfl, ite_self]

theorem commonType_eq {s t : DataType} (hs : s.isNull = false) (ht : t.isNull = false) :
    s.commonType t = if s.widest = t.widest then some (s.within t) else none := by
  by_cases h : s = t
  · subst h
    simp [commonType, hs, within_self]
  simp only [commonType, hs, ht, h, Bool.false_eq_true, if_false, Bool.or_self, decide_false]
  by_cases hn : (s.isNumeric && t.isNumeric) = true
  · obtain ⟨hns, hnt⟩ := Bool.and_eq_true_iff.mp hn
    rw [if_pos hn, if_pos ((widest_eq_float64.mpr hns).trans (widest_eq_float64.mpr hnt).symm),
      within_of_isNumeric hns]
  rw [if_neg hn]
  by_cases hw : s.widest = t.widest
  · -- neither is numeric, so the types are the two of dates
    have hns : ¬ s.isNumeric = true := fun hns =>
      hn (Bool.and_eq_true_iff.mpr ⟨hns, (isNumeric_congr hw).mp hns⟩)
    have hnt := mt (isNumeric_congr hw).mpr hns
    rw [if_pos hw, within_of_not_isNumeric hns]
    rw [widest_of_not_isNumeric hns, widest_of_not_isNumeric hnt] at hw
    grind
  · rw [if_neg hw, if_neg]
    intro hd
    rcases Bool.or_eq_true_iff.mp hd with hd | hd
    all_goals
      obtain ⟨rfl, rfl⟩ := by simpa using hd
      exact hw rfl

theorem widest_within {s t : DataType} (h : s.widest = t.widest) :
    (s.within t).widest = s.widest := by
  by_cases hn : s.isNumeric = true
  · have ht := (isNumeric_congr h).mp hn
    rw [within_of_isNumeric hn, widest_eq_float64.mpr hn,
      widest_eq_float64.mpr (isNumeric_promote hn ht)]
  · have ht := mt (isNumeric_congr h).mpr hn
    rw [widest_of_not_isNumeric hn, widest_of_not_isNumeric ht] at h
    rw [within_of_not_isNumeric hn]
    grind [widest]

theorem within_comm {s t : DataType} (h : s.widest = t.widest) : s.within t = t.within s := by
  by_cases hn : s.isNumeric = true
  · have ht := (isNumeric_congr h).mp hn
    rw [within_of_isNumeric hn, within_of_isNumeric ht, promote_comm hn ht]
  · have ht := mt (isNumeric_congr h).mpr hn
    rw [within_of_not_isNumeric hn, within_of_not_isNumeric ht]
    grind

theorem within_assoc {s t u : DataType} (hst : s.widest = t.widest) (htu : t.widest = u.widest) :
    (s.within t).within u = s.within (t.within u) := by
  by_cases hn : s.isNumeric = true
  · have ht := (isNumeric_congr hst).mp hn
    have hu := (isNumeric_congr htu).mp ht
    rw [within_of_isNumeric hn, within_of_isNumeric ht, within_of_isNumeric hn,
      within_of_isNumeric (isNumeric_promote hn ht), promote_assoc hn ht hu]
  · have ht := mt (isNumeric_congr hst).mpr hn
    have hw := mt (isNumeric_congr (widest_within hst)).mp hn
    rw [within_of_not_isNumeric hw, within_of_not_isNumeric hn, within_of_not_isNumeric ht,
      within_of_not_isNumeric hn]
    grind

theorem isNull_within {s t : DataType} (hs : s.isNull = false) (h : s.widest = t.widest) :
    (s.within t).isNull = false := by
  rw [← Bool.not_eq_true, ← widest_eq_null] at hs ⊢
  rwa [widest_within h]

theorem isNull_iff {t : DataType} : t.isNull = true ↔ t = .null := by
  cases t <;> simp [isNull]

@[simp] theorem commonType_null_left (t : DataType) : null.commonType t = some t := rfl

@[simp] theorem commonType_null_right (s : DataType) : s.commonType null = some s := by
  cases s <;> rfl

/-- Types that may be compared are those that have a common type. -/
theorem comparable_iff {s t : DataType} :
    s.comparable t = true ↔ (s.commonType t).isSome = true := by
  unfold comparable commonType
  split_ifs <;> grind

theorem commonType_self (t : DataType) : t.commonType t = some t := by
  simp [commonType]

theorem commonType_comm (s t : DataType) : s.commonType t = t.commonType s := by
  by_cases hs : s.isNull = true
  · simp [isNull_iff.mp hs]
  by_cases ht : t.isNull = true
  · simp [isNull_iff.mp ht]
  simp only [Bool.not_eq_true] at hs ht
  rw [commonType_eq hs ht, commonType_eq ht hs]
  by_cases h : s.widest = t.widest
  · rw [if_pos h, if_pos h.symm, within_comm h]
  · rw [if_neg h, if_neg (Ne.symm h)]

theorem commonType_assoc (s t u : DataType) :
    ((s.commonType t).bind fun st => st.commonType u) =
      (t.commonType u).bind fun tu => s.commonType tu := by
  by_cases hs : s.isNull = true
  · simp [isNull_iff.mp hs]
  by_cases ht : t.isNull = true
  · simp [isNull_iff.mp ht]
  by_cases hu : u.isNull = true
  · simp [isNull_iff.mp hu]
  simp only [Bool.not_eq_true] at hs ht hu
  rw [commonType_eq hs ht, commonType_eq ht hu]
  by_cases hst : s.widest = t.widest
  · rw [if_pos hst, Option.bind_some, commonType_eq (isNull_within hs hst) hu, widest_within hst]
    by_cases htu : t.widest = u.widest
    · rw [if_pos htu, Option.bind_some, commonType_eq hs (isNull_within ht htu),
        widest_within htu, if_pos hst, if_pos (hst.trans htu), within_assoc hst htu]
    · rw [if_neg htu, if_neg (hst ▸ htu), Option.bind_none]
  · rw [if_neg hst, Option.bind_none]
    by_cases htu : t.widest = u.widest
    · rw [if_pos htu, Option.bind_some, commonType_eq hs (isNull_within ht htu),
        widest_within htu, if_neg hst]
    · rw [if_neg htu, Option.bind_none]

theorem isPartialJoin_commonType : IsPartialJoin commonType .null where
  comm := commonType_comm
  assoc := commonType_assoc
  idem := commonType_self
  unit_left := commonType_null_left

/-- The common type of a list of types. -/
def common (ts : List DataType) : Option DataType := ts.foldlM commonType .null

theorem common_perm {ts us : List DataType} (h : ts.Perm us) : common ts = common us :=
  isPartialJoin_commonType.foldlM_perm h .null

end DataType

/-- What becomes of a construction as far as types go. -/
inductive Verdict where
  | typed (t : DataType)
  | mismatch
  | refused (e : PlanError)

namespace Verdict

/-- The verdict on a computation that comes to a type or to something that has one. Two mismatches
may differ in the pair of types that they tell about. -/
def of {α : Type} (typeOf : α → DataType) : Except PlanError α → Verdict
  | .ok a => .typed (typeOf a)
  | .error (.typeMismatch ..) => .mismatch
  | .error e => .refused e

def ofCommon : Option DataType → Verdict
  | some t => .typed t
  | none => .mismatch

end Verdict

theorem of_foldlM_join (context : String) (ts : List DataType) (start : DataType) :
    Verdict.of id (ts.foldlM (DataType.join context) start) =
      .ofCommon (ts.foldlM DataType.commonType start) := by
  induction ts generalizing start with
  | nil => rfl
  | cons t ts ih =>
    simp only [List.foldlM_cons, DataType.join]
    cases start.commonType t with
    | none => rfl
    | some next => exact ih next

namespace Expr

/-- The results that a choice by conditions may have. -/
def alternatives (branches : List (Expr × Expr)) (otherwise : Option Expr) : List Expr :=
  branches.map (·.2) ++ otherwise.toList

def verdict : Except PlanError Expr → Verdict := .of dataType

/-- The verdict on an expression that is made as soon as its root has a type. -/
theorem verdict_rootType (e : Expr) :
    verdict (e.rootType >>= fun _ => .ok e) = .of id e.rootType := by
  cases h : e.rootType with
  | error err => cases err <;> rfl
  | ok t =>
    obtain rfl : t = e.dataType := Except.ok.inj (h.symm.trans (rootType_eq_dataType h))
    rfl

theorem verdict_applyCase {branches : List (Expr × Expr)} {otherwise : Option Expr}
    (hb : branches ≠ []) (h : ∀ b ∈ branches, b.1.dataType.isCondition = true) :
    verdict (applyCase branches otherwise) =
      .ofCommon (DataType.common ((alternatives branches otherwise).map dataType)) := by
  have happly : applyCase branches otherwise =
      (Expr.case branches otherwise).rootType >>= fun _ => .ok (.case branches otherwise) := by
    simp [applyCase, hb, rootType, branchTypes_eq]
  have hconditions : ∀ b ∈ branches.map fun b => (b.1.dataType, b.2.dataType),
      b.1.isCondition = true := List.forall_mem_map.mpr h
  rw [happly, verdict_rootType, rootType, caseType_eq hconditions, of_foldlM_join]
  cases otherwise <;> simp [alternatives, DataType.common, Function.comp_def]

theorem verdict_coalesce {args : List Expr} (h : args ≠ []) :
    verdict (applyFunction .coalesce args) = .ofCommon (DataType.common (args.map dataType)) := by
  have happly : applyFunction .coalesce args =
      (Expr.function .coalesce args).rootType >>= fun _ => .ok (.function .coalesce args) := by
    rw [applyFunction, dataTypes_eq]
    rfl
  rw [happly, verdict_rootType, rootType]
  cases args with
  | nil => exact absurd rfl h
  | cons a rest => exact of_foldlM_join _ ((a :: rest).map dataType) .null

theorem verdict_applyCase_perm {branches branches' : List (Expr × Expr)}
    {otherwise otherwise' : Option Expr} (hl : branches.length = branches'.length)
    (h : ∀ b ∈ branches ++ branches', b.1.dataType.isCondition = true)
    (p : (alternatives branches otherwise).Perm (alternatives branches' otherwise')) :
    verdict (applyCase branches otherwise) = verdict (applyCase branches' otherwise') := by
  obtain ⟨hc, hc'⟩ := List.forall_mem_append.mp h
  by_cases hb : branches = []
  · obtain rfl : branches' = [] := List.length_eq_zero_iff.mp (by rw [← hl, hb, List.length_nil])
    rw [hb]
    rfl
  have hb' : branches' ≠ [] := fun hb' => hb (List.length_eq_zero_iff.mp (by rw [hl, hb']; rfl))
  rw [verdict_applyCase hb hc, verdict_applyCase hb' hc', DataType.common_perm (p.map _)]

theorem verdict_coalesce_perm {args args' : List Expr} (p : args.Perm args') :
    verdict (applyFunction .coalesce args) = verdict (applyFunction .coalesce args') := by
  by_cases h : args = []
  · subst h
    rw [List.nil_perm.mp p]
  have h' : args' ≠ [] := fun h' => h (List.perm_nil.mp (h' ▸ p))
  rw [verdict_coalesce h, verdict_coalesce h', DataType.common_perm (p.map _)]

/-- The type of a choice, and whether it has one, do not depend on the order of its alternatives.
Conditions being conditions, the results may change their places, ELSE among them, and so may the
arguments of COALESCE; what a choice comes to is the common type of its alternatives or that they
have none. It is so because the common type is a partial join on all types, and it exists for the
types that may be compared. -/
theorem choice_perm :
    (∀ (branches branches' : List (Expr × Expr)) (otherwise otherwise' : Option Expr),
      branches.length = branches'.length →
      (∀ b ∈ branches ++ branches', b.1.dataType.isCondition = true) →
      (alternatives branches otherwise).Perm (alternatives branches' otherwise') →
      verdict (applyCase branches otherwise) = verdict (applyCase branches' otherwise') ∧
        (branches ≠ [] → verdict (applyCase branches otherwise) =
          .ofCommon (DataType.common ((alternatives branches otherwise).map dataType)))) ∧
    (∀ args args' : List Expr, args.Perm args' →
      verdict (applyFunction .coalesce args) = verdict (applyFunction .coalesce args') ∧
        (args ≠ [] → verdict (applyFunction .coalesce args) =
          .ofCommon (DataType.common (args.map dataType)))) ∧
    IsPartialJoin DataType.commonType .null ∧
    ∀ s t : DataType, s.comparable t = true ↔ (s.commonType t).isSome = true := by
  refine ⟨fun branches branches' otherwise otherwise' hl h p => ⟨?_, fun hb => ?_⟩,
    fun args args' p => ⟨verdict_coalesce_perm p, verdict_coalesce⟩,
    DataType.isPartialJoin_commonType, fun _ _ => DataType.comparable_iff⟩
  · exact verdict_applyCase_perm hl h p
  · exact verdict_applyCase hb (List.forall_mem_append.mp h).1

/-- A decimal number before an integer and an absent value, and the same the other way round. -/
theorem choice_perm_decimal :
    let always := Expr.literal (.bool true)
    let price := Expr.cast (.int 1) (.decimal 10 2)
    let absent := Expr.literal .null
    (∀ b ∈ [(always, price), (always, .int 2)] ++ [(always, absent), (always, .int 2)],
      b.1.dataType.isCondition = true) ∧
    verdict (applyCase [(always, price), (always, .int 2)] (some absent)) =
      verdict (applyCase [(always, absent), (always, .int 2)] (some price)) ∧
    verdict (applyCase [(always, price), (always, .int 2)] (some absent)) =
      .typed (.decimal 10 2) := by
  intro always price absent
  have hc : ∀ b ∈ [(always, price), (always, .int 2)] ++ [(always, absent), (always, .int 2)],
      b.1.dataType.isCondition = true := by
    simp [always, dataType, Value.dataType, DataType.isCondition]
  have hp : (alternatives [(always, price), (always, .int 2)] (some absent)).Perm
      (alternatives [(always, absent), (always, .int 2)] (some price)) :=
    List.reverse_perm [absent, .int 2, price]
  obtain ⟨hsame, htype⟩ := choice_perm.1 [(always, price), (always, .int 2)]
    [(always, absent), (always, .int 2)] (some absent) (some price) rfl hc hp
  exact ⟨hc, hsame, htype (List.cons_ne_nil _ _)⟩

end Expr
end PlanSql
