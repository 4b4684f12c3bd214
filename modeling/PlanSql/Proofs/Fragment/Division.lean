import PlanSql.Proofs.Fragment.Kinds

/-!
# Division does not truncate

Where a database cuts off the fraction of a quotient of integers, one operand of a division is made
a number with a fraction. Whether that is needed is told from the types of the operands, and whether
the database truncates from those of their SQL, so the two have to agree on an operand that is no
integer.
-/
namespace PlanSql

open Sql (Kind)

namespace Expr

variable {d : Dialect} {scope : Scope} {column : Sql.Expr.Reference → Kind}

/-- Unless both operands of a quotient are integers, one that is none keeps its type in SQL. -/
def ShowsIntegers (d : Dialect) (scope : Scope) (column : Sql.Expr.Reference → Kind)
    (left right : Expr) : Prop :=
  left.dataType.isInteger = true ∧ right.dataType.isInteger = true ∨
    ∃ e ∈ [left, right], e.dataType.isInteger = false ∧ KeepsKind d scope column e

/-- The SQL of a division in a dialect that truncates quotients of integers is a division, and its
operands are not both integers, whatever they are made of: no fraction is lost. -/
theorem lower_division (hd : d.descriptor.integerDivisionTruncates = true) {left right : Expr}
    {s : Sql.Expr} (hm : (binary .div left right).Made)
    (h : (binary .div left right).lower (Target.builtin d) scope = .ok s)
    (hk : ShowsIntegers d scope column left right) :
    ∃ l r, s = .binary .divide l r ∧
      ¬ (l.valueKind d column = .integer ∧ r.valueKind d column = .integer) := by
  have hd := RuleTable.mem_truncating hd
  obtain ⟨l, r, hls, hrs, h⟩ := lower_eq_ok.mp h
  obtain ⟨hln, hrn⟩ : left.dataType.isNumber = true ∧ right.dataType.isNumber = true :=
    BinaryOp.isNumber_of_resultType (rfl : BinaryOp.div.isArithmetic = true) hm.rootType
  unfold Target.binary at h
  split at h
  · obtain ⟨double, hdouble, h⟩ := bind_eq_ok.mp h
    obtain rfl : _ = s := by simpa using h
    refine ⟨_, _, rfl, fun hint => ?_⟩
    rw [Sql.Expr.valueKind, ofTypeName_double hdouble] at hint
    exact absurd hint.1 (by decide)
  · next htr =>
    obtain rfl : _ = s := by simpa using h
    refine ⟨_, _, rfl, fun hint => ?_⟩
    obtain ⟨e, he, hne, hkeeps⟩ := hk.resolve_left (not_truncates hd (by simpa using htr))
    -- a number whose SQL is an integer is an integer, since a truth value is no number
    obtain rfl | rfl : e = left ∨ e = right := by simpa using he
    · have hi := (fits_lower hd (hm.child (by simp [children])) hls hkeeps).isInteger hint.1 hln
      simp [hi] at hne
    · have hi := (fits_lower hd (hm.child (by simp [children])) hrs hkeeps).isInteger hint.2 hrn
      simp [hi] at hne

/-- Columns of which one is an integer. -/
def numberColumns (ref : Sql.Expr.Reference) : Kind :=
  if ref.2 = "n" then .integer else .other

/-- A rounded number divided by a number of rows, or by one. -/
def roundedShare (t : DataType) : Expr :=
  .binary .div (.function .ceil [.column ⟨none, "x"⟩ t])
    (.function .coalesce [.column ⟨none, "n"⟩ .int64, .int 1])

theorem made_roundedShare {t u : DataType} (hu : ScalarFunction.ceil.resultType [t] = .ok u)
    (hd : BinaryOp.div.resultType u .int64 = .ok .float64) : (roundedShare t).Made := by
  have hceil : (Expr.function .ceil [.column ⟨none, "x"⟩ t]).Made :=
    .function_of_resultType (List.forall_mem_singleton.mpr (.column _ _)) hu
  have hcoalesce : (Expr.function .coalesce [.column ⟨none, "n"⟩ .int64, .int 1]).Made :=
    .function_of_resultType (List.forall_mem_cons.mpr
      ⟨.column _ _, List.forall_mem_singleton.mpr (.literal _)⟩) rfl
  have htype : (Expr.function .ceil [.column ⟨none, "x"⟩ t]).dataType = u := by
    simp [dataType, dataTypes, hu, resultOf]
  exact .binary_of_resultType hceil hcoalesce (by rw [htype]; exact hd)

/-- A number and a quotient that is always absent, together over a number of rows. -/
def absentShare : Expr :=
  .binary .div (.binary .add (.column ⟨none, "x"⟩ .float64)
      (.binary .div (.column ⟨none, "n"⟩ .int64) (.literal .null)))
    (.column ⟨none, "n"⟩ .int64)

theorem made_absentShare : absentShare.Made := by
  have habsent : (Expr.binary .div (.column ⟨none, "n"⟩ .int64) (.literal .null)).Made :=
    .binary_of_resultType (.column _ _) (.literal .null) rfl
  exact .binary_of_resultType (.binary_of_resultType (.column _ _) habsent rfl) (.column _ _) rfl

/-- A number rounded by casts, over what may be an integer or a constant; and a sum that has a
fraction whatever the type of what is absent in it. -/
theorem roundedShare_division :
    (∃ l r,
      (roundedShare .float64).lower (Target.builtin .sqlite) .bare = .ok (.binary .divide l r) ∧
        ¬ (l.valueKind .sqlite numberColumns = .integer ∧
          r.valueKind .sqlite numberColumns = .integer)) ∧
    ∃ l r, absentShare.lower (Target.builtin .sqlite) .bare = .ok (.binary .divide l r) ∧
      ¬ (l.valueKind .sqlite numberColumns = .integer ∧
        r.valueKind .sqlite numberColumns = .integer) := by
  have hrounded : (roundedShare .float64).lower (Target.builtin .sqlite) .bare = .ok _ := rfl
  have habsent : absentShare.lower (Target.builtin .sqlite) .bare = .ok _ := rfl
  have hx : KeepsKind .sqlite .bare numberColumns (.column ⟨none, "x"⟩ .float64) := by
    refine .column fun c hc => ?_
    obtain rfl : _ = c := by simpa [Scope.column] using hc
    decide
  constructor
  · obtain ⟨l, r, hs, hlr⟩ := lower_division rfl (made_roundedShare rfl rfl) hrounded
      (.inl ⟨rfl, rfl⟩)
    exact ⟨l, r, hrounded.trans (congrArg _ hs), hlr⟩
  · obtain ⟨l, r, hs, hlr⟩ := lower_division rfl made_absentShare habsent
      (.inr ⟨_, List.mem_cons_self, rfl, .fraction List.mem_cons_self rfl hx⟩)
    exact ⟨l, r, habsent.trans (congrArg _ hs), hlr⟩

/-- A decimal number is rounded by the same casts and taken for no integer, so that a quotient of
integers is left to truncate. -/
theorem roundedShare_truncates : (roundedShare (.decimal 10 2)).Made ∧
    (roundedShare (.decimal 10 2)).dataType = .float64 ∧
    (numberColumns (none, "x")).Fits (.decimal 10 2) ∧ (numberColumns (none, "n")).Fits .int64 ∧
    ∃ l r, (roundedShare (.decimal 10 2)).lower (Target.builtin .sqlite) .bare =
        .ok (.binary .divide l r) ∧
      l.valueKind .sqlite numberColumns = .integer ∧ r.valueKind .sqlite numberColumns = .integer :=
  ⟨made_roundedShare rfl rfl, rfl, by decide, by decide, _, _, rfl, by decide, by decide⟩

/-- A number of rows, divided by nothing where a condition holds, over the number itself. -/
def partialShare : Expr :=
  .binary .div (.case
      [(.column ⟨none, "p"⟩ .bool, .binary .div (.column ⟨none, "n"⟩ .int64) (.literal .null))]
      (some (.column ⟨none, "n"⟩ .int64)))
    (.column ⟨none, "n"⟩ .int64)

/-- A quotient that is always absent hides that the numbers to choose from are integers. -/
theorem partialShare_truncates : partialShare.Made ∧ partialShare.dataType = .float64 ∧
    ∃ l r, partialShare.lower (Target.builtin .postgres) .bare = .ok (.binary .divide l r) ∧
      l.valueKind .postgres numberColumns = .integer ∧
        r.valueKind .postgres numberColumns = .integer := by
  have hn : (Expr.column ⟨none, "n"⟩ .int64).Made := .column _ _
  have habsent : (Expr.binary .div (.column ⟨none, "n"⟩ .int64) (.literal .null)).Made :=
    .binary_of_resultType hn (.literal .null) rfl
  have hcase : applyCase [(.column ⟨none, "p"⟩ .bool,
      .binary .div (.column ⟨none, "n"⟩ .int64) (.literal .null))]
      (some (.column ⟨none, "n"⟩ .int64)) = .ok _ := rfl
  have hchoice := Made.case (List.forall_mem_singleton.mpr (.column _ _))
    (List.forall_mem_singleton.mpr habsent) (by simpa using hn) hcase
  exact ⟨.binary_of_resultType hchoice hn rfl, rfl, _, _, rfl, by decide, by decide⟩

end Expr

end PlanSql
