import PlanSql.Plan.Resolution
import PlanSql.Proofs.Expr.Typing
import PlanSql.Proofs.Relation.References

/-!
# Column names in join conditions

A column without a table in a condition of a join is resolved twice: by its name among the columns
of both sides, and then, once it goes under the qualifier of the side that has it, among the origins
of both sides. The join takes the name unless a column of the other side was taken from where the
qualified reference points, which its name need not show: a join carries the origins of its inputs,
and a projection above it may rename the column.
-/
namespace PlanSql

namespace JoinSide

/-- What stands on a side. -/
def pick {α : Type} : JoinSide → α → α → α
  | left, l, _ => l
  | right, _, r => r

def other : JoinSide → JoinSide
  | left => right
  | right => left

end JoinSide

namespace Header

variable {h : Header} {ref : ColumnRef} {i : Nat}

/-- A column by its name, under the qualifier. -/
def under (h : Header) (name : String) : ColumnRef := ⟨h.qualifier, name⟩

/-- A column was taken from where a qualified reference points. -/
def Carries (h : Header) (ref : ColumnRef) : Prop :=
  ∃ relation, ref.relation = some relation ∧ some ⟨relation, ref.name⟩ ∈ h.origins

/-- A reference finds nothing where no column has the name and none was taken from where the
reference points. -/
theorem lookup_eq_missing_iff (hn : ref.name ∉ h.fields.names) :
    h.lookup ref = .missing ↔ ¬ h.Carries ref := by
  rw [lookup_eq_missing]
  unfold hits Carries
  cases hr : ref.relation with
  | none => simpa [positions_eq_nil, Schema.names] using hn
  | some relation =>
    simp only [positions_eq_nil, decide_eq_false_iff_not, Option.some.injEq, exists_eq_left']
    exact ⟨fun h hm => h _ hm rfl, fun h o ho he => h (he ▸ ho)⟩

/-- Under a qualifier the columns were taken from that relation by their names. -/
theorem Owned.not_carries (ho : h.Owned) (hq : h.qualifier ≠ none)
    (hn : ref.name ∉ h.fields.names) : ¬ h.Carries ref := by
  rintro ⟨relation, -, hmem⟩
  obtain ⟨q, hq⟩ := Option.ne_none_iff_exists'.mp hq
  rw [ho q hq, List.mem_map] at hmem
  obtain ⟨f, hf, he⟩ := hmem
  obtain ⟨-, hname⟩ : q = relation ∧ f.name = ref.name := by simpa using he
  exact hn (hname ▸ List.mem_map_of_mem hf)

end Header

section sides

variable {left right : Header} {side : JoinSide} {ref : ColumnRef} {i : Nat}

theorem resolveSide_eq_ok : resolveSide left right ref = .ok (side, i) ↔
    (side.pick left right).lookup ref = .found i ∧
      (side.other.pick left right).lookup ref = .missing := by
  cases side with
  | left => exact resolveSide_eq_left
  | right => exact resolveSide_eq_right.trans and_comm

/-- A reference that means a column of one side and could mean one of the other as well is
refused. -/
theorem resolveSide_ambiguous (hown : (side.pick left right).lookup ref = .found i)
    (hother : (side.other.pick left right).lookup ref ≠ .missing) :
    resolveSide left right ref = .error (.ambiguousColumn ref.text
      (left.candidates (left.lookup ref) ++ right.candidates (right.lookup ref))) := by
  unfold resolveSide
  cases side with
  | left =>
    simp only [JoinSide.pick, JoinSide.other] at hown hother
    split <;> simp_all
  | right =>
    simp only [JoinSide.pick, JoinSide.other] at hown hother
    split <;> simp_all

/-- Refuses references that do not denote one column of the two sides. -/
def bindSides (left right : Header) (refs : List ColumnRef) : Except PlanError Unit :=
  refs.forM fun ref => do
    let _ ← resolveSide left right ref

theorem bindSides_eq_ok {refs : List ColumnRef} : bindSides left right refs = .ok () ↔
    ∀ ref ∈ refs, ∃ found, resolveSide left right ref = .ok found := by
  unfold bindSides
  rw [forM_eq_ok]
  simp only [bind_eq_ok, pure_eq_ok, and_true]

theorem bindSides_eq_error {refs : List ColumnRef} {e : PlanError}
    (h : ∀ r ∈ refs, r ≠ ref → ∃ found, resolveSide left right r = .ok found)
    (he : resolveSide left right ref = .error e) (hr : ref ∈ refs) :
    bindSides left right refs = .error e := by
  refine forM_eq_error (fun r hmem => ?_) ⟨ref, hr, by simp [he]⟩
  by_cases href : r = ref
  · exact .inr (by simp [href, he])
  · obtain ⟨found, hf⟩ := h r hmem href
    exact .inl (by simp [hf])

/-- A name that one side has and the other does not becomes the reference that goes under the
qualifier of that side. -/
theorem TermScope.column_join (hd : (side.pick left right).fields.names.Nodup) {f : Field}
    (hf : (side.pick left right).fields[i]? = some f)
    (hn : f.name ∉ (side.other.pick left right).fields.names) :
    (TermScope.join left right).column f.name none =
      .ok (.column ((side.pick left right).under f.name) f.dataType) := by
  have hside : resolveSide left right ⟨none, f.name⟩ = .ok (side, i) := by
    refine resolveSide_eq_ok.mpr ⟨Header.lookup_plain hd hf, ?_⟩
    exact (Header.lookup_eq_missing_iff hn).mpr fun ⟨_, hr, _⟩ => nomatch hr
  have hheader : (TermScope.join left right).header ⟨none, f.name⟩ =
      .ok (side.pick left right) := by
    cases side <;> simp [TermScope.header, hside, JoinSide.pick]
  simp only [TermScope.column, hheader, ok_bind]
  exact Header.column_name hd hf

end sides

namespace Relation

/-- All that a join asks of its conditions and its columns, except that one reference is left out of
consideration. -/
structure AdmitsApartFrom (ref : ColumnRef) (left right : Relation) (kind : JoinKind)
    (conditions : List Expr) : Prop where
  cross : kind = .cross ↔ conditions = []
  isCondition : ∀ c ∈ conditions, c.dataType.isCondition = true
  isRowLevel : ∀ c ∈ conditions, c.isRowLevel = true
  resolved : ∀ c ∈ conditions, ∀ r ∈ c.columnRefs, r ≠ ref →
    ∃ found, resolveSide left.header right.header r = .ok found
  distinct : (joinFields left.schema right.schema).names.Nodup

section

variable {id : NodeId} {left right : Relation} {kind : JoinKind} {conditions : List Expr}
  {ref : ColumnRef}

/-- What is left of a join that admits its conditions apart from one reference is to resolve the
references. -/
theorem AdmitsApartFrom.joinWith_eq (h : AdmitsApartFrom ref left right kind conditions) :
    joinWith id left right kind conditions = (do
      conditions.forM fun c => bindSides left.header right.header c.columnRefs
      return .join id left right kind conditions) := by
  have hcross : (decide (kind = .cross) && !conditions.isEmpty) = false := by
    simpa using h.cross.mp
  have hempty : (kind != .cross && conditions.isEmpty) = false := by
    simpa [not_imp_not] using mt h.cross.mpr
  have hdistinct : (joinFields left.header.fields right.header.fields).distinctNames = .ok () :=
    Schema.distinctNames_eq_ok.mpr h.distinct
  unfold joinWith
  simp only [hcross, hempty, Bool.false_eq_true, if_false, hdistinct, ok_bind, pure_eq_ok]
  refine congrArg (· >>= fun _ => .ok (join id left right kind conditions))
    (forM_congr fun c hc => ?_)
  simp [expect_eq_ok.mpr (h.isCondition c hc), h.isRowLevel c hc, bindSides]

theorem AdmitsApartFrom.joinWith_ok (h : AdmitsApartFrom ref left right kind conditions)
    {found : JoinSide × Nat} (hr : resolveSide left.header right.header ref = .ok found) :
    joinWith id left right kind conditions = .ok (.join id left right kind conditions) := by
  have hall : (conditions.forM fun c => bindSides left.header right.header c.columnRefs) =
      .ok () := by
    refine forM_eq_ok.mpr fun c hc => bindSides_eq_ok.mpr fun r hmem => ?_
    by_cases he : r = ref
    · exact ⟨found, he ▸ hr⟩
    · exact h.resolved c hc r hmem he
  rw [h.joinWith_eq, hall]
  rfl

theorem AdmitsApartFrom.joinWith_error (h : AdmitsApartFrom ref left right kind conditions)
    {e : PlanError} (hr : resolveSide left.header right.header ref = .error e)
    (ho : ∃ c ∈ conditions, ref ∈ c.columnRefs) :
    joinWith id left right kind conditions = .error e := by
  have hone : ∀ c ∈ conditions, ref ∈ c.columnRefs →
      bindSides left.header right.header c.columnRefs = .error e :=
    fun c hc hmem => bindSides_eq_error (h.resolved c hc) hr hmem
  have hall : (conditions.forM fun c => bindSides left.header right.header c.columnRefs) =
      .error e := by
    obtain ⟨c, hc, hmem⟩ := ho
    refine forM_eq_error (fun d hd => ?_) ⟨c, hc, hone c hc hmem⟩
    by_cases href : ref ∈ d.columnRefs
    · exact .inr (hone d hd href)
    · refine .inl (bindSides_eq_ok.mpr fun r hmem' => ?_)
      exact h.resolved d hd r hmem' fun he => href (he ▸ hmem')
  rw [h.joinWith_eq, hall]
  rfl

/-- A column of one side, named in a condition without its table, is taken by the join and denotes
that column, whatever else the conditions are, if the other side does not have the name and none of
its columns was taken from where the qualified reference points. If one was, which takes a side made
of joins, the join is refused as ambiguous. -/
theorem joinWith_plain_name (hl : left.Valid) (hr : right.Valid) {side : JoinSide} {i : Nat}
    {f : Field} (hf : (side.pick left right).schema[i]? = some f)
    (hn : f.name ∉ (side.other.pick left right).schema.names)
    (href : ref = (side.pick left right).header.under f.name) :
    (Term.column f.name none).resolve (.join left.header right.header) =
        .ok (.column ref f.dataType) ∧
      (¬ (side.other.pick left right).header.Carries ref →
        ∀ id kind conditions, AdmitsApartFrom ref left right kind conditions →
          joinWith id left right kind conditions = .ok (.join id left right kind conditions) ∧
          (join id left right kind conditions).resolveJoinSide ref = .ok (side, i)) ∧
      ((side.other.pick left right).header.Carries ref →
        (side.other.pick left right).header.qualifier = none ∧ ∃ candidates,
        ∀ id kind conditions, AdmitsApartFrom ref left right kind conditions →
          (∃ c ∈ conditions, ref ∈ c.columnRefs) →
          joinWith id left right kind conditions =
            .error (.ambiguousColumn ref.text candidates)) := by
  have hpick : ∀ s : JoinSide, (s.pick left right).header = s.pick left.header right.header := by
    intro s
    cases s <;> rfl
  have hd : (side.pick left right).schema.names.Nodup := by
    cases side with
    | left => exact hl.wellFormed.nodup_names
    | right => exact hr.wellFormed.nodup_names
  have hown : (side.pick left right).header.lookup ref = .found i :=
    href ▸ (owned_header _).lookup_name hd hf
  have hother : (side.other.pick left right).header.lookup ref = .missing ↔
      ¬ (side.other.pick left right).header.Carries ref :=
    Header.lookup_eq_missing_iff (href ▸ hn)
  rw [hpick] at hown
  refine ⟨?_, fun hcarries id kind conditions hadmits => ?_, fun hcarries => ?_⟩
  · subst href
    rw [hpick]
    exact TermScope.column_join (by rwa [← hpick]) (by rwa [← hpick]) (by rwa [← hpick])
  · have hside : resolveSide left.header right.header ref = .ok (side, i) :=
      resolveSide_eq_ok.mpr ⟨hown, hpick _ ▸ hother.mpr hcarries⟩
    exact ⟨hadmits.joinWith_ok hside, hside⟩
  · have hqualifier : (side.other.pick left right).header.qualifier = none := by
      by_contra hq
      exact (owned_header _).not_carries hq (href ▸ hn) hcarries
    have hambiguous := resolveSide_ambiguous hown (hpick _ ▸ fun hm => hother.mp hm hcarries)
    exact ⟨hqualifier, _, fun id kind conditions hadmits ho => hadmits.joinWith_error hambiguous ho⟩

end

/-- A table that belongs to no pairs. -/
def payments : Relation := .table 5 "payments" none [⟨"payer", .int64, true⟩]

theorem valid_payments : payments.Valid := by
  have h : scan 5 "payments" none [⟨"payer", .int64, true⟩] = .ok payments := rfl
  exact ⟨_, .call .start (.scan h) (by simp), List.mem_cons_self⟩

/-- That a payer is the one of the pair. -/
def isPayer : Expr :=
  .binary .eq (.column ⟨some "payments", "payer"⟩ .int64) (.column ⟨none, "x"⟩ .int64)

/-- A name of the left side, where the right side is made of a join. -/
theorem payments_plain_name : payments.Valid ∧ pairedTables.Valid ∧
    payments.schema[0]? = some ⟨"payer", .int64, true⟩ ∧ "payer" ∉ pairedTables.schema.names ∧
    (Term.column "payer" none).resolve (.join payments.header pairedTables.header) =
      .ok (.column ⟨some "payments", "payer"⟩ .int64) ∧
    joinWith 6 payments pairedTables .left [isPayer] =
      .ok (.join 6 payments pairedTables .left [isPayer]) ∧
    (join 6 payments pairedTables .left [isPayer]).resolveJoinSide ⟨some "payments", "payer"⟩ =
      .ok (.left, 0) := by
  have hp : pairedTables.Valid :=
    valid_nestedPairs.node (input_mem_nodes (mem_nodes_self _) (by simp [nestedPairs, inputs]))
  have hn : "payer" ∉ pairedTables.schema.names := by decide
  have hpayer : (JoinSide.left.pick payments pairedTables).schema[0]? =
      some ⟨"payer", .int64, true⟩ := rfl
  have hplain := joinWith_plain_name valid_payments hp hpayer hn rfl
  have hcarries : ¬ pairedTables.header.Carries ⟨some "payments", "payer"⟩ := by
    rintro ⟨relation, -, hmem⟩
    simp [pairedTables, header, Header.make] at hmem
  have hcondition : isPayer.dataType.isCondition = true ∧ isPayer.isRowLevel = true := ⟨rfl, rfl⟩
  have hrefs : isPayer.columnRefs = [⟨some "payments", "payer"⟩, ⟨none, "x"⟩] := rfl
  have hx : resolveSide payments.header pairedTables.header ⟨none, "x"⟩ = .ok (.right, 1) := rfl
  have hadmits : AdmitsApartFrom ⟨some "payments", "payer"⟩ payments pairedTables .left
      [isPayer] :=
    ⟨by simp, by simpa using hcondition.1, by simpa using hcondition.2, by simp [hrefs, hx],
      by decide⟩
  exact ⟨valid_payments, hp, rfl, hn, hplain.1, hplain.2.1 hcarries _ _ _ hadmits⟩

/-- A table of marks. -/
def marks : Relation := .table 0 "marks" none [⟨"set", .bool, true⟩]

/-- Items paired with marks, the column of the marks renamed. -/
def markedItems : Relation :=
  .project 4 (.join 3 (.table 1 "items" none [⟨"item", .int64, true⟩])
      (.table 2 "marks" none [⟨"set", .bool, true⟩]) .cross [])
    [.unnamed (.column ⟨none, "item"⟩ .int64), ⟨.column ⟨none, "set"⟩ .bool, some "marked"⟩]

theorem valid_marks : marks.Valid := by
  have h : scan 0 "marks" none [⟨"set", .bool, true⟩] = .ok marks := rfl
  exact ⟨_, .call .start (.scan h) (by simp), List.mem_cons_self⟩

theorem valid_markedItems : markedItems.Valid := by
  have hi : scan 1 "items" none [⟨"item", .int64, true⟩] = .ok _ := rfl
  have hf : scan 2 "marks" none [⟨"set", .bool, true⟩] = .ok _ := rfl
  have hj : joinWith 3 (.table 1 "items" none [⟨"item", .int64, true⟩])
      (.table 2 "marks" none [⟨"set", .bool, true⟩]) .cross [] = .ok _ := rfl
  have hs : select 4 (.join 3 (.table 1 "items" none [⟨"item", .int64, true⟩])
      (.table 2 "marks" none [⟨"set", .bool, true⟩]) .cross [])
      [.unnamed (.column ⟨none, "item"⟩ .int64), ⟨.column ⟨none, "set"⟩ .bool, some "marked"⟩] =
      .ok markedItems := rfl
  refine ⟨_, .call (.call (.call (.call .start (.scan hi) (by simp)) (.scan hf) (by simp [id]))
    (.joinWith (by simp) (by simp) (by simp) hj) (by simp [id]))
    (.select List.mem_cons_self ?_ hs) (by simp [id, markedItems]), List.mem_cons_self⟩
  simpa [Named.unnamed] using ⟨Expr.Made.column _ _, Expr.Made.column _ _⟩

/-- A name that one side has and the other does not is refused as ambiguous: among the origins of
the other side, the reference that it becomes is found once more. -/
theorem plain_name_refused : marks.Valid ∧ markedItems.Valid ∧
    marks.schema[0]? = some ⟨"set", .bool, true⟩ ∧
    markedItems.schema.names = ["item", "marked"] ∧
    (Term.column "set" none).resolve (.join marks.header markedItems.header) =
      .ok (.column ⟨some "marks", "set"⟩ .bool) ∧
    AdmitsApartFrom ⟨some "marks", "set"⟩ marks markedItems .inner
      [.column ⟨some "marks", "set"⟩ .bool] ∧
    joinWith 5 marks markedItems .inner [.column ⟨some "marks", "set"⟩ .bool] =
      .error (.ambiguousColumn "marks.set" ["marks.set", "marks.set"]) := by
  have hset : Expr.isRowLevel (.column ⟨some "marks", "set"⟩ .bool) = true ∧
      Expr.columnRefs (.column ⟨some "marks", "set"⟩ .bool) = [⟨some "marks", "set"⟩] := ⟨rfl, rfl⟩
  have hadmits : AdmitsApartFrom ⟨some "marks", "set"⟩ marks markedItems .inner
      [.column ⟨some "marks", "set"⟩ .bool] :=
    ⟨by simp, by simp [DataType.isCondition, Expr.dataType], by simpa using hset.1,
      by simp [hset.2], by decide⟩
  exact ⟨valid_marks, valid_markedItems, rfl, rfl, rfl, hadmits, rfl⟩

end Relation

end PlanSql
