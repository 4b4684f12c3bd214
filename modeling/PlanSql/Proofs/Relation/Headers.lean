import PlanSql.Proofs.Checking
import PlanSql.Proofs.Expr.Parts

/-!
# What headers bind

Each column of a header has an entry for its origin, and a reference that is bound denotes one of
the columns.
-/
namespace PlanSql

theorem firstSeen?_eq_none (seen names : List String) :
    firstSeen? seen names = none ↔ names.Nodup ∧ ∀ n ∈ names, n ∉ seen := by
  induction names generalizing seen with
  | nil => simp [firstSeen?]
  | cons n names ih =>
    by_cases hn : n ∈ seen
    · simp [firstSeen?, hn]
    · simp only [firstSeen?, List.contains_iff_mem, hn, if_false, ih, List.nodup_cons,
        List.mem_cons, not_or]
      constructor
      · rintro ⟨hd, hs⟩
        refine ⟨⟨fun h => (hs n h).1 rfl, hd⟩, ?_⟩
        rintro m (rfl | hm)
        · exact hn
        · exact (hs m hm).2
      · rintro ⟨⟨hm, hd⟩, hs⟩
        exact ⟨hd, fun m h => ⟨fun he => hm (he ▸ h), hs m (.inr h)⟩⟩

theorem Schema.distinctNames_eq_ok {schema : Schema} :
    schema.distinctNames = .ok () ↔ schema.names.Nodup := by
  have h := firstSeen?_eq_none [] schema.names
  simp only [List.not_mem_nil, not_false_iff, implies_true, and_true] at h
  rw [← h]
  unfold distinctNames repeatedName? firstRepeated?
  split
  · next hn => simp [hn]
  · next hn => simp [hn]

theorem lt_of_mem_positions {α : Type} {p : α → Bool} {xs : List α} {i : Nat}
    (h : i ∈ positions p xs) : i < xs.length := by
  simp only [positions, List.mem_map, List.mem_filter] at h
  obtain ⟨⟨x, j⟩, ⟨hm, -⟩, rfl⟩ := h
  exact List.snd_lt_of_mem_zipIdx hm

namespace Header

/-- Every column has an entry for its origin. -/
def Aligned (h : Header) : Prop := h.origins.length = h.fields.length

theorem aligned_make (q : Option String) {fields : Schema} {inherited : List (Option Origin)}
    (h : inherited.length = fields.length) : (make q fields inherited).Aligned := by
  cases q with
  | none => exact h
  | some q => simp [Aligned, make]

@[simp] theorem fields_make (q : Option String) (fields : Schema)
    (inherited : List (Option Origin)) : (make q fields inherited).fields = fields := rfl

theorem lookup_eq_found {h : Header} {ref : ColumnRef} {i : Nat} :
    h.lookup ref = .found i ↔ h.hits ref = [i] := by
  unfold lookup
  split <;> simp_all

theorem lookup_eq_missing {h : Header} {ref : ColumnRef} :
    h.lookup ref = .missing ↔ h.hits ref = [] := by
  unfold lookup
  split <;> simp_all

theorem Aligned.lt_of_found {h : Header} (ha : h.Aligned) {ref : ColumnRef} {i : Nat}
    (hf : h.lookup ref = .found i) : i < h.fields.length := by
  have hi : i ∈ h.hits ref := by simp [lookup_eq_found.mp hf]
  unfold hits at hi
  split at hi
  · exact lt_of_mem_positions hi
  · exact lt_of_lt_of_eq (lt_of_mem_positions hi) ha

theorem resolve_eq_ok {h : Header} {ref : ColumnRef} {i : Nat} :
    h.resolve ref = .ok i ↔ h.lookup ref = .found i := by
  unfold resolve
  split <;> simp_all

/-- Every column that an expression speaks of is one of the header's. -/
def Binds (h : Header) (e : Expr) : Prop := ∀ ref ∈ e.columnRefs, ∃ i, h.lookup ref = .found i

theorem bind_eq_ok {h : Header} {e : Expr} : h.bind e.columnRefs = .ok () ↔ h.Binds e := by
  unfold bind
  rw [forM_eq_ok]
  simp only [PlanSql.bind_eq_ok, resolve_eq_ok, pure_eq_ok, and_true, Binds]

theorem Binds.child {h : Header} {e c : Expr} (hb : h.Binds e) (hc : c ∈ e.children) :
    h.Binds c :=
  fun ref hr => hb ref (Expr.mem_columnRefs_of_child hc hr)

theorem checkCondition_eq_ok {h : Header} {context : String} {c : Expr}
    (hc : h.checkCondition context c = .ok ()) : h.Binds c := by
  obtain ⟨⟨⟩, hb, -⟩ := PlanSql.bind_eq_ok.mp hc
  exact bind_eq_ok.mp hb

theorem checkGroupCondition_eq_ok {h : Header} {c : Expr}
    (hc : h.checkGroupCondition c = .ok ()) : h.Binds c ∧ c.containsWindow = false := by
  obtain ⟨⟨⟩, hb, hw⟩ := PlanSql.bind_eq_ok.mp hc
  refine ⟨checkCondition_eq_ok hb, ?_⟩
  split at hw
  · simp at hw
  · next hn => simpa using hn

theorem isAmong_iff {h : Header} {indices : List Nat} {ref : ColumnRef} :
    h.isAmong indices ref = true ↔ ∃ i ∈ indices, h.lookup ref = .found i := by
  unfold isAmong
  split
  · next i hi => simp [hi]
  · next hi => simpa using fun i _ => hi i

theorem mem_keyPositions {h : Header} {keys : List NamedExpr} {i : Nat} :
    i ∈ h.keyPositions keys ↔
      ∃ k ∈ keys, ∃ ref t, k.expr = .column ref t ∧ h.lookup ref = .found i := by
  simp only [keyPositions, List.mem_filterMap]
  refine exists_congr fun k => and_congr_right fun _ => ?_
  cases he : k.expr with
  | column ref t =>
    simp only [Expr.column?, Expr.column.injEq]
    constructor
    · intro hk
      split at hk
      · exact ⟨ref, t, ⟨rfl, rfl⟩, by simp_all⟩
      · simp at hk
    · rintro ⟨_, _, ⟨rfl, rfl⟩, hf⟩
      simp [hf]
  | _ => simp [Expr.column?]

end Header

/-- Every column that an expression speaks of belongs to exactly one of the sides. -/
def BindsSide (left right : Header) (e : Expr) : Prop :=
  ∀ ref ∈ e.columnRefs, ∃ side, resolveSide left right ref = .ok side

theorem BindsSide.child {left right : Header} {e c : Expr} (hb : BindsSide left right e)
    (hc : c ∈ e.children) : BindsSide left right c :=
  fun ref hr => hb ref (Expr.mem_columnRefs_of_child hc hr)

theorem resolveSide_eq_left {left right : Header} {ref : ColumnRef} {i : Nat} :
    resolveSide left right ref = .ok (.left, i) ↔
      left.lookup ref = .found i ∧ right.lookup ref = .missing := by
  unfold resolveSide
  split <;> simp_all

theorem resolveSide_eq_right {left right : Header} {ref : ColumnRef} {i : Nat} :
    resolveSide left right ref = .ok (.right, i) ↔
      left.lookup ref = .missing ∧ right.lookup ref = .found i := by
  unfold resolveSide
  split <;> simp_all

end PlanSql
