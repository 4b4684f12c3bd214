import PlanSql.Proofs.Expr.Typing
import PlanSql.Proofs.Relation.References

/-!
# Types of columns and references

A reference records the type of the column that it was taken from. An operator checks that the
reference denotes some column of its input, not that this column has the recorded type, so that an
expression is well typed over the input if the relation that the reference was taken from gives its
columns the same types there. That is so for the input itself, for a side of a join, and for
whatever the input continues.
-/
namespace PlanSql

namespace Header

variable {h g : Header} {ref : ColumnRef} {t : DataType}

/-- The type of the column that a reference denotes. -/
def typeOf? (h : Header) (ref : ColumnRef) : Option DataType :=
  match h.lookup ref with
  | .found i => (h.fields[i]?).map (·.dataType)
  | _ => none

/-- A header was asked for a column, by its name or by a reference, and this is the answer. -/
inductive Gives (h : Header) (ref : ColumnRef) (t : DataType) : Prop
  | column {name : String} (he : h.column name = .ok (.column ref t))
  | columnOf {asked : ColumnRef} (he : h.columnOf asked = .ok (.column ref t))

theorem typeOf?_eq_some : h.typeOf? ref = some t ↔
    ∃ i f, h.lookup ref = .found i ∧ h.fields[i]? = some f ∧ f.dataType = t := by
  unfold typeOf?
  split
  · next i hi => simp [hi, Option.map_eq_some_iff]
  · next hi => simpa using fun i hl => absurd hl (hi i)

theorem Aligned.exists_typeOf? (ha : h.Aligned) {i : Nat} (hi : h.lookup ref = .found i) :
    ∃ t, h.typeOf? ref = some t :=
  ⟨_, typeOf?_eq_some.mpr ⟨i, _, hi, List.getElem?_eq_getElem (ha.lt_of_found hi), rfl⟩⟩

/-- The answer of a header denotes one of its columns and has the type of that column. -/
theorem Gives.typeOf?_eq (hg : h.Gives ref t) (ho : h.Owned) (ha : h.Aligned)
    (hd : h.fields.names.Nodup) : h.typeOf? ref = some t := by
  rcases hg with @⟨name, he⟩ | @⟨asked, he⟩
  · unfold Header.column at he
    split at he
    · next f hf =>
      obtain ⟨rfl, rfl⟩ : ⟨h.qualifier, name⟩ = ref ∧ f.dataType = t := by simpa using he
      obtain rfl : f.name = name := by simpa using List.find?_some hf
      obtain ⟨i, hi⟩ := List.mem_iff_getElem?.mp (List.mem_of_find?_eq_some hf)
      exact typeOf?_eq_some.mpr ⟨i, f, ho.lookup_name hd hi, hi, rfl⟩
    · simp at he
  · obtain ⟨i, hi, he⟩ := PlanSql.bind_eq_ok.mp he
    have hi := resolve_eq_ok.mp hi
    have hf := List.getElem?_eq_getElem (ha.lt_of_found hi)
    obtain ⟨rfl, rfl⟩ : asked = ref ∧ (h.fields.get ⟨i, ha.lt_of_found hi⟩).dataType = t := by
      simpa [hf] using he
    exact typeOf?_eq_some.mpr ⟨i, _, hi, hf, rfl⟩

/-- A header that comes first in another gives its columns the same types. -/
theorem Heads.typeOf?_eq (hg : h.Heads g) {t' : DataType} (ht : h.typeOf? ref = some t)
    (ht' : g.typeOf? ref = some t') : t = t' := by
  obtain ⟨i, f, hi, hf, rfl⟩ := typeOf?_eq_some.mp ht
  obtain ⟨j, f', hj, hf', rfl⟩ := typeOf?_eq_some.mp ht'
  have hmem : i ∈ g.hits ref := hg.mem_hits (by simp [lookup_eq_found.mp hi])
  obtain rfl : i = j := by simpa [lookup_eq_found.mp hj] using hmem
  obtain ⟨rest, hrest⟩ := hg.1
  rw [← hrest, List.getElem?_append_left (List.getElem?_eq_some_iff.mp hf).1, hf] at hf'
  obtain rfl := Option.some.inj hf'
  rfl

end Header

namespace Relation

/-- The type of the column that a reference in an expression of the root denotes: a column of the
input or, for a join, of exactly one of its sides. -/
def inputType? : Relation → ColumnRef → Option DataType
  | .table _ _ _ _, _ => none
  | .join _ left right _ _, ref =>
    match resolveSide left.header right.header ref with
    | .ok (.left, i) => (left.schema[i]?).map (·.dataType)
    | .ok (.right, i) => (right.schema[i]?).map (·.dataType)
    | .error _ => none
  | .project _ input _, ref | .filter _ input _, ref | .aggregate _ input _ _ _, ref
  | .sort _ input _, ref | .limit _ input _ _, ref | .window _ input _, ref
  | .distinct _ input, ref => input.header.typeOf? ref

/-- The expressions of the root that have to be conditions. -/
def conditions : Relation → List Expr
  | .filter _ _ conditions | .join _ _ _ _ conditions => conditions
  | .aggregate _ _ _ _ having => having
  | .table _ _ _ _ | .project _ _ _ | .sort _ _ _ | .limit _ _ _ _ | .window _ _ _
  | .distinct _ _ => []

/-- The expressions of the root are well typed over its inputs, and its conditions are
conditions. -/
structure WellTyped (r : Relation) : Prop where
  exprs : ∀ e ∈ r.exprs, e.WellTyped r.inputType?
  conditions : ∀ c ∈ r.conditions, c.dataType.isCondition = true

/-- The reference does not denote a column of one type in `s` and a column of another type in the
expressions of `n`. -/
def Agrees (s : Relation) (ref : ColumnRef) (n : Relation) : Prop :=
  ∀ t t', s.header.typeOf? ref = some t → n.inputType? ref = some t' → t = t'

theorem inputType?_of_inputs {n input : Relation} (h : n.inputs = [input]) :
    n.inputType? = input.header.typeOf? := by
  cases n <;> simp_all [inputs] <;> rfl

/-- A relation agrees with what works on its continuation. -/
theorem agrees_of_heads {s n input : Relation} (hn : n.inputs = [input])
    (hs : s.header.Heads input.header) (ref : ColumnRef) : s.Agrees ref n := by
  intro t t' ht ht'
  rw [inputType?_of_inputs hn] at ht'
  exact hs.typeOf?_eq ht ht'

/-- The inputs of an operator agree with it. -/
theorem agrees_of_mem_inputs {n input : Relation} (hi : input ∈ n.inputs) (ref : ColumnRef) :
    input.Agrees ref n := by
  cases n with
  | table => simp [inputs] at hi
  | join id left right kind cs =>
    intro t t' ht ht'
    obtain ⟨i, f, hl, hf, rfl⟩ := Header.typeOf?_eq_some.mp ht
    simp only [inputs, List.mem_cons, List.not_mem_nil, or_false] at hi
    -- the other side does not know the reference, or it would not be bound
    simp only [inputType?] at ht'
    split at ht'
    · next j hj =>
      obtain ⟨hleft, hright⟩ := resolveSide_eq_left.mp hj
      rcases hi with rfl | rfl
      · obtain rfl : j = i := by simpa [hleft] using hl
        simpa [schema, hf] using ht'
      · simp [hright] at hl
    · next j hj =>
      obtain ⟨hleft, hright⟩ := resolveSide_eq_right.mp hj
      rcases hi with rfl | rfl
      · simp [hleft] at hl
      · obtain rfl : j = i := by simpa [hright] using hl
        simpa [schema, hf] using ht'
    · simp at ht'
  | project | filter | aggregate | sort | limit | window | distinct =>
    obtain rfl := List.mem_singleton.mp hi
    exact agrees_of_heads rfl (Header.Heads.refl _) ref

theorem exists_inputType?_of_binds {n input : Relation} (hn : n.inputs = [input]) {e : Expr}
    (hb : input.header.Binds e) : ∀ ref ∈ e.columnRefs, ∃ t, n.inputType? ref = some t := by
  intro ref hr
  obtain ⟨i, hi⟩ := hb ref hr
  rw [inputType?_of_inputs hn]
  exact (aligned_header input).exists_typeOf? hi

theorem exists_inputType?_of_bindsSide {id : NodeId} {left right : Relation} {kind : JoinKind}
    {cs : List Expr} {e : Expr} (hb : BindsSide left.header right.header e) :
    ∀ ref ∈ e.columnRefs, ∃ t, (join id left right kind cs).inputType? ref = some t := by
  intro ref hr
  obtain ⟨⟨side, i⟩, hs⟩ := hb ref hr
  cases side with
  | left =>
    have hlt := (aligned_header left).lt_of_found (resolveSide_eq_left.mp hs).1
    exact ⟨_, by simp only [inputType?, hs, schema, List.getElem?_eq_getElem hlt]; rfl⟩
  | right =>
    have hlt := (aligned_header right).lt_of_found (resolveSide_eq_right.mp hs).2
    exact ⟨_, by simp only [inputType?, hs, schema, List.getElem?_eq_getElem hlt]; rfl⟩

/-- Where the builder has seen to its checks, every reference denotes a column of the inputs. -/
theorem Checked.binds {n : Relation} (h : n.Checked) {e : Expr} (he : e ∈ n.exprs) :
    e.Made ∧ ∀ ref ∈ e.columnRefs, ∃ t, n.inputType? ref = some t := by
  cases n with
  | table | limit | distinct => simp [exprs] at he
  | project id input outputs =>
    obtain ⟨x, hx, rfl⟩ := List.mem_map.mp he
    obtain ⟨hm, hb⟩ := h.2.1 x hx
    exact ⟨hm, exists_inputType?_of_binds rfl hb⟩
  | window id input outputs =>
    obtain ⟨x, hx, rfl⟩ := List.mem_map.mp he
    obtain ⟨hm, hb⟩ := h.1 x hx
    exact ⟨hm, exists_inputType?_of_binds rfl hb⟩
  | filter id input cs =>
    obtain ⟨hm, hb, -⟩ := h e he
    exact ⟨hm, exists_inputType?_of_binds rfl hb⟩
  | aggregate id input keys metrics having =>
    obtain ⟨hh, -, hk, -, hm, -⟩ := h
    simp only [exprs, List.mem_append, List.mem_map] at he
    rcases he with (⟨x, hx, rfl⟩ | ⟨x, hx, rfl⟩) | he
    · exact ⟨(hk x hx).1, exists_inputType?_of_binds rfl (hk x hx).2⟩
    · exact ⟨(hm x hx).1, exists_inputType?_of_binds rfl (hm x hx).2⟩
    · exact ⟨(hh e he).1, exists_inputType?_of_binds rfl (hh e he).2.1⟩
  | sort id input keys =>
    obtain ⟨x, hx, rfl⟩ := List.mem_map.mp he
    obtain ⟨hm, hb, -⟩ := h x hx
    exact ⟨hm, exists_inputType?_of_binds rfl hb⟩
  | join id left right kind cs =>
    obtain ⟨hm, hb, -⟩ := h.2.1 e he
    exact ⟨hm, exists_inputType?_of_bindsSide hb⟩

theorem isCondition_of_checkCondition {h : Header} {context : String} {c : Expr}
    (hc : h.checkCondition context c = .ok ()) : c.dataType.isCondition = true := by
  obtain ⟨⟨⟩, -, hc⟩ := bind_eq_ok.mp hc
  exact expect_eq_ok.mp hc

/-- Builders see to it that conditions are conditions. -/
theorem Builds.isCondition {existing : List Relation} {r : Relation} (h : Builds existing r) :
    ∀ c ∈ r.conditions, c.dataType.isCondition = true := by
  cases h with
  | scan h =>
    obtain ⟨rfl, -⟩ := scan_eq_ok h
    simp [conditions]
  | select hi he h =>
    obtain ⟨rfl, -⟩ := select_eq_ok he h
    simp [conditions]
  | restrict hi hm h =>
    obtain ⟨hchecks, rfl⟩ := restrict_eq_ok_iff.mp h
    exact fun c hc => (restrictable_eq_ok.mp (hchecks c hc)).2.1
  | group hi hk hh hm h =>
    obtain ⟨rfl, hchecks, -⟩ := group_accepted h
    intro c hc
    obtain ⟨⟨⟩, hcheck, -⟩ := bind_eq_ok.mp (hchecks c hc)
    exact isCondition_of_checkCondition hcheck
  | sortBy hi hk h =>
    obtain ⟨rfl, -⟩ := sortBy_eq_ok hk h
    simp [conditions]
  | slice hi h =>
    obtain ⟨rfl, -⟩ := slice_eq_ok h
    simp [conditions]
  | joinWith hl hr hm h =>
    obtain ⟨rfl, -⟩ := joinWith_eq_ok hm h
    unfold Relation.joinWith at h
    obtain ⟨-, h⟩ := guard_eq_ok.mp h
    obtain ⟨-, h⟩ := guard_eq_ok.mp h
    obtain ⟨⟨⟩, hf, -⟩ := bind_eq_ok.mp h
    intro c hc
    obtain ⟨⟨⟩, hcheck, -⟩ := bind_eq_ok.mp (forM_eq_ok.mp hf c hc)
    exact expect_eq_ok.mp hcheck
  | extend hi he h =>
    obtain ⟨rfl, -⟩ := extend_eq_ok he h
    simp [conditions]
  | deduplicate hi => simp [conditions, Relation.deduplicate]

theorem Session.isCondition {existing : List Relation} (h : Session existing) :
    ∀ r ∈ existing, ∀ c ∈ r.conditions, c.dataType.isCondition = true := by
  induction h with
  | start => simp
  | call hs hb hid ih => exact List.forall_mem_cons.mpr ⟨hb.isCondition, ih⟩

/-- An operator whose references were given by relations that agree with it is well typed. -/
theorem Checked.wellTyped {n : Relation} (h : n.Checked)
    (hc : ∀ c ∈ n.conditions, c.dataType.isCondition = true)
    (hg : ∀ e ∈ n.exprs, ∀ ref t, .column ref t ∈ e.parts →
      ∃ s : Relation, s.WellFormed ∧ s.header.Gives ref t ∧ s.Agrees ref n) : n.WellTyped where
  exprs e he := by
    obtain ⟨hm, hb⟩ := h.binds he
    refine hm.wellTyped fun ref t hr => ?_
    obtain ⟨s, hs, hgives, hagrees⟩ := hg e he ref t hr
    -- the check has found some type in the inputs, the relation the reference is from knows which
    obtain ⟨t', ht'⟩ := hb ref (Expr.mem_columnRefs.mpr ⟨t, hr⟩)
    have ht := hgives.typeOf?_eq (owned_header s) (aligned_header s) hs.nodup_names
    rw [hagrees t t' ht ht', ht']
  conditions := hc

end Relation

end PlanSql
