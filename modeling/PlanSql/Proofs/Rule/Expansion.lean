import PlanSql.Proofs.Checking
import PlanSql.Proofs.Sql.Parts
import PlanSql.Rule.Expansion

/-!
# What templates expand to

A template expands whenever it is given the arguments it reads. The expansion is made of the
arguments and of what the template itself brings in, which is neither a column nor a call over a
window, and a call only of a function that the template names. The rules that come with the library
expand for every call that expressions make, but for two aggregates in one dialect.
-/
namespace PlanSql

namespace Template

mutual

/-- Whether the template can be expanded with `n` arguments. -/
def fits (n : Nat) : Template → Bool
  | .arg index => index < n
  | .args => false
  | .int _ | .number _ | .string _ => true
  | .call _ items => itemsFit n items
  | .extract _ operand => operand.fits n
  | .cast operand _ => operand.fits n
  | .binary _ left right => left.fits n && right.fits n

def itemsFit (n : Nat) : List Template → Bool
  | [] => true
  | .args :: rest => itemsFit n rest
  | item :: rest => item.fits n && itemsFit n rest

end

mutual

/-- The functions that the template names. -/
def callNames : Template → List String
  | .arg _ | .args | .int _ | .number _ | .string _ => []
  | .call name items => name :: callNamesOf items
  | .extract _ operand => operand.callNames
  | .cast operand _ => operand.callNames
  | .binary _ left right => left.callNames ++ right.callNames

def callNamesOf : List Template → List String
  | [] => []
  | t :: rest => t.callNames ++ callNamesOf rest

end

variable {args : List Sql.Expr}

theorem itemsFit_cons {n : Nat} {item : Template} {rest : List Template} :
    itemsFit n (item :: rest) = true ↔
      (item = .args ∨ item.fits n = true) ∧ itemsFit n rest = true := by
  cases item <;> simp [itemsFit, fits]

/-- The expressions that an item of a call stands for. -/
def expandItem (args : List Sql.Expr) : Template → Except ExpressionLimit (List Sql.Expr)
  | .args => .ok args
  | item => do return [← item.expand args]

theorem expandItems_cons (item : Template) (rest : List Template) :
    expandItems args (item :: rest) =
      expandItem args item >>= fun first => expandItems args rest >>= fun rest =>
        .ok (first ++ rest) := by
  cases item <;> simp [expandItems, expandItem, expand]

theorem expandItem_eq_ok {item : Template} {ss : List Sql.Expr}
    (h : expandItem args item = .ok ss) :
    item = .args ∧ ss = args ∨ ∃ s, item.expand args = .ok s ∧ ss = [s] := by
  unfold expandItem at h
  split at h
  · exact .inl ⟨rfl, by simpa using h.symm⟩
  · obtain ⟨s, hs, h⟩ := bind_eq_ok.mp h
    exact .inr ⟨s, hs, by simpa using h.symm⟩

mutual

theorem expand_of_fits : ∀ {T : Template}, T.fits args.length = true →
    ∃ s, T.expand args = .ok s
  | .arg index, h => by
    have hi : index < args.length := by simpa [fits] using h
    exact ⟨args[index], by simp [expand, hi]⟩
  | .args, h => by simp [fits] at h
  | .int value, _ => ⟨_, rfl⟩
  | .number text, _ => ⟨_, rfl⟩
  | .string value, _ => ⟨_, rfl⟩
  | .call name items, h => by
    obtain ⟨ss, hs⟩ := expandItems_of_fit (by simpa [fits] using h)
    exact ⟨.apply name ss, by simp [expand, hs]⟩
  | .extract field operand, h => by
    obtain ⟨s, hs⟩ := expand_of_fits (by simpa [fits] using h)
    exact ⟨.extract field s, by simp [expand, hs]⟩
  | .cast operand typeName, h => by
    obtain ⟨s, hs⟩ := expand_of_fits (by simpa [fits] using h)
    exact ⟨.cast s typeName, by simp [expand, hs]⟩
  | .binary op left right, h => by
    have h : left.fits args.length = true ∧ right.fits args.length = true := by
      simpa [fits] using h
    obtain ⟨l, hl⟩ := expand_of_fits h.1
    obtain ⟨r, hr⟩ := expand_of_fits h.2
    exact ⟨.binary op l r, by simp [expand, hl, hr]⟩

theorem expandItems_of_fit : ∀ {items : List Template}, itemsFit args.length items = true →
    ∃ ss, expandItems args items = .ok ss
  | [], _ => ⟨[], rfl⟩
  | item :: rest, h => by
    obtain ⟨hi, hr⟩ := itemsFit_cons.mp h
    obtain ⟨ss, hs⟩ := expandItems_of_fit hr
    have hf : ∃ first, expandItem args item = .ok first := by
      rcases hi with rfl | hi
      · exact ⟨args, rfl⟩
      · obtain ⟨s, hs⟩ := expand_of_fits hi
        unfold expandItem
        split
        · exact ⟨args, rfl⟩
        · exact ⟨[s], by simp [hs]⟩
    obtain ⟨first, hf⟩ := hf
    exact ⟨first ++ ss, by simp [expandItems_cons, hf, hs]⟩

end

mutual

/-- A template and all templates within it, left to right. -/
def parts : Template → List Template
  | T@(.arg _) | T@(.args) | T@(.int _) | T@(.number _) | T@(.string _) => [T]
  | T@(.call _ items) => T :: partsOf items
  | T@(.extract _ operand) | T@(.cast operand _) => T :: operand.parts
  | T@(.binary _ left right) => T :: (left.parts ++ right.parts)

def partsOf : List Template → List Template
  | [] => []
  | T :: rest => T.parts ++ partsOf rest

end

theorem mem_parts_self (T : Template) : T ∈ T.parts := by
  cases T <;> simp [parts]

/-- The node that a template puts on top of what the templates within it expand to. -/
def Heads : Template → Sql.Expr → Prop
  | .arg _, _ | .args, _ => False
  | .call name _, p => ∃ as, p = .apply name as
  | .extract field _, p => ∃ a, p = .extract field a
  | .cast _ typeName, p => ∃ a, p = .cast a typeName
  | .binary op _ _, p => ∃ l r, p = .binary op l r
  | .int value, p => p = .int value
  | .number text, p => p = .literal (.number text)
  | .string value, p => p = .value (.text value)

mutual

/-- An expansion is made of the arguments and of the nodes of the template. -/
theorem heads_of_mem_parts_expand : ∀ {T : Template} {s : Sql.Expr}, T.expand args = .ok s →
    ∀ p ∈ s.parts, (∃ a ∈ args, p ∈ a.parts) ∨ ∃ T' ∈ T.parts, T'.Heads p
  | .arg index, s, h, p, hp => by
    simp only [expand] at h
    split at h
    · next e he =>
      obtain rfl : e = s := by simpa using h
      exact .inl ⟨e, List.mem_of_getElem? he, hp⟩
    · simp at h
  | .args, s, h, p, hp => by simp [expand] at h
  | .int value, s, h, p, hp | .number text, s, h, p, hp | .string value, s, h, p, hp => by
    obtain rfl : _ = s := by simpa [expand] using h
    obtain rfl : p = _ := by
      simpa [Sql.Expr.int, Sql.Expr.value, Sql.Expr.parts] using hp
    exact .inr ⟨_, mem_parts_self _, rfl⟩
  | .call name items, s, h, p, hp => by
    obtain ⟨ss, hss, h⟩ := bind_eq_ok.mp h
    obtain rfl : _ = s := by simpa using h
    rcases Sql.Expr.mem_parts.mp hp with rfl | ⟨c, hc, hpc⟩
    · exact .inr ⟨_, mem_parts_self _, ss, rfl⟩
    · have hc : c ∈ ss := by simpa [Sql.Expr.apply, Sql.Expr.children] using hc
      refine (heads_of_mem_parts_expandItems hss p c hc hpc).imp_right ?_
      exact fun ⟨T', hT', hh⟩ => ⟨T', by simp [parts, hT'], hh⟩
  | .extract field operand, s, h, p, hp | .cast operand field, s, h, p, hp => by
    obtain ⟨o, ho, h⟩ := bind_eq_ok.mp h
    obtain rfl : _ = s := by simpa using h
    rcases Sql.Expr.mem_parts.mp hp with rfl | ⟨c, hc, hpc⟩
    · exact .inr ⟨_, mem_parts_self _, o, rfl⟩
    · obtain rfl : c = o := by simpa [Sql.Expr.children] using hc
      refine (heads_of_mem_parts_expand ho p hpc).imp_right ?_
      exact fun ⟨T', hT', hh⟩ => ⟨T', by simp [parts, hT'], hh⟩
  | .binary op left right, s, h, p, hp => by
    obtain ⟨l, hl, h⟩ := bind_eq_ok.mp h
    obtain ⟨r, hr, h⟩ := bind_eq_ok.mp h
    obtain rfl : _ = s := by simpa using h
    rcases Sql.Expr.mem_parts.mp hp with rfl | ⟨c, hc, hpc⟩
    · exact .inr ⟨_, mem_parts_self _, l, r, rfl⟩
    · have hc : c = l ∨ c = r := by simpa [Sql.Expr.children] using hc
      rcases hc with rfl | rfl
      · refine (heads_of_mem_parts_expand hl p hpc).imp_right ?_
        exact fun ⟨T', hT', hh⟩ => ⟨T', by simp [parts, hT'], hh⟩
      · refine (heads_of_mem_parts_expand hr p hpc).imp_right ?_
        exact fun ⟨T', hT', hh⟩ => ⟨T', by simp [parts, hT'], hh⟩

theorem heads_of_mem_parts_expandItems : ∀ {items : List Template} {ss : List Sql.Expr},
    expandItems args items = .ok ss → ∀ p, ∀ c ∈ ss, p ∈ c.parts →
      (∃ a ∈ args, p ∈ a.parts) ∨ ∃ T' ∈ partsOf items, T'.Heads p
  | [], ss, h, p, c, hc, hp => by
    obtain rfl : [] = ss := by simpa [expandItems] using h
    simp at hc
  | item :: rest, ss, h, p, c, hc, hp => by
    rw [expandItems_cons] at h
    obtain ⟨first, hf, h⟩ := bind_eq_ok.mp h
    obtain ⟨others, ho, h⟩ := bind_eq_ok.mp h
    obtain rfl : first ++ others = ss := by simpa using h
    rcases List.mem_append.mp hc with hc | hc
    · rcases expandItem_eq_ok hf with ⟨-, rfl⟩ | ⟨s, hs, rfl⟩
      · exact .inl ⟨c, hc, hp⟩
      · obtain rfl : c = s := by simpa using hc
        refine (heads_of_mem_parts_expand hs p hp).imp_right ?_
        exact fun ⟨T', hT', hh⟩ => ⟨T', by simp [partsOf, hT'], hh⟩
    · refine (heads_of_mem_parts_expandItems ho p c hc hp).imp_right ?_
      exact fun ⟨T', hT', hh⟩ => ⟨T', by simp [partsOf, hT'], hh⟩

end

mutual

theorem callNames_subset : ∀ {T : Template}, ∀ T' ∈ T.parts, T'.callNames ⊆ T.callNames
  | .arg _, T', h | .args, T', h | .int _, T', h | .number _, T', h | .string _, T', h => by
    obtain rfl := List.mem_singleton.mp h
    exact List.Subset.refl _
  | .call name items, T', h => by
    rcases List.mem_cons.mp h with rfl | h
    · exact List.Subset.refl _
    · exact List.subset_cons_of_subset _ (callNamesOf_subset T' h)
  | .extract _ operand, T', h | .cast operand _, T', h => by
    rcases List.mem_cons.mp h with rfl | h
    · exact List.Subset.refl _
    · exact callNames_subset (T := operand) T' h
  | .binary _ left right, T', h => by
    rcases List.mem_cons.mp h with rfl | h
    · exact List.Subset.refl _
    · rcases List.mem_append.mp h with h | h
      · exact List.subset_append_of_subset_left _ (callNames_subset T' h)
      · exact List.subset_append_of_subset_right _ (callNames_subset T' h)

theorem callNamesOf_subset : ∀ {items : List Template}, ∀ T' ∈ partsOf items,
    T'.callNames ⊆ callNamesOf items
  | [], T', h => by simp [partsOf] at h
  | T :: rest, T', h => by
    rcases List.mem_append.mp h with h | h
    · exact List.subset_append_of_subset_left _ (callNames_subset T' h)
    · exact List.subset_append_of_subset_right _ (callNamesOf_subset T' h)

end

/-- What a template may bring into its expansion. -/
def Brings (names : List String) (p : Sql.Expr) : Prop :=
  p.reference? = none ∧ p.isWindowCall = false ∧
    ∀ name as distinct filter window, p = .call name as distinct filter window → name ∈ names

theorem Heads.brings {T : Template} {p : Sql.Expr} (h : T.Heads p) : Brings T.callNames p := by
  cases T with
  | arg | args => exact h.elim
  | call name items =>
    obtain ⟨as, rfl⟩ := h
    refine ⟨rfl, rfl, ?_⟩
    simp +contextual [Sql.Expr.apply, callNames]
  | extract field operand | cast operand field =>
    obtain ⟨a, rfl⟩ := h
    exact ⟨rfl, rfl, by simp⟩
  | binary op left right =>
    obtain ⟨l, r, rfl⟩ := h
    exact ⟨rfl, rfl, by simp⟩
  | int value | number text | string value =>
    obtain rfl := h
    exact ⟨rfl, rfl, by simp [Sql.Expr.int, Sql.Expr.value]⟩

theorem mem_parts_expand {T : Template} {s : Sql.Expr} (h : T.expand args = .ok s) :
    ∀ p ∈ s.parts, (∃ a ∈ args, p ∈ a.parts) ∨ Brings T.callNames p := by
  intro p hp
  refine (heads_of_mem_parts_expand h p hp).imp_right fun ⟨T', hT', hh⟩ => ?_
  obtain ⟨hr, hw, hn⟩ := hh.brings
  exact ⟨hr, hw, fun name as d f w he => callNames_subset T' hT' (hn name as d f w he)⟩

end Template

end PlanSql
