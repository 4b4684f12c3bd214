import PlanSql.Proofs.Plan.TermCodec

/-!
# Plans read back from their canonical text

The canonical text of a plan that was read from a text stands for that plan and for no other. It is
read again unless it is nested too deeply: the fields that were left out in the first text are
written, and an empty list in place of one may be a level deeper than anything in that text was.
-/
namespace PlanSql

open Json (Yields)

namespace Term

theorem ReadsBack.ofJson {t : Term} (h : t.ReadsBack) : ofJson? t.toJson = some t :=
  h.1 _ (Nat.le_refl _)

theorem ReadsBack.namedOf {n : Named Term} (h : n.expr.ReadsBack) :
    Term.namedOf ofJson? (namedToJson n) = some n := by
  obtain ⟨t, aliasName⟩ := n
  cases aliasName with
  | none => exact bind_some h.ofJson rfl
  | some aliasName => exact bind_some h.ofJson rfl

theorem ReadsBack.inRange_named {n : Named Term} (h : n.expr.ReadsBack) :
    (namedToJson n).InRange := by
  obtain ⟨t, aliasName⟩ := n
  cases aliasName <;> simp [namedToJson, optionalMember, h.2]

end Term

namespace Plan

theorem terms_termsToJson {ts : List Term} (h : ∀ t ∈ ts, t.ReadsBack) :
    terms (termsToJson ts) = some ts :=
  mapM_map_eq_some fun t ht => (h t ht).ofJson

theorem inRange_terms {ts : List Term} (h : ∀ t ∈ ts, t.ReadsBack) : (termsToJson ts).InRange := by
  rw [termsToJson, Json.inRange_array, List.forall_mem_map]
  exact fun t ht => (h t ht).2

theorem namedTerms_namedTermsToJson {ns : List (Named Term)} (h : ∀ n ∈ ns, n.expr.ReadsBack) :
    namedTerms (namedTermsToJson ns) = some ns :=
  mapM_map_eq_some fun n hn => (h n hn).namedOf

theorem inRange_namedTerms {ns : List (Named Term)} (h : ∀ n ∈ ns, n.expr.ReadsBack) :
    (namedTermsToJson ns).InRange := by
  rw [namedTermsToJson, Json.inRange_array, List.forall_mem_map]
  exact fun n hn => (h n hn).inRange_named

theorem keys_keysToJson {ks : List (SortKey Term)} (h : ∀ k ∈ ks, k.expr.ReadsBack) :
    Json.items? (Term.keyOf Term.ofJson?) (.array (Term.keysToJson ks)) = some ks := by
  rw [Term.keysToJson_eq]
  exact mapM_map_eq_some fun k hk => Term.ReadsBack.keyOf (h k hk).ofJson

theorem yields_terms : Yields terms fun ts => ∀ t ∈ ts, t.ReadsBack := Term.yields_ofJson.items

theorem yields_namedTerms : Yields namedTerms fun ns => ∀ n ∈ ns, n.expr.ReadsBack :=
  (Term.yields_namedOf Term.yields_ofJson).items

/-- The plan is read from the record that is written for it, which is in range. -/
def ReadsBack (p : Plan) : Prop :=
  (∀ depth nested, p.toJson.depth ≤ depth → read depth nested p.toJson = some p) ∧ p.toJson.InRange

namespace ReadsBack

/-- A plan reads back if its fields do, whatever depth is left for them. -/
theorem of_fields {p : Plan} {shape : String} {fields : Fields Json}
    (hj : p.toJson = .object (("op", .string shape) :: fields))
    (htag : ∀ nested, p.toJson.tagged? "op" shapes nested = some (shape, fields))
    (hr : ∀ depth, (∀ m ∈ fields, m.2.depth ≤ depth) →
      ofFields (read depth true) shape fields = some p)
    (hin : fields.InRange) : p.ReadsBack := by
  refine ⟨fun depth nested hd => ?_, ?_⟩
  · rw [hj, Json.depth] at hd
    obtain ⟨depth, rfl⟩ : ∃ d, depth = d + 1 := ⟨depth - 1, by omega⟩
    rw [read, htag]
    refine hr depth fun m hm => Json.depthOfMembers_le.mp (Nat.le_of_succ_le_succ hd) m ?_
    exact List.mem_cons_of_mem _ hm
  · rw [hj, Json.inRange_object]
    exact List.forall_mem_cons.mpr ⟨Json.inRange_string _, hin⟩

theorem table {name : String} {aliasName : Option String} :
    (Plan.table name aliasName).ReadsBack := by
  cases aliasName with
  | none =>
    exact of_fields rfl (fun _ => rfl) (fun _ _ => rfl) (by simp [Fields.InRange, optionalMember])
  | some aliasName =>
    exact of_fields rfl (fun _ => rfl) (fun _ _ => rfl) (by simp [Fields.InRange, optionalMember])

theorem project {input : Plan} {exprs : List (Named Term)} (h : input.ReadsBack)
    (he : ∀ n ∈ exprs, n.expr.ReadsBack) : (Plan.project input exprs).ReadsBack := by
  refine of_fields rfl (fun _ => rfl) (fun depth hd => ?_)
    (by simp [Fields.InRange, h.2, inRange_namedTerms he])
  exact bind_some (h.1 depth true (hd ("input", input.toJson) (by simp)))
    (bind_some (namedTerms_namedTermsToJson he) rfl)

theorem filter {input : Plan} {predicates : List Term} (h : input.ReadsBack)
    (hp : ∀ t ∈ predicates, t.ReadsBack) : (Plan.filter input predicates).ReadsBack := by
  refine of_fields rfl (fun _ => rfl) (fun depth hd => ?_)
    (by simp [Fields.InRange, h.2, inRange_terms hp])
  exact bind_some (h.1 depth true (hd ("input", input.toJson) (by simp)))
    (bind_some (terms_termsToJson hp) rfl)

/-- Conditions on groups are left out if there are none. -/
theorem aggregate {input : Plan} {keys metrics : List (Named Term)} {having : List Term}
    (h : input.ReadsBack) (hk : ∀ n ∈ keys, n.expr.ReadsBack)
    (hm : ∀ n ∈ metrics, n.expr.ReadsBack) (hc : ∀ t ∈ having, t.ReadsBack) :
    (Plan.aggregate input keys metrics having).ReadsBack := by
  cases having with
  | nil =>
    refine of_fields rfl (fun _ => rfl) (fun depth hd => ?_)
      (by simp [Fields.InRange, h.2, inRange_namedTerms hk, inRange_namedTerms hm])
    exact bind_some (h.1 depth true (hd ("input", input.toJson) (by simp)))
      (bind_some (namedTerms_namedTermsToJson hk) (bind_some (namedTerms_namedTermsToJson hm) rfl))
  | cons c rest =>
    refine of_fields rfl (fun _ => rfl) (fun depth hd => ?_)
      (by simp [Fields.InRange, h.2, inRange_namedTerms hk, inRange_namedTerms hm,
        inRange_terms hc])
    exact bind_some (h.1 depth true (hd ("input", input.toJson) (by simp)))
      (bind_some (namedTerms_namedTermsToJson hk)
        (bind_some (namedTerms_namedTermsToJson hm) (bind_some (terms_termsToJson hc) rfl)))

theorem valueCounts {input : Plan} {expr : Named Term} (h : input.ReadsBack)
    (he : expr.expr.ReadsBack) : (Plan.valueCounts input expr).ReadsBack := by
  refine of_fields rfl (fun _ => rfl) (fun depth hd => ?_)
    (by simp [Fields.InRange, h.2, he.inRange_named])
  exact bind_some (h.1 depth true (hd ("input", input.toJson) (by simp)))
    (bind_some he.namedOf rfl)

theorem sort {input : Plan} {keys : List (SortKey Term)} (h : input.ReadsBack)
    (hk : ∀ k ∈ keys, k.expr.ReadsBack) : (Plan.sort input keys).ReadsBack := by
  refine of_fields rfl (fun _ => rfl) (fun depth hd => ?_) ?_
  · exact bind_some (h.1 depth true (hd ("input", input.toJson) (by simp)))
      (bind_some (keys_keysToJson hk) rfl)
  · simp only [Fields.InRange, List.forall_mem_cons]
    exact ⟨h.2, Term.ReadsBack.inRange_keys hk, by simp⟩

theorem limit {input : Plan} {count : Option Nat} {offset : Nat} (h : input.ReadsBack)
    (hc : ∀ n ∈ count, n ≤ maxCount) (ho : offset ≤ maxCount) :
    (Plan.limit input count offset).ReadsBack := by
  have hoffset := Json.natUpTo?_nat ho
  have hin : (Json.nat offset).InRange := Json.inRange_nat (Nat.lt_of_le_of_lt ho (by decide))
  cases count with
  | none =>
    refine of_fields rfl (fun _ => rfl) (fun depth hd => ?_) (by simp [Fields.InRange, h.2, hin])
    exact bind_some (h.1 depth true (hd ("input", input.toJson) (by simp)))
      (bind_some rfl (bind_some hoffset rfl))
  | some n =>
    have hn : n ≤ maxCount := hc n rfl
    have hcount : Json.orNull? (Json.natUpTo? maxCount) (.nat n) = some (some n) :=
      Json.orNull?_eq_some (by simp [Json.nat]) (Json.natUpTo?_nat hn)
    have hnin : (Json.nat n).InRange := Json.inRange_nat (Nat.lt_of_le_of_lt hn (by decide))
    refine of_fields rfl (fun _ => rfl) (fun depth hd => ?_)
      (by simp [Fields.InRange, h.2, hin, hnin])
    exact bind_some (h.1 depth true (hd ("input", input.toJson) (by simp)))
      (bind_some hcount (bind_some hoffset rfl))

theorem join {left right : Plan} {kind : JoinKind} {predicates : List Term} (hl : left.ReadsBack)
    (hr : right.ReadsBack) (hp : ∀ t ∈ predicates, t.ReadsBack) :
    (Plan.join left right kind predicates).ReadsBack := by
  have hk : Json.nested.choice? JoinKind.choices (choiceName JoinKind.choices kind) = some kind :=
    choice?_choiceName (by decide) (by cases kind <;> decide)
  refine of_fields rfl (fun _ => rfl) (fun depth hd => ?_)
    (by simp [Fields.InRange, hl.2, hr.2, inRange_terms hp])
  exact bind_some (hl.1 depth true (hd ("left", left.toJson) (by simp)))
    (bind_some (hr.1 depth true (hd ("right", right.toJson) (by simp)))
      (bind_some hk (bind_some (terms_termsToJson hp) rfl)))

theorem window {input : Plan} {exprs : List (Named Term)} (h : input.ReadsBack)
    (he : ∀ n ∈ exprs, n.expr.ReadsBack) : (Plan.window input exprs).ReadsBack := by
  refine of_fields rfl (fun _ => rfl) (fun depth hd => ?_)
    (by simp [Fields.InRange, h.2, inRange_namedTerms he])
  exact bind_some (h.1 depth true (hd ("input", input.toJson) (by simp)))
    (bind_some (namedTerms_namedTermsToJson he) rfl)

theorem distinct {input : Plan} (h : input.ReadsBack) : (Plan.distinct input).ReadsBack := by
  refine of_fields rfl (fun _ => rfl) (fun depth hd => ?_) (by simp [Fields.InRange, h.2])
  exact bind_some (h.1 depth true (hd ("input", input.toJson) (by simp))) rfl

end ReadsBack

theorem readsBack_of_fields {read : Json → Option Plan} (hr : Yields read ReadsBack)
    {shape : String} {fields : Fields Json} (hf : fields.InRange) {p : Plan}
    (h : ofFields read shape fields = some p) : p.ReadsBack := by
  unfold ofFields at h
  split at h
  · obtain ⟨name, -, h⟩ := Option.bind_eq_some_iff.mp h
    obtain ⟨aliasName, -, h⟩ := Option.bind_eq_some_iff.mp h
    obtain rfl := Option.some.inj h
    exact .table
  · obtain ⟨input, hi, h⟩ := Option.bind_eq_some_iff.mp h
    obtain ⟨exprs, he, h⟩ := Option.bind_eq_some_iff.mp h
    obtain rfl := Option.some.inj h
    exact .project (hr.required hf hi) (yields_namedTerms.required hf he)
  · obtain ⟨input, hi, h⟩ := Option.bind_eq_some_iff.mp h
    obtain ⟨predicates, hp, h⟩ := Option.bind_eq_some_iff.mp h
    obtain rfl := Option.some.inj h
    exact .filter (hr.required hf hi) (yields_terms.required hf hp)
  · obtain ⟨input, hi, h⟩ := Option.bind_eq_some_iff.mp h
    obtain ⟨keys, hk, h⟩ := Option.bind_eq_some_iff.mp h
    obtain ⟨metrics, hm, h⟩ := Option.bind_eq_some_iff.mp h
    obtain ⟨having, hh, h⟩ := Option.bind_eq_some_iff.mp h
    obtain rfl := Option.some.inj h
    exact .aggregate (hr.required hf hi) (yields_namedTerms.withDefault hf (by simp) hk)
      (yields_namedTerms.withDefault hf (by simp) hm) (yields_terms.withDefault hf (by simp) hh)
  · obtain ⟨input, hi, h⟩ := Option.bind_eq_some_iff.mp h
    obtain ⟨expr, he, h⟩ := Option.bind_eq_some_iff.mp h
    obtain rfl := Option.some.inj h
    exact .valueCounts (hr.required hf hi)
      ((Term.yields_namedOf Term.yields_ofJson).required hf he)
  · obtain ⟨input, hi, h⟩ := Option.bind_eq_some_iff.mp h
    obtain ⟨keys, hk, h⟩ := Option.bind_eq_some_iff.mp h
    obtain rfl := Option.some.inj h
    exact .sort (hr.required hf hi)
      ((Term.yields_keyOf Term.yields_ofJson).items.required hf hk)
  · obtain ⟨input, hi, h⟩ := Option.bind_eq_some_iff.mp h
    obtain ⟨count, hc, h⟩ := Option.bind_eq_some_iff.mp h
    obtain ⟨offset, ho, h⟩ := Option.bind_eq_some_iff.mp h
    obtain rfl := Option.some.inj h
    exact .limit (hr.required hf hi) ((Json.yields_natUpTo maxCount).optionalField hf hc)
      ((Json.yields_natUpTo maxCount).withDefault hf (Nat.zero_le _) ho)
  · obtain ⟨left, hleft, h⟩ := Option.bind_eq_some_iff.mp h
    obtain ⟨right, hright, h⟩ := Option.bind_eq_some_iff.mp h
    obtain ⟨kind, -, h⟩ := Option.bind_eq_some_iff.mp h
    obtain ⟨predicates, hp, h⟩ := Option.bind_eq_some_iff.mp h
    obtain rfl := Option.some.inj h
    exact .join (hr.required hf hleft) (hr.required hf hright)
      (yields_terms.withDefault hf (by simp) hp)
  · obtain ⟨input, hi, h⟩ := Option.bind_eq_some_iff.mp h
    obtain ⟨exprs, he, h⟩ := Option.bind_eq_some_iff.mp h
    obtain rfl := Option.some.inj h
    exact .window (hr.required hf hi) (yields_namedTerms.required hf he)
  · obtain ⟨input, hi, h⟩ := Option.bind_eq_some_iff.mp h
    obtain rfl := Option.some.inj h
    exact .distinct (hr.required hf hi)
  · simp at h

/-- What was read reads back. -/
theorem yields_read (depth : Nat) (nested : Bool) : Yields (read depth nested) ReadsBack := by
  induction depth generalizing nested with
  | zero => simp [Yields, read]
  | succ depth ih =>
    intro j p hj h
    rw [read] at h
    split at h
    · simp at h
    · next shape fields hfields =>
      exact readsBack_of_fields (ih true) (Json.inRange_tagged hj hfields) h

/-- The plan that a text stands for. -/
def ofText? (text : String) : Option Plan := (Json.ofText? Json.maxDepth text).bind ofJson?

/-- The binary numbers among the constants of a plan. -/
def floats (p : Plan) : List Binary64 :=
  p.toJson.numbers.filterMap fun
    | .float x => some x
    | .int _ => none

/-- Every binary number in the plan is read from the text that is written for it. -/
def FloatsReread (p : Plan) : Prop :=
  ∀ x ∈ p.floats, Json.readNumber x.data.toList = some (.float x, [])

theorem readsBack_of_ofText {text : String} {p : Plan} (h : ofText? text = some p) :
    p.ReadsBack := by
  obtain ⟨j, hj, h⟩ := Option.bind_eq_some_iff.mp h
  exact yields_read j.depth false j p (Json.inRange_of_ofText? hj) h

theorem rereads {p : Plan} (h : p.ReadsBack) (hf : p.FloatsReread) : p.toJson.Rereads := by
  intro n hn
  cases n with
  | int i => exact Json.Number.rereads_int (h.2 _ hn)
  | float x => exact hf x (List.mem_filterMap.mpr ⟨_, hn, rfl⟩)

/-- The canonical text is read as the canonical record, up to the limit on nesting. -/
theorem ofText?_canonical {p : Plan} (h : p.ReadsBack) (hf : p.FloatsReread) (limit : Nat) :
    (Json.ofText? limit p.canonical).bind ofJson? =
      if p.toJson.depth ≤ limit then some p else none := by
  rw [canonical, Json.ofText?_text (rereads h hf)]
  split
  · exact h.1 _ false (Nat.le_refl _)
  · rfl

/-- No two plans that were read have the same canonical text. -/
theorem eq_of_canonical_eq {p q : Plan} (hp : p.ReadsBack) (hq : q.ReadsBack)
    (hfp : p.FloatsReread) (hfq : q.FloatsReread) (h : p.canonical = q.canonical) : p = q := by
  -- the one text is read with a limit that neither plan exceeds
  have hread := ofText?_canonical hp hfp (max p.toJson.depth q.toJson.depth)
  rw [h, ofText?_canonical hq hfq, if_pos (Nat.le_max_right _ _),
    if_pos (Nat.le_max_left _ _)] at hread
  exact (Option.some.inj hread).symm

/-- The canonical text of a plan that was read from a text is read as this plan, unless it is nested
too deeply, and no other plan that was read has this text. -/
theorem canonical_lossless {text : String} {p : Plan} (h : ofText? text = some p)
    (hf : p.FloatsReread) :
    (ofText? p.canonical = if p.toJson.depth ≤ Json.maxDepth then some p else none) ∧
    ∀ other q, ofText? other = some q → q.FloatsReread → q.canonical = p.canonical → q = p := by
  have hp := readsBack_of_ofText h
  refine ⟨ofText?_canonical hp hf Json.maxDepth, fun other q hq hfq heq => ?_⟩
  exact eq_of_canonical_eq (readsBack_of_ofText hq) hp hfq hf heq

/-- A filter whose fields stand in another order, its parts being arrays that begin with the name or
the position of a shape. -/
def terseFilter : Json := .object [
  ("predicates", .array [.array [.nat 0, .number (.float ⟨4609434218613702656⟩)]]),
  ("input", .array [.string "table", .string "t"]), ("op", .string "filter")]

/-- The same with a constant of one and a half. -/
def constantFilter : Plan :=
  .filter (.table "t" none) [.literal (.number (.float ⟨4609434218613702656⟩)) none]

theorem constantFilter_lossless :
    ofText? terseFilter.text = some constantFilter ∧ constantFilter.FloatsReread ∧
    ofText? constantFilter.canonical = some constantFilter ∧
    ∀ other q, ofText? other = some q → q.FloatsReread →
      q.canonical = constantFilter.canonical → q = constantFilter := by
  have hnumber : Json.readNumber (⟨4609434218613702656⟩ : Binary64).data.toList =
      some (.float ⟨4609434218613702656⟩, []) := by decide +kernel
  have hfloats : constantFilter.FloatsReread := by
    intro x hx
    obtain rfl : x = ⟨4609434218613702656⟩ := List.mem_singleton.mp hx
    exact hnumber
  have hterse : terseFilter.Rereads := by
    have hnumbers : terseFilter.numbers = [.int 0, .float ⟨4609434218613702656⟩] := rfl
    simp only [Json.Rereads, hnumbers, List.mem_cons, List.not_mem_nil, or_false, forall_eq_or_imp,
      forall_eq]
    exact ⟨rfl, hnumber⟩
  have hread : ofText? terseFilter.text = some constantFilter := by
    rw [ofText?, Json.ofText?_text hterse]
    rfl
  obtain ⟨hcanonical, hother⟩ := canonical_lossless hread hfloats
  exact ⟨hread, hfloats, hcanonical, hother⟩

/-- Duplicates removed over and over. -/
def distinctTimes : Nat → Plan → Plan
  | 0, p => p
  | n + 1, p => .distinct (distinctTimes n p)

/-- Duplicates removed over and over, as a record. -/
def distinctRecord : Nat → Json → Json
  | 0, j => j
  | n + 1, j => .object [("op", .string "distinct"), ("input", distinctRecord n j)]

/-- The numbers of the rows of a table. -/
def rowNumbers : Plan :=
  .project (.table "t" none) [.unnamed (.window "row_number" [] [] [])]

/-- The same as a record that says no more than it has to. -/
def rowNumbersRecord : Json := .object [
  ("op", .string "project"),
  ("input", .object [("op", .string "table"), ("name", .string "t")]),
  ("exprs", .array [.object [("expr", .object [
    ("type", .string "window"), ("func", .string "row_number")])]])]

theorem toJson_distinctTimes (n : Nat) (p : Plan) :
    (distinctTimes n p).toJson = distinctRecord n p.toJson := by
  induction n with
  | zero => rfl
  | succ n ih => rw [distinctTimes, toJson, ih, distinctRecord]

theorem depth_distinctRecord (n : Nat) (j : Json) : (distinctRecord n j).depth = n + j.depth := by
  induction n with
  | zero => simp [distinctRecord]
  | succ n ih =>
    simp only [distinctRecord, Json.depth, Json.depthOfMembers, ih]
    omega

theorem numbers_distinctRecord (n : Nat) (j : Json) : (distinctRecord n j).numbers = j.numbers := by
  induction n with
  | zero => rfl
  | succ n ih => simp [distinctRecord, Json.numbers, Json.numbersOfMembers, ih]

theorem read_distinctRecord {depth : Nat} {j : Json} {p : Plan}
    (h : ∀ nested, read depth nested j = some p) (n : Nat) (nested : Bool) :
    read (n + depth) nested (distinctRecord n j) = some (distinctTimes n p) := by
  induction n generalizing nested with
  | zero => simpa [distinctRecord, distinctTimes] using h nested
  | succ n ih =>
    rw [Nat.succ_add]
    exact bind_some (ih true) rfl

/-- A text at the limit on nesting is read, but its canonical text is beyond the limit: it has an
empty list of arguments where the text had none. -/
theorem canonical_too_deep :
    ofText? (distinctRecord 123 rowNumbersRecord).text = some (distinctTimes 123 rowNumbers) ∧
    ofText? (distinctTimes 123 rowNumbers).canonical = none := by
  have hnumbers : (distinctRecord 123 rowNumbersRecord).Rereads := by
    rw [Json.Rereads, numbers_distinctRecord]
    simp [rowNumbersRecord, Json.numbers, Json.numbersOfMembers, Json.numbersOfItems]
  have hread : ofText? (distinctRecord 123 rowNumbersRecord).text =
      some (distinctTimes 123 rowNumbers) := by
    rw [ofText?, Json.ofText?_text hnumbers, depth_distinctRecord, if_pos (by decide),
      Option.bind_some, ofJson?, depth_distinctRecord]
    exact read_distinctRecord (fun _ => rfl) 123 false
  have hfloats : (distinctTimes 123 rowNumbers).FloatsReread := by
    rw [FloatsReread, floats, toJson_distinctTimes, numbers_distinctRecord]
    simp [rowNumbers, toJson, namedTermsToJson, Term.namedToJson, Named.unnamed, Term.toJson,
      Term.allToJson, Term.keysToJson, optionalMember, Json.numbers, Json.numbersOfMembers,
      Json.numbersOfItems]
  refine ⟨hread, ?_⟩
  rw [ofText?, ofText?_canonical (readsBack_of_ofText hread) hfloats, toJson_distinctTimes,
    depth_distinctRecord, if_neg (by decide)]

end Plan

end PlanSql
