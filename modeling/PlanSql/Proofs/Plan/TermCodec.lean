import PlanSql.Plan.Reading
import PlanSql.Plan.Writing
import PlanSql.Proofs.Json.Records

/-!
# Terms read back from their records

A term that was read from a record with numbers of 64 bits is read again from the record that is
written for it. What was written otherwise the first time, by position, in another order or with
options left out, has been settled by then: constants are sorted, precisions and scales are small,
and every name is one that is read.
-/
namespace PlanSql

open Json (Yields)

/-- A choice is read from the name that it is written by. -/
theorem choice?_choiceName {α : Type} [DecidableEq α] {choices : List (String × α)} {a : α}
    (hn : (choices.map (·.1)).Nodup) (ha : a ∈ choices.map (·.2)) :
    Json.nested.choice? choices (choiceName choices a) = some a := by
  obtain ⟨c, hc, rfl⟩ := List.mem_map.mp ha
  obtain ⟨d, hd⟩ := Option.isSome_iff_exists.mp
    (List.find?_isSome (p := fun x : String × α => x.2 = c.2).mpr ⟨c, hc, by simp⟩)
  obtain ⟨hv, before, after, rfl, -⟩ := List.find?_eq_some_iff_append.mp hd
  have hv : d.2 = c.2 := by simpa using hv
  rw [List.map_append, List.map_cons, List.nodup_append] at hn
  have hlookup : (before ++ d :: after).lookup d.1 = some d.2 := by
    refine List.lookup_eq_some_iff.mpr ⟨before, after, rfl, fun b hb => ?_⟩
    have hne := hn.2.2 b.1 (List.mem_map_of_mem hb) d.1 List.mem_cons_self
    simpa using hne.symm
  rw [choiceName, hd, ← hv]
  exact hlookup

@[simp] theorem inRange_choiceName {α : Type} [DecidableEq α] (choices : List (String × α))
    (a : α) : (choiceName choices a).InRange :=
  Json.inRange_string _

namespace DataType

/-- The type is read from what is written for it, which is in range. -/
def ReadsBack (t : DataType) : Prop := ofSource? Json.nested t.toJson = some t ∧ t.toJson.InRange

theorem readsBack_decimal {precision scale : Nat} (hp : precision ≤ 255) (hs : scale ≤ 255) :
    (decimal precision scale).ReadsBack := by
  refine ⟨bind_some (Json.natUpTo?_nat hp) (bind_some (Json.natUpTo?_nat hs) rfl), ?_⟩
  have hp : (Json.nat precision).InRange := Json.inRange_nat (Nat.lt_of_le_of_lt hp (by decide))
  have hs : (Json.nat scale).InRange := Json.inRange_nat (Nat.lt_of_le_of_lt hs (by decide))
  simp [toJson, hp, hs]

theorem readsBack_plain {t : DataType} (h : t ∈ plainNames.map (·.2)) : t.ReadsBack := by
  cases t with
  | decimal => simp [plainNames] at h
  | _ => exact ⟨rfl, by simp [toJson]⟩

theorem yields_ofSource : Yields (ofSource? Json.nested) ReadsBack := by
  intro j t hj h
  unfold ofSource? at h
  split at h
  · next content hc =>
    obtain ⟨fields, hf, h⟩ := Option.bind_eq_some_iff.mp h
    obtain ⟨precision, hp, h⟩ := Option.bind_eq_some_iff.mp h
    obtain ⟨scale, hs, h⟩ := Option.bind_eq_some_iff.mp h
    obtain rfl := Option.some.inj h
    have hin := Json.inRange_fields (Json.inRange_content hj hc) hf
    exact readsBack_decimal ((Json.yields_natUpTo 255).required hin hp)
      ((Json.yields_natUpTo 255).required hin hs)
  · obtain ⟨name, -, h⟩ := Option.bind_eq_some_iff.mp h
    obtain ⟨before, after, heq, -⟩ := List.lookup_eq_some_iff.mp h
    exact readsBack_plain (List.mem_map.mpr ⟨(name, t), by simp [heq], rfl⟩)

theorem toJson_ne_null (t : DataType) : t.toJson ≠ .null := by
  cases t <;> simp [toJson]

end DataType

namespace Term

/-- The term is read from the record that is written for it, which is in range. -/
def ReadsBack (t : Term) : Prop :=
  (∀ depth, t.toJson.depth ≤ depth → read depth t.toJson = some t) ∧ t.toJson.InRange

theorem toJson_ne_null (t : Term) : t.toJson ≠ .null := by
  cases t <;> simp [toJson]

theorem allToJson_eq (ts : List Term) : allToJson ts = ts.map toJson := by
  induction ts with
  | nil => rfl
  | cons t rest ih => rw [allToJson, ih, List.map_cons]

/-- A sort key as a record. -/
def keyToJson (k : SortKey Term) : Json :=
  .object [("expr", k.expr.toJson), ("desc", .bool k.descending)]

theorem keysToJson_eq (ks : List (SortKey Term)) : keysToJson ks = ks.map keyToJson := by
  induction ks with
  | nil => rfl
  | cons k rest ih => rw [keysToJson, ih, List.map_cons, keyToJson]

/-- A branch as a record. -/
def branchToJson (b : Term × Term) : Json :=
  .object [("when", b.1.toJson), ("then", b.2.toJson)]

theorem branchesToJson_eq (bs : List (Term × Term)) : branchesToJson bs = bs.map branchToJson := by
  induction bs with
  | nil => rfl
  | cons b rest ih => rw [branchesToJson, ih, List.map_cons, branchToJson]

namespace ReadsBack

/-- A term reads back if its fields do, whatever depth is left for them. -/
theorem of_fields {t : Term} {shape : String} {fields : Fields Json}
    (hj : t.toJson = .object (("type", .string shape) :: fields))
    (htag : t.toJson.tagged? "type" shapes true = some (shape, fields))
    (hr : ∀ depth, (∀ m ∈ fields, m.2.depth ≤ depth) → ofFields (read depth) shape fields = some t)
    (hin : fields.InRange) : t.ReadsBack := by
  refine ⟨fun depth hd => ?_, ?_⟩
  · rw [hj, Json.depth] at hd
    obtain ⟨depth, rfl⟩ : ∃ d, depth = d + 1 := ⟨depth - 1, by omega⟩
    rw [read, htag]
    refine hr depth fun m hm => Json.depthOfMembers_le.mp (Nat.le_of_succ_le_succ hd) m ?_
    exact List.mem_cons_of_mem _ hm
  · rw [hj, Json.inRange_object]
    exact List.forall_mem_cons.mpr ⟨Json.inRange_string _, hin⟩

theorem items {ts : List Term} (h : ∀ t ∈ ts, t.ReadsBack) {depth : Nat}
    (hd : (Json.array (allToJson ts)).depth ≤ depth) :
    Json.items? (read depth) (.array (allToJson ts)) = some ts := by
  rw [allToJson_eq] at hd ⊢
  have hd := Json.depth_item_le hd
  exact mapM_map_eq_some fun t ht => (h t ht).1 depth (hd _ (List.mem_map_of_mem ht))

theorem inRange_items {ts : List Term} (h : ∀ t ∈ ts, t.ReadsBack) :
    (Json.array (allToJson ts)).InRange := by
  rw [allToJson_eq, Json.inRange_array, List.forall_mem_map]
  exact fun t ht => (h t ht).2

theorem keyOf {read : Json → Option Term} {k : SortKey Term}
    (h : read k.expr.toJson = some k.expr) : Term.keyOf read (keyToJson k) = some k :=
  bind_some h rfl

theorem branchOf {read : Json → Option Term} {b : Term × Term} (hc : read b.1.toJson = some b.1)
    (hr : read b.2.toJson = some b.2) : Term.branchOf read (branchToJson b) = some b :=
  bind_some hc (bind_some hr rfl)

theorem keys {ks : List (SortKey Term)} (h : ∀ k ∈ ks, k.expr.ReadsBack) {depth : Nat}
    (hd : (Json.array (keysToJson ks)).depth ≤ depth) :
    Json.items? (Term.keyOf (read depth)) (.array (keysToJson ks)) = some ks := by
  rw [keysToJson_eq] at hd ⊢
  have hd := Json.depth_item_le hd
  refine mapM_map_eq_some fun k hk => keyOf ((h k hk).1 depth ?_)
  exact Json.depth_member_le (hd _ (List.mem_map_of_mem hk)) ("expr", k.expr.toJson) (by simp)

theorem inRange_keys {ks : List (SortKey Term)} (h : ∀ k ∈ ks, k.expr.ReadsBack) :
    (Json.array (keysToJson ks)).InRange := by
  rw [keysToJson_eq, Json.inRange_array, List.forall_mem_map]
  exact fun k hk => by simp [keyToJson, (h k hk).2]

theorem branches {bs : List (Term × Term)} (h : ∀ b ∈ bs, b.1.ReadsBack ∧ b.2.ReadsBack)
    {depth : Nat} (hd : (Json.array (branchesToJson bs)).depth ≤ depth) :
    Json.items? (Term.branchOf (read depth)) (.array (branchesToJson bs)) = some bs := by
  rw [branchesToJson_eq] at hd ⊢
  have hd := Json.depth_item_le hd
  refine mapM_map_eq_some fun b hb => ?_
  have hdepth := Json.depth_member_le (hd _ (List.mem_map_of_mem hb))
  exact branchOf ((h b hb).1.1 depth (hdepth ("when", b.1.toJson) (by simp)))
    ((h b hb).2.1 depth (hdepth ("then", b.2.toJson) (by simp)))

theorem inRange_branches {bs : List (Term × Term)} (h : ∀ b ∈ bs, b.1.ReadsBack ∧ b.2.ReadsBack) :
    (Json.array (branchesToJson bs)).InRange := by
  rw [branchesToJson_eq, Json.inRange_array, List.forall_mem_map]
  exact fun b hb => by simp [branchToJson, (h b hb).1.2, (h b hb).2.2]

theorem option {t : Term} (h : t.ReadsBack) {depth : Nat} (hd : t.toJson.depth ≤ depth) :
    Json.orNull? (read depth) t.toJson = some (some t) :=
  Json.orNull?_eq_some t.toJson_ne_null (h.1 depth hd)

theorem literal {value : Json} {dataType : Option DataType} (hs : value.sorted = value)
    (hv : value.InRange) (hd : ∀ t ∈ dataType, t.ReadsBack) :
    (Term.literal value dataType).ReadsBack := by
  cases dataType with
  | none =>
    refine of_fields rfl rfl (fun depth _ => ?_) (by simp [Fields.InRange, optionalMember, hv])
    exact congrArg (fun v => some (Term.literal v none)) hs
  | some t =>
    obtain ⟨ht, hin⟩ := hd t rfl
    refine of_fields rfl rfl (fun depth _ => ?_)
      (by simp [Fields.InRange, optionalMember, hv, hin])
    exact bind_some (Json.orNull?_eq_some t.toJson_ne_null ht)
      (congrArg (fun v => some (Term.literal v (some t))) hs)

theorem column {name : String} {table : Option String} : (Term.column name table).ReadsBack := by
  cases table with
  | none => exact of_fields rfl rfl (fun _ _ => rfl) (by simp [Fields.InRange, optionalMember])
  | some table =>
    exact of_fields rfl rfl (fun _ _ => rfl) (by simp [Fields.InRange, optionalMember])

theorem unary {op : UnaryOp} {operand : Term} (h : operand.ReadsBack) :
    (Term.unary op operand).ReadsBack := by
  have hop : Json.nested.choice? UnaryOp.choices (choiceName UnaryOp.choices op) = some op :=
    choice?_choiceName (by decide) (by cases op <;> decide)
  refine of_fields rfl rfl (fun depth hd => ?_) (by simp [Fields.InRange, h.2])
  have ho := h.1 depth (hd ("operand", operand.toJson) (by simp))
  exact bind_some hop (bind_some ho rfl)

theorem binary {op : BinaryOp} {left right : Term} (hl : left.ReadsBack) (hr : right.ReadsBack) :
    (Term.binary op left right).ReadsBack := by
  have hop : Json.nested.choice? BinaryOp.choices (choiceName BinaryOp.choices op) = some op :=
    choice?_choiceName (by decide) (by cases op <;> decide)
  refine of_fields rfl rfl (fun depth hd => ?_)
    (by simp [Fields.InRange, hl.2, hr.2])
  have hl := hl.1 depth (hd ("left", left.toJson) (by simp))
  have hr := hr.1 depth (hd ("right", right.toJson) (by simp))
  exact bind_some hop (bind_some hl (bind_some hr rfl))

theorem call {function : String} {args : List Term} (h : ∀ a ∈ args, a.ReadsBack) :
    (Term.call function args).ReadsBack := by
  refine of_fields rfl rfl (fun depth hd => ?_) (by simp [Fields.InRange, inRange_items h])
  exact bind_some (items h (hd ("args", .array (allToJson args)) (by simp))) rfl

theorem extract {part : DatePart} {operand : Term} (h : operand.ReadsBack) :
    (Term.extract part operand).ReadsBack := by
  have hp : Json.nested.choice? DatePart.choices (choiceName DatePart.choices part) = some part :=
    choice?_choiceName (by decide) (by cases part <;> decide)
  refine of_fields rfl rfl (fun depth hd => ?_) (by simp [Fields.InRange, h.2])
  exact bind_some hp (bind_some (h.1 depth (hd ("operand", operand.toJson) (by simp))) rfl)

theorem toTimestamp {operand : Term} {unit : TimeUnit} (h : operand.ReadsBack) :
    (Term.toTimestamp operand unit).ReadsBack := by
  have hu : Json.nested.choice? TimeUnit.choices (choiceName TimeUnit.choices unit) = some unit :=
    choice?_choiceName (by decide) (by cases unit <;> decide)
  refine of_fields rfl rfl (fun depth hd => ?_) (by simp [Fields.InRange, h.2])
  exact bind_some (h.1 depth (hd ("operand", operand.toJson) (by simp))) (bind_some hu rfl)

theorem inList {operand : Term} {values : List Json} {negated : Bool} (h : operand.ReadsBack)
    (hs : ∀ v ∈ values, v.sorted = v) (hv : ∀ v ∈ values, v.InRange) :
    (Term.inList operand values negated).ReadsBack := by
  have hvalues : values.mapM (fun v => some v.sorted) = some values := by
    have hmap := @mapM_map_eq_some _ _ (fun v : Json => some v.sorted) id values
      fun v hmem => congrArg some (hs v hmem)
    rwa [List.map_id] at hmap
  refine of_fields rfl rfl (fun depth hd => ?_) (by simpa [Fields.InRange, h.2] using hv)
  exact bind_some (h.1 depth (hd ("operand", operand.toJson) (by simp)))
    (bind_some hvalues rfl)

theorem isNull {operand : Term} {negated : Bool} (h : operand.ReadsBack) :
    (Term.isNull operand negated).ReadsBack := by
  refine of_fields rfl rfl (fun depth hd => ?_) (by simp [Fields.InRange, h.2])
  exact bind_some (h.1 depth (hd ("operand", operand.toJson) (by simp))) rfl

theorem cast {operand : Term} {target : DataType} (h : operand.ReadsBack)
    (ht : target.ReadsBack) : (Term.cast operand target).ReadsBack := by
  refine of_fields rfl rfl (fun depth hd => ?_) (by simp [Fields.InRange, h.2, ht.2])
  exact bind_some (h.1 depth (hd ("operand", operand.toJson) (by simp))) (bind_some ht.1 rfl)

theorem case {bs : List (Term × Term)} {otherwise : Option Term}
    (hb : ∀ b ∈ bs, b.1.ReadsBack ∧ b.2.ReadsBack) (ho : ∀ t ∈ otherwise, t.ReadsBack) :
    (Term.case bs otherwise).ReadsBack := by
  have hin := inRange_branches hb
  cases otherwise with
  | none =>
    refine of_fields rfl rfl (fun depth hd => ?_)
      (by simpa [Fields.InRange, optionToJson, optionalMember] using hin)
    exact bind_some (branches hb (hd ("branches", .array (branchesToJson bs)) (by simp))) rfl
  | some t =>
    have ht : t.ReadsBack := ho t rfl
    refine of_fields rfl rfl (fun depth hd => ?_)
      (by simpa [Fields.InRange, optionToJson, optionalMember, ht.2] using hin)
    exact bind_some (branches hb (hd ("branches", .array (branchesToJson bs)) (by simp)))
      (bind_some (ht.option (hd ("otherwise", t.toJson) (by simp [optionToJson, optionalMember])))
        rfl)

theorem aggregate {function : String} {arg : Option Term} {distinct : Bool} {filter : Option Term}
    (ha : ∀ t ∈ arg, t.ReadsBack) (hf : ∀ t ∈ filter, t.ReadsBack) :
    (Term.aggregate function arg distinct filter).ReadsBack := by
  cases arg with
  | none =>
    cases filter with
    | none =>
      exact of_fields rfl rfl (fun _ _ => rfl)
        (by simp [Fields.InRange, optionToJson, optionalMember])
    | some c =>
      have hc : c.ReadsBack := hf c rfl
      refine of_fields rfl rfl (fun depth hd => ?_)
        (by simp [Fields.InRange, optionToJson, optionalMember, hc.2])
      exact bind_some
        (hc.option (hd ("filter", c.toJson) (by simp [optionToJson, optionalMember]))) rfl
  | some a =>
    have ha : a.ReadsBack := ha a rfl
    cases filter with
    | none =>
      refine of_fields rfl rfl (fun depth hd => ?_)
        (by simp [Fields.InRange, optionToJson, optionalMember, ha.2])
      exact bind_some
        (ha.option (hd ("arg", a.toJson) (by simp [optionToJson, optionalMember]))) rfl
    | some c =>
      have hc : c.ReadsBack := hf c rfl
      refine of_fields rfl rfl (fun depth hd => ?_)
        (by simp [Fields.InRange, optionToJson, optionalMember, ha.2, hc.2])
      exact bind_some
        (ha.option (hd ("arg", a.toJson) (by simp [optionToJson, optionalMember])))
        (bind_some rfl (bind_some
          (hc.option (hd ("filter", c.toJson) (by simp [optionToJson, optionalMember]))) rfl))

theorem window {function : String} {args partitionBy : List Term} {orderBy : List (SortKey Term)}
    (ha : ∀ t ∈ args, t.ReadsBack) (hp : ∀ t ∈ partitionBy, t.ReadsBack)
    (ho : ∀ k ∈ orderBy, k.expr.ReadsBack) :
    (Term.window function args partitionBy orderBy).ReadsBack := by
  refine of_fields rfl rfl (fun depth hd => ?_) ?_
  · exact bind_some (items ha (hd ("args", .array (allToJson args)) (by simp)))
      (bind_some (items hp (hd ("partition_by", .array (allToJson partitionBy)) (by simp)))
        (bind_some (keys ho (hd ("order_by", .array (keysToJson orderBy)) (by simp))) rfl))
  · simp only [Fields.InRange, List.forall_mem_cons]
    exact ⟨Json.inRange_string _, inRange_items ha, inRange_items hp, inRange_keys ho, by simp⟩

end ReadsBack

theorem yields_keyOf {read : Json → Option Term} {P : Term → Prop} (hr : Yields read P) :
    Yields (keyOf read) fun k => P k.expr := by
  intro j k hj h
  obtain ⟨fields, hf, h⟩ := Option.bind_eq_some_iff.mp h
  obtain ⟨e, he, h⟩ := Option.bind_eq_some_iff.mp h
  obtain ⟨d, -, h⟩ := Option.bind_eq_some_iff.mp h
  obtain rfl := Option.some.inj h
  exact hr.required (Json.inRange_fields hj hf) he

theorem yields_namedOf {read : Json → Option Term} {P : Term → Prop} (hr : Yields read P) :
    Yields (namedOf read) fun n => P n.expr := by
  intro j n hj h
  obtain ⟨fields, hf, h⟩ := Option.bind_eq_some_iff.mp h
  obtain ⟨e, he, h⟩ := Option.bind_eq_some_iff.mp h
  obtain ⟨a, -, h⟩ := Option.bind_eq_some_iff.mp h
  obtain rfl := Option.some.inj h
  exact hr.required (Json.inRange_fields hj hf) he

theorem yields_branchOf {read : Json → Option Term} {P : Term → Prop} (hr : Yields read P) :
    Yields (branchOf read) fun b => P b.1 ∧ P b.2 := by
  intro j b hj h
  obtain ⟨fields, hf, h⟩ := Option.bind_eq_some_iff.mp h
  obtain ⟨c, hc, h⟩ := Option.bind_eq_some_iff.mp h
  obtain ⟨r, hres, h⟩ := Option.bind_eq_some_iff.mp h
  obtain rfl := Option.some.inj h
  have hin := Json.inRange_fields hj hf
  exact ⟨hr.required hin hc, hr.required hin hres⟩

/-- Constants are sorted when they are read. -/
theorem yields_sorted : Yields (fun v => some v.sorted) fun v => v.sorted = v ∧ v.InRange := by
  intro j v hj h
  obtain rfl := Option.some.inj h
  exact ⟨j.sorted_sorted, hj.sorted⟩

theorem readsBack_of_fields {read : Json → Option Term} (hr : Yields read ReadsBack)
    {shape : String} {fields : Fields Json} (hf : fields.InRange) {t : Term}
    (h : ofFields read shape fields = some t) : t.ReadsBack := by
  unfold ofFields at h
  split at h
  · obtain ⟨value, hv, h⟩ := Option.bind_eq_some_iff.mp h
    obtain ⟨dataType, hd, h⟩ := Option.bind_eq_some_iff.mp h
    obtain rfl := Option.some.inj h
    exact .literal value.sorted_sorted (Json.Yields.get? hf hv).sorted
      (DataType.yields_ofSource.optionalField hf hd)
  · obtain ⟨name, -, h⟩ := Option.bind_eq_some_iff.mp h
    obtain ⟨table, -, h⟩ := Option.bind_eq_some_iff.mp h
    obtain rfl := Option.some.inj h
    exact .column
  · obtain ⟨op, -, h⟩ := Option.bind_eq_some_iff.mp h
    obtain ⟨operand, ho, h⟩ := Option.bind_eq_some_iff.mp h
    obtain rfl := Option.some.inj h
    exact .unary (hr.required hf ho)
  · obtain ⟨op, -, h⟩ := Option.bind_eq_some_iff.mp h
    obtain ⟨left, hleft, h⟩ := Option.bind_eq_some_iff.mp h
    obtain ⟨right, hright, h⟩ := Option.bind_eq_some_iff.mp h
    obtain rfl := Option.some.inj h
    exact .binary (hr.required hf hleft) (hr.required hf hright)
  · obtain ⟨function, -, h⟩ := Option.bind_eq_some_iff.mp h
    obtain ⟨args, ha, h⟩ := Option.bind_eq_some_iff.mp h
    obtain rfl := Option.some.inj h
    exact .call (hr.items.withDefault hf (by simp) ha)
  · obtain ⟨part, -, h⟩ := Option.bind_eq_some_iff.mp h
    obtain ⟨operand, ho, h⟩ := Option.bind_eq_some_iff.mp h
    obtain rfl := Option.some.inj h
    exact .extract (hr.required hf ho)
  · obtain ⟨operand, ho, h⟩ := Option.bind_eq_some_iff.mp h
    obtain ⟨unit, -, h⟩ := Option.bind_eq_some_iff.mp h
    obtain rfl := Option.some.inj h
    exact .toTimestamp (hr.required hf ho)
  · obtain ⟨operand, ho, h⟩ := Option.bind_eq_some_iff.mp h
    obtain ⟨values, hv, h⟩ := Option.bind_eq_some_iff.mp h
    obtain ⟨negated, -, h⟩ := Option.bind_eq_some_iff.mp h
    obtain rfl := Option.some.inj h
    have hv := yields_sorted.items.required hf hv
    exact .inList (hr.required hf ho) (fun v hmem => (hv v hmem).1) fun v hmem => (hv v hmem).2
  · obtain ⟨operand, ho, h⟩ := Option.bind_eq_some_iff.mp h
    obtain ⟨negated, -, h⟩ := Option.bind_eq_some_iff.mp h
    obtain rfl := Option.some.inj h
    exact .isNull (hr.required hf ho)
  · obtain ⟨operand, ho, h⟩ := Option.bind_eq_some_iff.mp h
    obtain ⟨target, ht, h⟩ := Option.bind_eq_some_iff.mp h
    obtain rfl := Option.some.inj h
    exact .cast (hr.required hf ho) (DataType.yields_ofSource.required hf ht)
  · obtain ⟨branches, hb, h⟩ := Option.bind_eq_some_iff.mp h
    obtain ⟨otherwise, ho, h⟩ := Option.bind_eq_some_iff.mp h
    obtain rfl := Option.some.inj h
    exact .case ((yields_branchOf hr).items.required hf hb) (hr.optionalField hf ho)
  · obtain ⟨function, -, h⟩ := Option.bind_eq_some_iff.mp h
    obtain ⟨arg, ha, h⟩ := Option.bind_eq_some_iff.mp h
    obtain ⟨distinct, -, h⟩ := Option.bind_eq_some_iff.mp h
    obtain ⟨filter, hfilter, h⟩ := Option.bind_eq_some_iff.mp h
    obtain rfl := Option.some.inj h
    exact .aggregate (hr.optionalField hf ha) (hr.optionalField hf hfilter)
  · obtain ⟨function, -, h⟩ := Option.bind_eq_some_iff.mp h
    obtain ⟨args, ha, h⟩ := Option.bind_eq_some_iff.mp h
    obtain ⟨partitionBy, hp, h⟩ := Option.bind_eq_some_iff.mp h
    obtain ⟨orderBy, ho, h⟩ := Option.bind_eq_some_iff.mp h
    obtain rfl := Option.some.inj h
    exact .window (hr.items.withDefault hf (by simp) ha) (hr.items.withDefault hf (by simp) hp)
      ((yields_keyOf hr).items.withDefault hf (by simp) ho)
  · simp at h

/-- What was read reads back. -/
theorem yields_read (depth : Nat) : Yields (read depth) ReadsBack := by
  induction depth with
  | zero => simp [Yields, read]
  | succ depth ih =>
    intro j t hj h
    rw [read] at h
    split at h
    · simp at h
    · next shape fields hfields =>
      exact readsBack_of_fields ih (Json.inRange_tagged hj hfields) h

theorem yields_ofJson : Yields ofJson? ReadsBack :=
  fun j t hj h => yields_read j.depth j t hj h

end Term

end PlanSql
