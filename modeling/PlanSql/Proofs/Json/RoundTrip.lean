import PlanSql.Proofs.Json.Numerals
import PlanSql.Proofs.Json.Strings

/-!
# JSON values read back from their text

The compact text of a value stands for that value and for nothing else, wherever it stands in a
longer text: a reader with enough fuel comes to the value and to what follows it, if the value is
nested no deeper than the reader goes, and refuses it otherwise. All that is asked of the value is
that its numbers read back.
-/
namespace PlanSql.Json

/-- The values that a value consists of. -/
def children : Json → List Json
  | .array items => items
  | .object members => members.map (·.2)
  | .null | .bool _ | .number _ | .string _ => []

theorem sizeOf_lt_of_mem_children {j c : Json} (h : c ∈ j.children) : sizeOf c < sizeOf j := by
  cases j with
  | null | bool | number | string => simp [children] at h
  | array items =>
    have := List.sizeOf_lt_of_mem (show c ∈ items from h)
    simp only [array.sizeOf_spec]
    omega
  | object members =>
    obtain ⟨⟨key, value⟩, hm, rfl⟩ := List.mem_map.mp h
    have := List.sizeOf_lt_of_mem hm
    simp only [object.sizeOf_spec, Prod.mk.sizeOf_spec] at *
    omega

/-- What holds of a value whenever it holds of the values it consists of holds of all values. -/
@[elab_as_elim]
theorem induct {P : Json → Prop} (step : ∀ j, (∀ c ∈ j.children, P c) → P j) (j : Json) : P j :=
  step j fun c h =>
    have := sizeOf_lt_of_mem_children h
    induct step c
termination_by sizeOf j

mutual

/-- The numbers in a value, left to right. -/
def numbers : Json → List Number
  | .number n => [n]
  | .array items => numbersOfItems items
  | .object members => numbersOfMembers members
  | .null | .bool _ | .string _ => []

def numbersOfItems : List Json → List Number
  | [] => []
  | item :: rest => item.numbers ++ numbersOfItems rest

def numbersOfMembers : List (String × Json) → List Number
  | [] => []
  | (_, value) :: rest => value.numbers ++ numbersOfMembers rest

end

theorem numbersOfItems_eq (items : List Json) : numbersOfItems items = items.flatMap numbers := by
  induction items with
  | nil => rfl
  | cons item rest ih => rw [numbersOfItems, ih, List.flatMap_cons]

theorem numbersOfMembers_eq (members : List (String × Json)) :
    numbersOfMembers members = members.flatMap fun m => m.2.numbers := by
  induction members with
  | nil => rfl
  | cons m rest ih => rw [numbersOfMembers, ih, List.flatMap_cons]

theorem forall_numbers_array {P : Number → Prop} {items : List Json} :
    (∀ n ∈ (array items).numbers, P n) ↔ ∀ item ∈ items, ∀ n ∈ item.numbers, P n := by
  simp only [numbers, numbersOfItems_eq, List.mem_flatMap, forall_exists_index, and_imp]
  exact ⟨fun h item hi n hn => h n item hi hn, fun h n item hi hn => h item hi n hn⟩

theorem forall_numbers_object {P : Number → Prop} {members : List (String × Json)} :
    (∀ n ∈ (object members).numbers, P n) ↔ ∀ m ∈ members, ∀ n ∈ m.2.numbers, P n := by
  simp only [numbers, numbersOfMembers_eq, List.mem_flatMap, forall_exists_index, and_imp]
  exact ⟨fun h m hm n hn => h n m hm hn, fun h n m hm hn => h m hm n hn⟩

/-- Every number in the value reads back from its text. -/
def Rereads (j : Json) : Prop := ∀ n ∈ j.numbers, n.Rereads

/-- Text that may follow a value inside another one. -/
def EndsValue (rest : List Char) : Prop := ∀ c ∈ rest.head?, c = ',' ∨ c = ']' ∨ c = '\x7d'

theorem EndsValue.endsNumber {rest : List Char} (h : EndsValue rest) : EndsNumber rest := by
  intro c hc
  rcases h c hc with rfl | rfl | rfl <;> decide

theorem endsValue_nil : EndsValue [] := by simp [EndsValue]

theorem skipSpace_cons {c : Char} (h : isSpace c = false) (cs : List Char) :
    skipSpace (c :: cs) = c :: cs := by
  simp [skipSpace, h]

/-- A character that a value may start with: neither white space nor the end of an array. -/
def StartsValue (c : Char) : Prop := isSpace c = false ∧ c ≠ ']'

theorem exists_head_of_readNumber {cs rest : List Char} {n : Number}
    (h : readNumber cs = some (n, rest)) :
    ∃ c cs', cs = c :: cs' ∧ (c.isDigit = true ∨ c = '-') := by
  obtain ⟨m, hm, -⟩ := Option.bind_eq_some_iff.mp h
  cases cs with
  | nil => simp [readNumeral] at hm
  | cons c cs =>
    refine ⟨c, cs, rfl, ?_⟩
    by_cases hminus : c = '-'
    · exact .inr hminus
    · rw [readNumeral_digits hminus] at hm
      cases hd : c.isDigit with
      | true => exact .inl rfl
      | false => simp [numeralOf, hd] at hm

theorem startsValue_of_number {c : Char} (h : c.isDigit = true ∨ c = '-') : StartsValue c := by
  rcases h with h | rfl
  · refine ⟨?_, ?_⟩
    · cases hs : isSpace c with
      | false => rfl
      | true =>
        simp only [isSpace, Bool.or_eq_true, decide_eq_true_eq] at hs
        rcases hs with ((rfl | rfl) | rfl) | rfl <;> exact absurd h (by decide)
    · rintro rfl
      exact absurd h (by decide)
  · exact ⟨by decide, by decide⟩

section Steps

variable {fuel limit : Nat} {c : Char} {cs rest : List Char}

theorem readValue_number (h : c.isDigit = true ∨ c = '-') :
    readValue (fuel + 1) limit (c :: cs) =
      (readNumber (c :: cs)).map fun (n, rest) => (.number n, rest) := by
  rw [readValue, skipSpace_cons (startsValue_of_number h).1]
  split
  -- no other kind of value starts with a digit or a minus
  all_goals
    first
    | rfl
    | next heq =>
      obtain ⟨rfl, -⟩ := List.cons.inj heq
      rcases h with h | h <;> exact absurd h (by decide)

theorem readValue_items (h : StartsValue c) : readValue (fuel + 1) (limit + 1) ('[' :: c :: cs) =
    (readItems fuel limit (c :: cs)).map fun (items, rest) => (.array items, rest) := by
  rw [readValue, skipSpace_cons (by decide)]
  simp only [skipSpace_cons h.1]
  split
  · next heq => exact absurd (List.cons.inj heq).1 h.2
  · rfl

theorem readValue_members (h : isSpace c = false) (hc : c ≠ '\x7d') :
    readValue (fuel + 1) (limit + 1) ('\x7b' :: c :: cs) =
      (readMembers fuel limit (c :: cs)).map fun (members, rest) => (.object members, rest) := by
  rw [readValue, skipSpace_cons (by decide)]
  simp only [skipSpace_cons h]
  split
  · next heq => exact absurd (List.cons.inj heq).1 hc
  · rfl

theorem readItems_none (h : readValue fuel limit cs = none) :
    readItems (fuel + 1) limit cs = none := by
  rw [readItems, h]

theorem readItems_last {item : Json} (h : readValue fuel limit cs = some (item, ']' :: rest)) :
    readItems (fuel + 1) limit cs = some ([item], rest) := by
  rw [readItems, h]
  rfl

theorem readItems_more {item : Json} (h : readValue fuel limit cs = some (item, ',' :: rest)) :
    readItems (fuel + 1) limit cs =
      (readItems fuel limit rest).map fun (items, rest) => (item :: items, rest) := by
  rw [readItems, h]
  rfl

/-- The members of an object from the value of the first one on. -/
def membersFrom (fuel limit : Nat) (key : String) (cs : List Char) :
    Option (List (String × Json) × List Char) :=
  match readValue fuel limit cs with
  | none => none
  | some (value, rest) =>
    match skipSpace rest with
    | '\x7d' :: rest => some ([(key, value)], rest)
    | ',' :: rest =>
      (readMembers fuel limit rest).map fun (members, rest) => ((key, value) :: members, rest)
    | _ => none

theorem readMembers_stringText (key : String) (cs : List Char) :
    readMembers (fuel + 1) limit ((stringText key).toList ++ ':' :: cs) =
      membersFrom fuel limit key cs := by
  obtain ⟨body, htext, hread⟩ := readString_stringText key (':' :: cs)
  rw [htext, readMembers, skipSpace_cons (by decide)]
  simp only [hread]
  rfl

theorem membersFrom_none {key : String} (h : readValue fuel limit cs = none) :
    membersFrom fuel limit key cs = none := by
  rw [membersFrom, h]

theorem membersFrom_last {key : String} {value : Json}
    (h : readValue fuel limit cs = some (value, '\x7d' :: rest)) :
    membersFrom fuel limit key cs = some ([(key, value)], rest) := by
  rw [membersFrom, h]
  rfl

theorem membersFrom_more {key : String} {value : Json}
    (h : readValue fuel limit cs = some (value, ',' :: rest)) :
    membersFrom fuel limit key cs =
      (readMembers fuel limit rest).map fun (members, rest) => ((key, value) :: members, rest) := by
  rw [membersFrom, h]
  rfl

end Steps

theorem exists_head {j : Json} (h : j.Rereads) :
    ∃ c cs, j.text.toList = c :: cs ∧ StartsValue c := by
  cases j with
  | null => exact ⟨_, _, rfl, by decide, by decide⟩
  | bool b => cases b <;> exact ⟨_, _, rfl, by decide, by decide⟩
  | number n =>
    obtain ⟨c, cs, hc, hn⟩ := exists_head_of_readNumber (h n (by simp [numbers]))
    exact ⟨c, cs, hc, startsValue_of_number hn⟩
  | string s => exact ⟨_, _, by rw [text, stringText_toList], by decide, by decide⟩
  | array items =>
    exact ⟨'[', (itemsText items ++ "]").toList, by simp [text], by decide, by decide⟩
  | object members =>
    exact ⟨'\x7b', (membersText members ++ "\x7d").toList, by simp [text], by decide, by decide⟩

theorem exists_head_items {items : List Json} (hne : items ≠ [])
    (h : ∀ item ∈ items, item.Rereads) :
    ∃ c cs, (itemsText items).toList = c :: cs ∧ StartsValue c := by
  match items with
  | [item] => exact exists_head (h item (by simp))
  | item :: other :: more =>
    obtain ⟨c, cs, hc, hs⟩ := exists_head (h item (by simp))
    exact ⟨c, _, by simp [itemsText, hc]; rfl, hs⟩

theorem exists_quote_members {members : List (String × Json)} (hne : members ≠ []) :
    ∃ cs, (membersText members).toList = '"' :: cs := by
  match members with
  | [(key, value)] => exact ⟨_, by simp [membersText, stringText_toList]; rfl⟩
  | (key, value) :: other :: more => exact ⟨_, by simp [membersText, stringText_toList]; rfl⟩

/-- A value reads back from its text inside another one, up to the limit on how deeply it is
nested. -/
def ReadsBack (j : Json) : Prop :=
  ∀ fuel limit rest, EndsValue rest → j.text.toList.length ≤ fuel →
    readValue fuel limit (j.text.toList ++ rest) =
      if j.depth ≤ limit then some (j, rest) else none

/-- Items read back if each of them does. -/
theorem readItems_text {items : List Json} (hne : items ≠ []) (h : ∀ item ∈ items, item.ReadsBack)
    (fuel limit : Nat) (rest : List Char) (hf : (itemsText items).toList.length + 1 ≤ fuel) :
    readItems fuel limit ((itemsText items).toList ++ ']' :: rest) =
      if depthOfItems items ≤ limit then some (items, rest) else none := by
  induction items generalizing fuel with
  | nil => exact absurd rfl hne
  | cons item more ih =>
    obtain ⟨hitem, hmore⟩ := List.forall_mem_cons.mp h
    obtain ⟨fuel, rfl⟩ : ∃ f, fuel = f + 1 := ⟨fuel - 1, by omega⟩
    cases more with
    | nil =>
      have hread := hitem fuel limit (']' :: rest) (by simp [EndsValue])
        (by simpa [itemsText] using hf)
      rw [itemsText]
      split at hread
      · next hd => rw [readItems_last hread, if_pos (by simpa [depthOfItems] using hd)]
      · next hd => rw [readItems_none hread, if_neg (by simpa [depthOfItems] using hd)]
    | cons other more =>
      have hlen : item.text.toList.length ≤ fuel ∧
          (itemsText (other :: more)).toList.length + 1 ≤ fuel := by
        simp [itemsText] at hf ⊢
        omega
      have hread := hitem fuel limit
        (',' :: ((itemsText (other :: more)).toList ++ ']' :: rest)) (by simp [EndsValue]) hlen.1
      have htext : (itemsText (item :: other :: more)).toList ++ ']' :: rest =
          item.text.toList ++ ',' :: ((itemsText (other :: more)).toList ++ ']' :: rest) := by
        simp [itemsText]
      rw [htext, depthOfItems]
      split at hread
      · next hd =>
        rw [readItems_more hread, ih (by simp) hmore fuel hlen.2]
        simp only [Nat.max_le, hd, true_and]
        split <;> rfl
      · next hd => rw [readItems_none hread, if_neg fun hm => hd (Nat.max_le.mp hm).1]

/-- Members read back if the value of each of them does. -/
theorem readMembers_text {members : List (String × Json)} (hne : members ≠ [])
    (h : ∀ m ∈ members, m.2.ReadsBack) (fuel limit : Nat) (rest : List Char)
    (hf : (membersText members).toList.length + 1 ≤ fuel) :
    readMembers fuel limit ((membersText members).toList ++ '\x7d' :: rest) =
      if depthOfMembers members ≤ limit then some (members, rest) else none := by
  induction members generalizing fuel with
  | nil => exact absurd rfl hne
  | cons m more ih =>
    obtain ⟨key, value⟩ := m
    obtain ⟨hvalue, hmore⟩ := List.forall_mem_cons.mp h
    obtain ⟨fuel, rfl⟩ : ∃ f, fuel = f + 1 := ⟨fuel - 1, by omega⟩
    cases more with
    | nil =>
      have hlen : value.text.toList.length ≤ fuel := by
        simp [membersText, stringText_toList] at hf
        omega
      have hread := hvalue fuel limit ('\x7d' :: rest) (by simp [EndsValue]) hlen
      have htext : (membersText [(key, value)]).toList ++ '\x7d' :: rest =
          (stringText key).toList ++ ':' :: (value.text.toList ++ '\x7d' :: rest) := by
        simp [membersText]
      rw [htext, readMembers_stringText]
      split at hread
      · next hd => rw [membersFrom_last hread, if_pos (by simpa [depthOfMembers] using hd)]
      · next hd => rw [membersFrom_none hread, if_neg (by simpa [depthOfMembers] using hd)]
    | cons other more =>
      have hlen : value.text.toList.length ≤ fuel ∧
          (membersText (other :: more)).toList.length + 1 ≤ fuel := by
        simp [membersText, stringText_toList] at hf ⊢
        omega
      have hread := hvalue fuel limit
        (',' :: ((membersText (other :: more)).toList ++ '\x7d' :: rest)) (by simp [EndsValue])
        hlen.1
      have htext : (membersText ((key, value) :: other :: more)).toList ++ '\x7d' :: rest =
          (stringText key).toList ++ ':' :: (value.text.toList ++
            ',' :: ((membersText (other :: more)).toList ++ '\x7d' :: rest)) := by
        simp [membersText]
      rw [htext, readMembers_stringText, depthOfMembers]
      split at hread
      · next hd =>
        rw [membersFrom_more hread, ih (by simp) hmore fuel hlen.2]
        simp only [Nat.max_le, hd, true_and]
        split <;> rfl
      · next hd => rw [membersFrom_none hread, if_neg fun hm => hd (Nat.max_le.mp hm).1]

theorem ReadsBack.array {items : List Json} (hn : ∀ item ∈ items, item.Rereads)
    (h : ∀ item ∈ items, item.ReadsBack) : (array items).ReadsBack := by
  intro fuel limit rest _ hf
  have htext : (Json.array items).text.toList ++ rest =
      '[' :: ((itemsText items).toList ++ ']' :: rest) := by simp [text]
  have hlen : (itemsText items).toList.length + 2 ≤ fuel := by simp [text] at hf; omega
  obtain ⟨fuel, rfl⟩ : ∃ f, fuel = f + 1 := ⟨fuel - 1, by omega⟩
  rw [htext]
  cases limit with
  -- an array is a level of its own, even if nothing is in it
  | zero => simp [readValue, skipSpace_cons (show isSpace '[' = false by decide), depth]
  | succ limit =>
    by_cases hne : items = []
    · subst hne
      rfl
    · obtain ⟨c, cs, hc, hs⟩ := exists_head_items hne hn
      have hitems := readItems_text hne h fuel limit rest (by omega)
      rw [hc, List.cons_append] at hitems ⊢
      rw [readValue_items hs, hitems, depth]
      split <;> simp_all

theorem ReadsBack.object {members : List (String × Json)} (h : ∀ m ∈ members, m.2.ReadsBack) :
    (object members).ReadsBack := by
  intro fuel limit rest _ hf
  have htext : (Json.object members).text.toList ++ rest =
      '\x7b' :: ((membersText members).toList ++ '\x7d' :: rest) := by simp [text]
  have hlen : (membersText members).toList.length + 2 ≤ fuel := by simp [text] at hf; omega
  obtain ⟨fuel, rfl⟩ : ∃ f, fuel = f + 1 := ⟨fuel - 1, by omega⟩
  rw [htext]
  cases limit with
  | zero => simp [readValue, skipSpace_cons (show isSpace '\x7b' = false by decide), depth]
  | succ limit =>
    by_cases hne : members = []
    · subst hne
      rfl
    · obtain ⟨cs, hc⟩ := exists_quote_members hne
      have hmembers := readMembers_text hne h fuel limit rest (by omega)
      rw [hc, List.cons_append] at hmembers ⊢
      rw [readValue_members (by decide) (by decide), hmembers, depth]
      split <;> simp_all

theorem readsBack_number {n : Number} (h : n.Rereads) : (number n).ReadsBack := by
  intro fuel limit rest hr hf
  have hn : readNumber (n.text.toList ++ rest) = some (n, rest) :=
    hr.endsNumber.readNumber_append h
  obtain ⟨c, cs, hc, hd⟩ := exists_head_of_readNumber h
  obtain ⟨fuel, rfl⟩ : ∃ f, fuel = f + 1 := ⟨fuel - 1, by simp [text, hc] at hf; omega⟩
  rw [text, hc, List.cons_append, readValue_number hd, ← List.cons_append, ← hc, hn]
  simp [depth]

theorem readsBack_string (s : String) : (string s).ReadsBack := by
  intro fuel limit rest _ hf
  obtain ⟨cs, htext, hread⟩ := readString_stringText s rest
  obtain ⟨fuel, rfl⟩ : ∃ f, fuel = f + 1 :=
    ⟨fuel - 1, by simp [text, stringText_toList] at hf; omega⟩
  rw [text, htext, readValue, skipSpace_cons (by decide)]
  simp [hread, depth]

/-- A value whose numbers read back reads back. -/
theorem Rereads.readsBack {j : Json} (h : j.Rereads) : j.ReadsBack := by
  induction j using induct with
  | step j ih =>
    cases j with
    | null =>
      intro fuel limit rest _ hf
      obtain ⟨fuel, rfl⟩ : ∃ f, fuel = f + 1 := ⟨fuel - 1, by simp [text] at hf; omega⟩
      rfl
    | bool b =>
      intro fuel limit rest _ hf
      obtain ⟨fuel, rfl⟩ : ∃ f, fuel = f + 1 :=
        ⟨fuel - 1, by cases b <;> simp [text] at hf <;> omega⟩
      cases b <;> rfl
    | number n => exact readsBack_number (h n (by simp [numbers]))
    | string s => exact readsBack_string s
    | array items =>
      have hn := forall_numbers_array.mp h
      exact .array hn fun item hi => ih item hi (hn item hi)
    | object members =>
      have hn := forall_numbers_object.mp h
      exact .object fun m hm => ih m.2 (List.mem_map_of_mem hm) (hn m hm)

/-- A text that is the compact text of a value is read as this value, up to the limit. -/
theorem ofText?_text {j : Json} (h : j.Rereads) (limit : Nat) :
    ofText? limit j.text = if j.depth ≤ limit then some j else none := by
  have hread := h.readsBack (2 * j.text.toList.length + 2) limit [] endsValue_nil (by omega)
  rw [List.append_nil] at hread
  rw [ofText?, read, hread]
  by_cases hd : j.depth ≤ limit <;> simp [hd, skipSpace]

/-- Every whole number in the value has 64 bits. -/
def InRange (j : Json) : Prop := ∀ n ∈ j.numbers, n.InRange

@[simp] theorem inRange_null : InRange .null := by simp [InRange, numbers]

@[simp] theorem inRange_bool (b : Bool) : (bool b).InRange := by simp [InRange, numbers]

@[simp] theorem inRange_string (s : String) : (string s).InRange := by simp [InRange, numbers]

@[simp] theorem inRange_number {n : Number} : (number n).InRange ↔ n.InRange := by
  simp [InRange, numbers]

@[simp] theorem inRange_array {items : List Json} :
    (array items).InRange ↔ ∀ item ∈ items, item.InRange :=
  forall_numbers_array

@[simp] theorem inRange_object {members : List (String × Json)} :
    (object members).InRange ↔ ∀ m ∈ members, m.2.InRange :=
  forall_numbers_object

/-- What is read from text with this much fuel is in range. -/
structure ReadsInRange (fuel : Nat) : Prop where
  value : ∀ {limit cs j rest}, readValue fuel limit cs = some (j, rest) → j.InRange
  items : ∀ {limit cs items rest}, readItems fuel limit cs = some (items, rest) →
    (array items).InRange
  members : ∀ {limit cs members rest}, readMembers fuel limit cs = some (members, rest) →
    (object members).InRange

section ReadsInRange

variable {fuel limit : Nat} {cs rest : List Char}

theorem inRange_of_readValue (ih : ReadsInRange fuel) {j : Json}
    (h : readValue (fuel + 1) limit cs = some (j, rest)) : j.InRange := by
  unfold readValue at h
  split at h
  · obtain ⟨rfl, -⟩ := Prod.mk.inj (Option.some.inj h)
    exact inRange_null
  · obtain ⟨rfl, -⟩ := Prod.mk.inj (Option.some.inj h)
    exact inRange_bool true
  · obtain ⟨rfl, -⟩ := Prod.mk.inj (Option.some.inj h)
    exact inRange_bool false
  · obtain ⟨⟨s, rest'⟩, -, h⟩ := Option.map_eq_some_iff.mp h
    obtain ⟨rfl, -⟩ := Prod.mk.inj h
    exact inRange_string s
  · split at h
    · simp at h
    · split at h
      · obtain ⟨rfl, -⟩ := Prod.mk.inj (Option.some.inj h)
        simp
      · obtain ⟨⟨items, rest'⟩, hi, h⟩ := Option.map_eq_some_iff.mp h
        obtain ⟨rfl, -⟩ := Prod.mk.inj h
        exact ih.items hi
  · split at h
    · simp at h
    · split at h
      · obtain ⟨rfl, -⟩ := Prod.mk.inj (Option.some.inj h)
        simp
      · obtain ⟨⟨members, rest'⟩, hm, h⟩ := Option.map_eq_some_iff.mp h
        obtain ⟨rfl, -⟩ := Prod.mk.inj h
        exact ih.members hm
  · obtain ⟨⟨n, rest'⟩, hn, h⟩ := Option.map_eq_some_iff.mp h
    obtain ⟨rfl, -⟩ := Prod.mk.inj h
    exact inRange_number.mpr (inRange_of_readNumber hn)

theorem inRange_of_readItems (ih : ReadsInRange fuel) {items : List Json}
    (h : readItems (fuel + 1) limit cs = some (items, rest)) : (array items).InRange := by
  unfold readItems at h
  split at h
  · simp at h
  · next item rest' hitem =>
    have hv := ih.value hitem
    split at h
    · obtain ⟨rfl, -⟩ := Prod.mk.inj (Option.some.inj h)
      simpa using hv
    · obtain ⟨⟨more, rest'⟩, hi, h⟩ := Option.map_eq_some_iff.mp h
      obtain ⟨rfl, -⟩ := Prod.mk.inj h
      exact inRange_array.mpr (List.forall_mem_cons.mpr ⟨hv, inRange_array.mp (ih.items hi)⟩)
    · simp at h

theorem inRange_of_readMembers (ih : ReadsInRange fuel) {members : List (String × Json)}
    (h : readMembers (fuel + 1) limit cs = some (members, rest)) : (object members).InRange := by
  unfold readMembers at h
  split at h
  · split at h
    · simp at h
    · split at h
      · split at h
        · simp at h
        · next value rest' hvalue =>
          have hv := ih.value hvalue
          split at h
          · obtain ⟨rfl, -⟩ := Prod.mk.inj (Option.some.inj h)
            simpa using hv
          · obtain ⟨⟨more, rest'⟩, hm, h⟩ := Option.map_eq_some_iff.mp h
            obtain ⟨rfl, -⟩ := Prod.mk.inj h
            have hmore := inRange_object.mp (ih.members hm)
            exact inRange_object.mpr (List.forall_mem_cons.mpr ⟨hv, hmore⟩)
          · simp at h
      · simp at h
  · simp at h

end ReadsInRange

theorem readsInRange (fuel : Nat) : ReadsInRange fuel := by
  induction fuel with
  | zero => constructor <;> simp [readValue, readItems, readMembers]
  | succ fuel ih =>
    exact ⟨inRange_of_readValue ih, inRange_of_readItems ih, inRange_of_readMembers ih⟩

theorem inRange_of_ofText? {limit : Nat} {text : String} {j : Json}
    (h : ofText? limit text = some j) : j.InRange := by
  unfold ofText? at h
  split at h
  · next value rest hread =>
    split at h
    · obtain rfl := Option.some.inj h
      exact (readsInRange _).value hread
    · simp at h
  · simp at h

end PlanSql.Json
