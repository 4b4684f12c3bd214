import PlanSql.Proofs.Fragment.Everywhere
import PlanSql.Proofs.Sql.Wording

/-!
# The words that statements get

Where words come from when a relation becomes a statement: names of types, constants, and the rules
that come with the library. All of them are such as statements are made of.
-/
namespace PlanSql

open Sql

namespace Dialect

theorem isPlainText_columnTypeName {d : Dialect} {type : DataType} {name : String}
    (h : d.columnTypeName? type = some name) : isPlainText name = true := by
  cases type with
  | decimal p s =>
    obtain rfl : _ = name := Option.some.inj h
    have hk : isPlainText d.decimalKeyword = true := by cases d <;> decide
    have hp := isPlainText_nat p
    have hs := isPlainText_nat s
    simp only [isPlainText, String.toList_append, List.all_append, Bool.and_eq_true] at *
    exact ⟨⟨⟨⟨⟨hk, by decide⟩, hp⟩, by decide⟩, hs⟩, by decide⟩
  | _ =>
    cases d <;> simp only [columnTypeName?, Option.some.injEq, reduceCtorEq] at h <;>
      subst h <;> decide

theorem isPlainText_castTypeName {d : Dialect} {type : DataType} {name : String}
    (h : d.castTypeName? type = some name) : isPlainText name = true := by
  unfold castTypeName? at h
  split at h
  · obtain rfl : _ = name := Option.some.inj h
    decide
  · split at h
    · obtain rfl : _ = name := Option.some.inj h
      decide
    · exact isPlainText_columnTypeName h

/-- The types other than decimal numbers. -/
def simpleTypes : List DataType :=
  [.null, .bool, .int8, .int16, .int32, .int64, .float32, .float64, .string, .binary, .date, .time,
    .timestamp, .interval]

theorem isBalanced_simple : ∀ d ∈ Dialect.all, ∀ type ∈ simpleTypes,
    ∀ name ∈ d.castTypeName? type,
      Grammar.isBalanced 0 (d.descriptor.tokens (.word name)) = true := by
  decide +kernel

/-- The tokens of a decimal type: its keyword and two numbers between parentheses. -/
theorem isBalanced_decimal (d : Descriptor) {keyword : String} (hk : isWordText keyword = true)
    (p s : Nat) : Grammar.isBalanced 0 (d.tokens
      (.word (keyword ++ "(" ++ toString p ++ ", " ++ toString s ++ ")"))) = true := by
  have hp := d.spells_word _ (isBareText_of_isPlainText (isPlainText_nat p))
  have hs := d.spells_word _ (isBareText_of_isPlainText (isPlainText_nat s))
  have hw := d.spells_word _ (isBareText_of_isPlainText (isPlainText_of_isWordText hk))
  have hends := hs.concat (g := .symbol ")") rfl
  have hall := hw.glue (g := .symbol "(") rfl
    (hp.glue (g := .symbol ",") rfl (hends.cons (g := .space) rfl))
  have htext : d.text [.word keyword, .symbol "(", .word (toString p), .symbol ",", .space,
      .word (toString s), .symbol ")"] =
      keyword ++ "(" ++ toString p ++ ", " ++ toString s ++ ")" := by
    rw [← String.toList_inj, Descriptor.toList_text]
    simp [Descriptor.pieceText]
  have hnumber : ∀ n : Nat, d.tokens (.word (toString n)) = [.number (toString n)] := by
    intro n
    rw [Nat.toString_eq_ofList_toDigits]
    exact tokens_signed d false (isNumeral_nat n)
  have hlexes := hall.lexes
  simp only [List.cons_append, List.nil_append, htext] at hlexes
  rw [Descriptor.tokens_word hlexes]
  simp only [List.flatMap_cons, Descriptor.tokens_word (Descriptor.lexes_wordText hk), hnumber]
  rfl

theorem isBalanced_castTypeName {d : Dialect} {type : DataType} {name : String}
    (h : d.castTypeName? type = some name) :
    Grammar.isBalanced 0 (d.descriptor.tokens (.word name)) = true := by
  cases type with
  | decimal p s =>
    have hk : isWordText d.decimalKeyword = true := by cases d <;> decide
    have hn : d.decimalKeyword ++ "(" ++ toString p ++ ", " ++ toString s ++ ")" = name := by
      simpa [castTypeName?, DataType.isInteger, columnTypeName?] using h
    rw [← hn]
    exact isBalanced_decimal d.descriptor hk p s
  | _ => exact isBalanced_simple d d.mem_all _ (by decide) name h

end Dialect

namespace Template

/-- The words of the root of a template are such as statements are made of. -/
def isWorded (d : Descriptor) : Template → Bool
  | .call name _ => isWordText name && !Grammar.reserved.contains name
  | .extract field _ => isWordText field
  | .cast _ typeName =>
    isPlainText typeName && Grammar.isBalanced 0 (d.tokens (.word typeName))
  | .number text => isNumeral text.toList
  | _ => true

theorem Heads.isWorded {d : Descriptor} {T : Template} {p : Sql.Expr} (h : T.Heads p)
    (hT : T.isWorded d = true) : p.isWorded d = true := by
  cases T with
  | arg | args => exact h.elim
  | call name items =>
    obtain ⟨as, rfl⟩ := h
    exact hT
  | extract field operand | cast operand field =>
    obtain ⟨a, rfl⟩ := h
    exact hT
  | binary op left right =>
    obtain ⟨l, r, rfl⟩ := h
    rfl
  | int value | string value =>
    obtain rfl := h
    rfl
  | number text =>
    obtain rfl := h
    exact hT

end Template

/-- The words that a rule writes are words. -/
def Rule.isWorded (d : Descriptor) : Rule → Bool
  | .template T => T.parts.all (Template.isWorded d)
  | .unsupported _ => true

namespace RuleTable

theorem isWorded_builtin : ∀ d ∈ Dialect.all, ∀ entry ∈ RuleSet.builtin d,
    ∀ T, entry.2 = .template T → ∀ T' ∈ T.parts, T'.isWorded d.descriptor = true := by
  have h : ∀ d ∈ Dialect.all, ∀ entry ∈ RuleSet.builtin d,
      entry.2.isWorded d.descriptor = true := by
    decide +kernel
  intro d hd entry he T hT T' hT'
  have := h d hd entry he
  rw [hT] at this
  exact List.all_eq_true.mp this T' hT'

/-- A rule of the library is one of the rules of its dialect. -/
theorem mem_of_resolve {function : String} {d : Dialect} {rule : Rule}
    (h : builtin.resolve function d = .ok rule) : (function, rule) ∈ RuleSet.builtin d := by
  unfold resolve at h
  split at h
  · simp at h
  · next rules hr =>
    obtain ⟨before, after, hb, -⟩ := List.lookup_eq_some_iff.mp hr
    have hm : (d, rules) ∈ builtin := by simp [hb]
    obtain ⟨d', -, hd⟩ := List.mem_map.mp hm
    obtain ⟨rfl, rfl⟩ := Prod.mk.inj hd
    split at h
    · simp at h
    · next rule' hf =>
      obtain rfl : rule' = rule := by simpa using h
      obtain ⟨before, after, hb, -⟩ := List.lookup_eq_some_iff.mp hf
      simp [hb]

end RuleTable

/-- The rules of the library bring in no words but such as statements are made of. -/
theorem Target.permits_isWorded (d : Dialect) :
    (Target.builtin d).Permits fun p => p.isWorded d.descriptor = true := by
  have heads : ∀ {function : String} {T : Template},
      (Target.builtin d).rules.resolve function (Target.builtin d).dialect = .ok (.template T) →
      ∀ T' ∈ T.parts, ∀ p, T'.Heads p → p.isWorded d.descriptor = true := fun hr T' hT' p hp =>
    hp.isWorded (RuleTable.isWorded_builtin d d.mem_all _ (RuleTable.mem_of_resolve hr) _ rfl T' hT')
  refine ⟨fun _ _ => rfl, fun scope e => ⟨fun {q v s} hc => ?_, rfl, rfl, ?_, rfl, rfl,
    fun hc => ?_, rfl, ?_, ?_⟩⟩
  · obtain rfl := Target.constant_eq_ok hc
    cases v with
    | float x =>
      by_cases hf : x.isFinite = true
      · exact hf
      · simp [Target.constant, Target.refuse, hf] at hc
    | _ => rfl
  · exact fun _ hc hargs => Target.forall_parts_call hc (fun T hr => heads hr) hargs
  · have hname := Target.castType_eq_ok hc
    have hplain := Dialect.isPlainText_castTypeName hname
    have hbalanced := Dialect.isBalanced_castTypeName hname
    exact Bool.and_eq_true_iff.mpr ⟨hplain, hbalanced⟩
  · exact fun _ _ hs hx => Target.forall_parts_aggregate hs (fun T hr => heads hr) rfl rfl
      (fun _ => rfl) (fun _ _ _ _ _ hn => hn) hx
  · intro f args partitionBy orderBy as call w s _ _ hcall hs hx
    refine Target.forall_parts_attach hcall hs (fun T hr => heads hr) rfl (fun hn => ?_) hx
    obtain ⟨name, args, distinct, filter, window, rfl, rfl⟩ := Target.attach_eq_ok hs
    exact hn

/-- The text of a statement that a relation becomes has the tokens of its pieces. -/
theorem Relation.spells_toSelect {r : Relation} (hc : r.Coherent) {d : Dialect} {s : Select}
    (hs : r.toSelect (Target.builtin d) = .ok s) :
    d.descriptor.Spells (Select.pieces d.descriptor s) :=
  Select.spells_pieces (forall_parts_toSelect (Target.permits_isWorded d) hc hs)

end PlanSql
