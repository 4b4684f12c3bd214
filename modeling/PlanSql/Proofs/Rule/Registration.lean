import PlanSql.Proofs.Checking
import PlanSql.Rule.Expansion

/-!
# Rule sets that are registered

A set is registered if it covers the required functions: there is a rule for each of them, and no
template reads an argument that a call may lack. Every set in a table has been registered or comes
with the library, and to offer a set for one dialect never changes what another dialect resolves.

That a template reads no missing argument does not make it expand. The placeholder for all arguments
is no argument position, so no check looks at it, and it expands as an item of a call only. A
template of a registered set expands exactly if the placeholder stands nowhere else.
-/
namespace PlanSql

namespace Template

mutual

/-- The placeholder for all arguments stands nowhere but among the items of calls. -/
def spreadsInCalls : Template → Bool
  | .args => false
  | .arg _ | .int _ | .number _ | .string _ => true
  | .call _ items => itemsSpreadInCalls items
  | .extract _ operand => operand.spreadsInCalls
  | .cast operand _ => operand.spreadsInCalls
  | .binary _ left right => left.spreadsInCalls && right.spreadsInCalls

def itemsSpreadInCalls : List Template → Bool
  | [] => true
  | .args :: rest => itemsSpreadInCalls rest
  | item :: rest => item.spreadsInCalls && itemsSpreadInCalls rest

end

/-- Two templates together read no further than each of them does. -/
theorem forall_later {a b : Option Nat} {n : Nat} :
    (∀ i ∈ later a b, i < n) ↔ (∀ i ∈ a, i < n) ∧ ∀ i ∈ b, i < n := by
  cases a with
  | none => cases b <;> simp [later]
  | some i =>
    cases b with
    | none => simp [later]
    | some j =>
      simp only [later, Option.mem_def, Option.some.injEq, forall_eq']
      exact Nat.max_lt

section Expansion

variable (args : List Sql.Expr)

mutual

/-- With the arguments that it reads a template expands, unless the placeholder for all arguments
stands outside of a call; then it fails for that. -/
theorem settles_expand : ∀ {T : Template}, (∀ i ∈ T.maxArg, i < args.length) →
    Settles (T.expand args) (fun _ => T.spreadsInCalls = true) fun limit =>
      limit = .argumentsOutsideCall ∧ T.spreadsInCalls = false
  | .arg index, h => by
    have hi : index < args.length := h index rfl
    simp [expand, hi, spreadsInCalls]
  | .args, _ => ⟨rfl, rfl⟩
  | .int _, _ | .number _, _ | .string _, _ => rfl
  | .call name items, h => (settles_expandItems h).bind fun _ _ hs => hs
  | .extract field operand, h => (settles_expand (T := operand) h).bind fun _ _ hs => hs
  | .cast operand typeName, h => (settles_expand (T := operand) h).bind fun _ _ hs => hs
  | .binary op left right, h => by
    obtain ⟨hl, hr⟩ := forall_later.mp h
    refine ((settles_expand hl).mono (fun _ _ hs => hs) ?_).bind fun l _ hl =>
      ((settles_expand hr).mono (fun _ _ hs => hs) ?_).bind fun r _ hr => ?_
    · exact fun _ he => ⟨he.1, by simp [spreadsInCalls, he.2]⟩
    · exact fun _ he => ⟨he.1, by simp [spreadsInCalls, he.2]⟩
    · simp [spreadsInCalls, hl, hr]

theorem settles_expandItems : ∀ {items : List Template},
    (∀ i ∈ maxArgOf items, i < args.length) →
    Settles (expandItems args items) (fun _ => itemsSpreadInCalls items = true) fun limit =>
      limit = .argumentsOutsideCall ∧ itemsSpreadInCalls items = false
  | [], _ => rfl
  | .args :: rest, h =>
    have hr : ∀ i ∈ maxArgOf rest, i < args.length := (forall_later.mp h).2
    (settles_expandItems hr).bind fun _ _ hs => hs
  | .arg _ :: rest, h | .call _ _ :: rest, h | .extract _ _ :: rest, h | .cast _ _ :: rest, h
  | .binary _ _ _ :: rest, h | .int _ :: rest, h | .number _ :: rest, h
  | .string _ :: rest, h => by
    obtain ⟨hi, hr⟩ := forall_later.mp h
    rw [expandItems]
    · refine ((settles_expand hi).mono (fun _ _ hs => hs) ?_).bind fun item _ hi =>
        ((settles_expandItems hr).mono (fun _ _ hs => hs) ?_).bind fun items _ hr => ?_
      · exact fun _ he => ⟨he.1, by simp [itemsSpreadInCalls, he.2]⟩
      · exact fun _ he => ⟨he.1, by simp [itemsSpreadInCalls, he.2]⟩
      · simp [itemsSpreadInCalls, hi, hr]
    · simp

end

end Expansion

end Template

namespace RuleSet

/-- Every required function has a rule, and no template of them reads an argument that a call may
lack. -/
structure Covers (rules : RuleSet) : Prop where
  complete : ∀ name ∈ requiredFunctions, ∃ rule, rules.get? name = some rule
  supplied : ∀ name ∈ requiredFunctions, ∀ T, rules.get? name = some (.template T) →
    ∀ i ∈ T.maxArg, i < minArity name

theorem argumentOutOfRange?_eq_none {rules : RuleSet} {name : String} :
    rules.argumentOutOfRange? name = none ↔
      ∀ T, rules.get? name = some (.template T) → ∀ i ∈ T.maxArg, i < minArity name := by
  unfold argumentOutOfRange?
  split
  · next T hT => simp [hT, Option.filter_eq_none_iff]
  · next hno =>
    simp only [true_iff]
    exact fun T hT => absurd hT (hno T)

/-- A set is accepted exactly if it covers every call. -/
theorem check_eq_ok {rules : RuleSet} {d : Dialect} : rules.check d = .ok () ↔ rules.Covers := by
  have hmissing : ¬ (!rules.missing.isEmpty) = true ↔
      ∀ name ∈ requiredFunctions, ∃ rule, rules.get? name = some rule := by
    simp [missing, contains, Option.ne_none_iff_exists']
  unfold check
  rw [guard_eq_ok, forM_eq_ok, hmissing]
  refine ⟨fun ⟨hc, hs⟩ => ⟨hc, fun name hn => argumentOutOfRange?_eq_none.mp ?_⟩,
    fun h => ⟨h.complete, fun name hn => ?_⟩⟩
  · have hn := hs name hn
    split at hn
    · simp at hn
    · assumption
  · rw [argumentOutOfRange?_eq_none.mpr (h.supplied name hn)]
    rfl

theorem covers_of_forall {rules : RuleSet} (h : ∀ name ∈ requiredFunctions,
    rules.contains name = true ∧ rules.argumentOutOfRange? name = none) : rules.Covers where
  complete name hn := Option.isSome_iff_exists.mp (h name hn).1
  supplied name hn := argumentOutOfRange?_eq_none.mp (h name hn).2

theorem covers_builtin (d : Dialect) : (RuleSet.builtin d).Covers := by
  have h : ∀ d ∈ Dialect.all, ∀ name ∈ requiredFunctions,
      (RuleSet.builtin d).contains name = true ∧
        (RuleSet.builtin d).argumentOutOfRange? name = none := by
    decide +kernel
  exact covers_of_forall (h d (by cases d <;> decide))

end RuleSet

namespace RuleTable

/-- The tables that sets of rules offered one after the other lead to. -/
inductive Reached : RuleTable → Prop
  | empty : Reached empty
  | builtin : Reached builtin
  | offer {table : RuleTable} {d : Dialect} {rules : RuleSet} (h : Reached table) :
      Reached (table.offer d rules)

variable {table table' : RuleTable} {d d' : Dialect} {rules : RuleSet} {function : String}

/-- A registration that is refused leaves the table as it was. -/
theorem run_registerDialect : (registerDialect d rules).run.run table =
    match rules.check d with
    | .ok () => (.ok (), table.insert d rules)
    | .error error => (.error error, table) := by
  unfold registerDialect
  cases rules.check d <;> rfl

theorem register_eq_ok : table.register d rules = .ok table' ↔
    rules.Covers ∧ table.insert d rules = table' := by
  unfold register
  rw [run_registerDialect, ← RuleSet.check_eq_ok (d := d)]
  cases rules.check d with
  | error error => simp
  | ok accepted => simp

theorem offer_of_ok (h : table.register d rules = .ok table') : table.offer d rules = table' := by
  obtain ⟨hc, rfl⟩ := register_eq_ok.mp h
  rw [offer, run_registerDialect, RuleSet.check_eq_ok.mpr hc]

theorem offer_of_error {error : RegistryError} (h : table.register d rules = .error error) :
    table.offer d rules = table := by
  unfold register at h
  rw [offer, run_registerDialect]
  rw [run_registerDialect] at h
  cases hc : rules.check d with
  | error error => rfl
  | ok accepted => simp [hc] at h

theorem lookup_insert_self : (table.insert d rules).lookup d = some rules := by
  simp [insert]

theorem lookup_insert_ne (hd : d' ≠ d) : (table.insert d rules).lookup d' = table.lookup d' := by
  rw [insert, List.lookup_cons, beq_eq_false_iff_ne.mpr hd]
  induction table with
  | nil => rfl
  | cons entry rest ih =>
    obtain ⟨e, set⟩ := entry
    by_cases he : e = d
    · have hne : (d' == e) = false := by simpa [he] using hd
      rw [List.filter_cons_of_neg (by simpa using he), List.lookup_cons, hne]
      exact ih
    · rw [List.filter_cons_of_pos (by simpa using he), List.lookup_cons, List.lookup_cons]
      cases d' == e with
      | true => rfl
      | false => exact ih

/-- What a dialect resolves depends on its own set only. -/
theorem resolve_congr (h : table.lookup d = table'.lookup d) :
    table.resolve function d = table'.resolve function d := by
  unfold resolve
  rw [h]

/-- A set that is registered is the one that its dialect resolves functions by. -/
theorem resolve_register_self (h : table.register d rules = .ok table') :
    table'.resolve function d = RuleTable.resolve [(d, rules)] function d := by
  obtain ⟨-, rfl⟩ := register_eq_ok.mp h
  exact resolve_congr (lookup_insert_self.trans (by simp))

/-- Other dialects resolve functions as before. -/
theorem resolve_register_ne (h : table.register d rules = .ok table') (hd : d' ≠ d) :
    table'.resolve function d' = table.resolve function d' := by
  obtain ⟨-, rfl⟩ := register_eq_ok.mp h
  exact resolve_congr (lookup_insert_ne hd)

/-- Every set in a table covers every call. -/
theorem Reached.covers (h : Reached table) (hl : table.lookup d = some rules) : rules.Covers := by
  induction h with
  | empty => simp [RuleTable.empty] at hl
  | builtin =>
    obtain ⟨before, after, hb, -⟩ := List.lookup_eq_some_iff.mp hl
    have hm : (d, rules) ∈ RuleTable.builtin := by simp [hb]
    obtain ⟨e, -, he⟩ := List.mem_map.mp hm
    obtain ⟨rfl, rfl⟩ := Prod.mk.inj he
    exact RuleSet.covers_builtin e
  | @offer table e set h ih =>
    cases hr : table.register e set with
    | error err =>
      rw [offer_of_error hr] at hl
      exact ih hl
    | ok table' =>
      rw [offer_of_ok hr] at hl
      obtain ⟨hc, rfl⟩ := register_eq_ok.mp hr
      by_cases hd : d = e
      · subst hd
        obtain rfl : set = rules := Option.some.inj (lookup_insert_self.symm.trans hl)
        exact hc
      · exact ih ((lookup_insert_ne hd).symm.trans hl)

theorem mem_dialects : d ∈ table.dialects ↔ ∃ rules, table.lookup d = some rules := by
  have hm : d ∈ Dialect.all := by cases d <;> decide
  simp [dialects, hm, Option.isSome_iff_exists]

/-- A dialect of the table has a rule for every required function. -/
theorem Reached.resolve (h : Reached table) (hd : d ∈ table.dialects)
    (hf : function ∈ requiredFunctions) :
    ∃ rule, table.resolve function d = .ok rule ∧ ∀ T, rule = .template T →
      ∀ i ∈ T.maxArg, i < minArity function := by
  obtain ⟨rules, hl⟩ := mem_dialects.mp hd
  have hc := h.covers hl
  obtain ⟨rule, hr⟩ := hc.complete function hf
  refine ⟨rule, by simp [RuleTable.resolve, hl, hr], ?_⟩
  rintro T rfl
  exact hc.supplied function hf T hr

/-- The template of a required function in a set that has been registered expands, with as many
arguments as a call has at least, exactly if the placeholder for all arguments stands nowhere but
among the items of calls; otherwise it fails for that. -/
theorem expand_registered (h : table.register d rules = .ok table') {T : Template}
    (hf : function ∈ requiredFunctions) (hT : rules.get? function = some (.template T))
    {args : List Sql.Expr} (hn : minArity function ≤ args.length) :
    ((∃ s, T.expand args = .ok s) ↔ T.spreadsInCalls = true) ∧
      (T.spreadsInCalls = false → T.expand args = .error .argumentsOutsideCall) := by
  obtain ⟨hc, -⟩ := register_eq_ok.mp h
  have hs := Template.settles_expand args fun i hi =>
    Nat.lt_of_lt_of_le (hc.supplied function hf T hT i hi) hn
  cases hx : T.expand args with
  | ok s =>
    rw [hx] at hs
    exact ⟨⟨fun _ => hs, fun _ => ⟨s, rfl⟩⟩, fun hno => absurd (hs.symm.trans hno) (by simp)⟩
  | error limit =>
    rw [hx] at hs
    obtain ⟨rfl, hno⟩ := hs
    exact ⟨⟨by simp, fun hyes => absurd (hyes.symm.trans hno) (by simp)⟩, fun _ => rfl⟩

theorem expand_registered_second :
    let T : Template := .cast (.call "FLOOR" [.extract "SECOND" (.arg 0)]) "INTEGER"
    ((∃ s, T.expand [.column none "at"] = .ok s) ↔ T.spreadsInCalls = true) ∧
      (T.spreadsInCalls = false →
        T.expand [.column none "at"] = .error .argumentsOutsideCall) := by
  have hr : empty.register .postgres (RuleSet.builtin .postgres) = .ok _ :=
    register_eq_ok.mpr ⟨RuleSet.covers_builtin .postgres, rfl⟩
  have hf : "second" ∈ requiredFunctions := by decide
  exact expand_registered hr hf rfl (by decide)

/-- Rules in which a function is written as the placeholder for all arguments and nothing else. -/
def bareLower : RuleSet := RuleSet.insert "lower" (.template .args) (RuleSet.builtin .postgres)

theorem covers_bareLower : bareLower.Covers :=
  RuleSet.covers_of_forall (by decide +kernel)

/-- Rules are registered by which a function of one argument cannot be written. -/
theorem registered_not_expanded :
    (∃ table, builtin.register .postgres bareLower = .ok table) ∧ "lower" ∈ requiredFunctions ∧
      bareLower.get? "lower" = some (.template .args) ∧
      minArity "lower" ≤ [Sql.Expr.column none "a"].length ∧
      Template.args.expand [.column none "a"] = .error .argumentsOutsideCall :=
  ⟨⟨_, register_eq_ok.mpr ⟨covers_bareLower, rfl⟩⟩, by decide, rfl, by decide, rfl⟩

end RuleTable

end PlanSql
