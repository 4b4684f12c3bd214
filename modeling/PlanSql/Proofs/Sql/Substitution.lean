import Mathlib.Algebra.Group.End
import PlanSql.Proofs.Sql.Parts

/-!
# Columns replaced by expressions

Every column of an SQL expression is replaced by an expression, all at once. Where columns are only
put under other qualifiers, one to one, two expressions are the same afterwards if and only if they
were before, and what is asked about the form of an expression has the same answer.
-/
namespace PlanSql

section Maps

variable {ε δ ζ : Type}

/-- An output of another expression under the same name. -/
def Named.map (g : ε → δ) (n : Named ε) : Named δ := ⟨g n.expr, n.aliasName⟩

@[simp] theorem Named.map_id : Named.map (id : ε → ε) = id := rfl

theorem Named.map_comp (f : ε → δ) (g : δ → ζ) : Named.map g ∘ Named.map f = Named.map (g ∘ f) :=
  rfl

/-- A sort key of another expression in the same direction. -/
def SortKey.map (g : ε → δ) (k : SortKey ε) : SortKey δ := ⟨g k.expr, k.descending⟩

@[simp] theorem SortKey.map_id : SortKey.map (id : ε → ε) = id := rfl

theorem SortKey.map_comp (f : ε → δ) (g : δ → ζ) :
    SortKey.map g ∘ SortKey.map f = SortKey.map (g ∘ f) := rfl

/-- A window over other expressions. -/
def Sql.Over.map (g : ε → δ) (w : Sql.Over ε) : Sql.Over δ :=
  ⟨w.partitionBy.map g, w.orderBy.map (SortKey.map g)⟩

@[simp] theorem Sql.Over.map_id : Sql.Over.map (id : ε → ε) = id :=
  funext fun w => by simp [Sql.Over.map]

theorem Sql.Over.map_comp (f : ε → δ) (g : δ → ζ) :
    Sql.Over.map g ∘ Sql.Over.map f = Sql.Over.map (g ∘ f) :=
  funext fun w => by simp [Sql.Over.map, SortKey.map_comp]

end Maps

namespace Sql.Expr

/-- An expression with other operands. -/
def mapChildren (g : Expr → Expr) : Expr → Expr
  | .column q n => .column q n
  | .literal l => .literal l
  | .star => .star
  | .unary op operand => .unary op (g operand)
  | .binary op left right => .binary op (g left) (g right)
  | .call name args distinct filter window =>
    .call name (args.map g) distinct (filter.map g) (window.map (Over.map g))
  | .extract field operand => .extract field (g operand)
  | .case branches otherwise => .case (branches.map (Prod.map g g)) (otherwise.map g)
  | .inList operand list negated => .inList (g operand) (list.map g) negated
  | .isNull operand negated => .isNull (g operand) negated
  | .cast operand typeName => .cast (g operand) typeName

theorem mapChildren_id (e : Expr) : e.mapChildren id = e := by
  cases e <;> simp [mapChildren]

theorem mapChildren_mapChildren (f g : Expr → Expr) (e : Expr) :
    (e.mapChildren f).mapChildren g = e.mapChildren (g ∘ f) := by
  cases e <;> simp [mapChildren, Over.map_comp, Prod.map_comp_map]

theorem mapChildren_congr {f g : Expr → Expr} {e : Expr} (h : ∀ c ∈ e.children, f c = g c) :
    e.mapChildren f = e.mapChildren g := by
  cases e with
  | column | literal | star => rfl
  | unary | extract | isNull | cast | binary => simp_all [mapChildren, children]
  | inList operand list negated =>
    obtain ⟨ho, hl⟩ := List.forall_mem_cons.mp h
    rw [mapChildren, mapChildren, ho, List.map_congr_left hl]
  | case branches otherwise =>
    obtain ⟨hb, ho⟩ := List.forall_mem_append.mp h
    have hbranches : branches.map (Prod.map f f) = branches.map (Prod.map g g) :=
      List.map_congr_left fun b hm => by
        have hmem : ∀ e ∈ [b.1, b.2], f e = g e := fun e he =>
          hb e (List.mem_flatMap.mpr ⟨b, hm, he⟩)
        simp [Prod.map, hmem]
    rw [mapChildren, mapChildren, hbranches, Option.map_congr fun e he => ho e (by simpa using he)]
  | call name args distinct filter window =>
    obtain ⟨hl, hw⟩ := List.forall_mem_append.mp h
    obtain ⟨ha, hf⟩ := List.forall_mem_append.mp hl
    have hwindow : window.map (Over.map f) = window.map (Over.map g) :=
      Option.map_congr fun w hm => by
        have hk : ∀ e ∈ w.keys, f e = g e := fun e he =>
          hw e (List.mem_flatMap.mpr ⟨w, by simpa using hm, he⟩)
        obtain ⟨hp, ho⟩ := List.forall_mem_append.mp hk
        have hkeys : ∀ k ∈ w.orderBy, SortKey.map f k = SortKey.map g k := fun k hk => by
          rw [SortKey.map, SortKey.map, ho _ (List.mem_map_of_mem hk)]
        rw [Over.map, Over.map, List.map_congr_left hp, List.map_congr_left hkeys]
    rw [mapChildren, mapChildren, List.map_congr_left ha, hwindow,
      Option.map_congr fun e he => hf e (by simpa using he)]

mutual

/-- The expression with `σ q n` in the place of every column `n` under the qualifier `q`. -/
def substitute (σ : Option String → String → Expr) : Expr → Expr
  | .column q n => σ q n
  | .literal l => .literal l
  | .star => .star
  | .unary op operand => .unary op (operand.substitute σ)
  | .binary op left right => .binary op (left.substitute σ) (right.substitute σ)
  | .call name args distinct filter window =>
    .call name (substituteAll σ args) distinct (substituteOption σ filter)
      (substituteOver σ window)
  | .extract field operand => .extract field (operand.substitute σ)
  | .case branches otherwise =>
    .case (substituteBranches σ branches) (substituteOption σ otherwise)
  | .inList operand list negated =>
    .inList (operand.substitute σ) (substituteAll σ list) negated
  | .isNull operand negated => .isNull (operand.substitute σ) negated
  | .cast operand typeName => .cast (operand.substitute σ) typeName

def substituteAll (σ : Option String → String → Expr) : List Expr → List Expr
  | [] => []
  | e :: rest => e.substitute σ :: substituteAll σ rest

def substituteOption (σ : Option String → String → Expr) : Option Expr → Option Expr
  | none => none
  | some e => some (e.substitute σ)

def substituteBranches (σ : Option String → String → Expr) :
    List (Expr × Expr) → List (Expr × Expr)
  | [] => []
  | (c, r) :: rest => (c.substitute σ, r.substitute σ) :: substituteBranches σ rest

def substituteOver (σ : Option String → String → Expr) : Option (Over Expr) → Option (Over Expr)
  | none => none
  | some ⟨ps, ks⟩ => some ⟨substituteAll σ ps, substituteKeys σ ks⟩

def substituteKeys (σ : Option String → String → Expr) :
    List (SortKey Expr) → List (SortKey Expr)
  | [] => []
  | ⟨e, descending⟩ :: rest => ⟨e.substitute σ, descending⟩ :: substituteKeys σ rest

end

section Substitute

variable (σ τ : Option String → String → Expr)

@[simp] theorem substituteAll_eq (es : List Expr) : substituteAll σ es = es.map (substitute σ) := by
  induction es with
  | nil => rfl
  | cons e rest ih => rw [substituteAll, ih, List.map_cons]

@[simp] theorem substituteOption_eq (e : Option Expr) :
    substituteOption σ e = e.map (substitute σ) := by
  cases e <;> rfl

@[simp] theorem substituteBranches_eq (branches : List (Expr × Expr)) :
    substituteBranches σ branches =
      branches.map (Prod.map (substitute σ) (substitute σ)) := by
  induction branches with
  | nil => rfl
  | cons b rest ih => rw [substituteBranches, ih, List.map_cons, Prod.map]

@[simp] theorem substituteKeys_eq (keys : List (SortKey Expr)) :
    substituteKeys σ keys = keys.map (SortKey.map (substitute σ)) := by
  induction keys with
  | nil => rfl
  | cons k rest ih => rw [substituteKeys, ih, List.map_cons, SortKey.map]

@[simp] theorem substituteOver_eq (window : Option (Over Expr)) :
    substituteOver σ window = window.map (Over.map (substitute σ)) := by
  cases window with
  | none => rfl
  | some w => rw [substituteOver, substituteAll_eq, substituteKeys_eq, Option.map_some, Over.map]

@[simp] theorem substitute_column (q : Option String) (n : String) :
    (column q n).substitute σ = σ q n := rfl

theorem column_or_reference? (e : Expr) : (∃ q n, e = column q n) ∨ e.reference? = none := by
  cases e <;> simp [reference?]

/-- In any other expression the columns are replaced in the operands. -/
theorem substitute_of_reference? {e : Expr} (h : e.reference? = none) :
    e.substitute σ = e.mapChildren (substitute σ) := by
  cases e with
  | column => simp [reference?] at h
  | _ => simp [substitute, mapChildren]

theorem substitute_substitute (e : Expr) :
    (e.substitute σ).substitute τ = e.substitute fun q n => (σ q n).substitute τ := by
  induction e using induct with
  | step e ih =>
    rcases e.column_or_reference? with ⟨q, n, rfl⟩ | hr
    · rfl
    · have hm : (e.mapChildren (substitute σ)).reference? = none := by
        cases e <;> simp_all [mapChildren, reference?]
      rw [substitute_of_reference? σ hr, substitute_of_reference? τ hm, mapChildren_mapChildren,
        substitute_of_reference? _ hr]
      exact mapChildren_congr ih

theorem substitute_self (e : Expr) : e.substitute column = e := by
  induction e using induct with
  | step e ih =>
    rcases e.column_or_reference? with ⟨q, n, rfl⟩ | hr
    · rfl
    · rw [substitute_of_reference? _ hr, mapChildren_congr ih]
      exact mapChildren_id e

/-- The expression is the call of a function. -/
def isCall : Expr → Bool
  | .call _ _ _ _ _ => true
  | _ => false

/-- Where columns are not replaced by calls, the calls are those that were there. -/
theorem isCall_substitute (h : ∀ q n, (σ q n).isCall = false) (e : Expr) :
    (e.substitute σ).isCall = e.isCall := by
  cases e with
  | column q n => exact h q n
  | _ => simp [substitute, isCall]

end Substitute

/-- The expression with its columns under other qualifiers. -/
def requalify (ρ : Equiv.Perm String) (e : Expr) : Expr :=
  e.substitute fun q n => .column (q.map ρ) n

theorem requalify_column (ρ : Equiv.Perm String) (q : Option String) (n : String) :
    (column q n).requalify ρ = column (q.map ρ) n := rfl

theorem requalify_of_reference? (ρ : Equiv.Perm String) {e : Expr} (h : e.reference? = none) :
    e.requalify ρ = e.mapChildren (requalify ρ) :=
  substitute_of_reference? _ h

@[simp] theorem requalify_one : requalify 1 = id := by
  funext e
  refine Eq.trans ?_ (substitute_self e)
  unfold requalify
  congr 1
  funext q n
  simp

theorem requalify_comp (ρ τ : Equiv.Perm String) :
    requalify τ ∘ requalify ρ = requalify (τ * ρ) := by
  funext e
  simp [requalify, substitute_substitute, Function.comp_def]

section Form

variable (ρ : Equiv.Perm String)

theorem isColumnNamed_requalify (name : String) (e : Expr) :
    (e.requalify ρ).isColumnNamed name = e.isColumnNamed name := by
  rcases e.column_or_reference? with ⟨q, n, rfl⟩ | hr
  · rfl
  · rw [requalify_of_reference? ρ hr]
    cases e <;> simp_all [mapChildren, isColumnNamed, reference?]

theorem anyContainsWindow_map {g : Expr → Expr} {es : List Expr}
    (h : ∀ e ∈ es, (g e).containsWindow = e.containsWindow) :
    anyContainsWindow (es.map g) = anyContainsWindow es := by
  induction es with
  | nil => rfl
  | cons e rest ih => simp_all [anyContainsWindow]

theorem branchesContainWindow_map {g : Expr → Expr} {branches : List (Expr × Expr)}
    (h : ∀ b ∈ branches, (g b.1).containsWindow = b.1.containsWindow ∧
      (g b.2).containsWindow = b.2.containsWindow) :
    branchesContainWindow (branches.map (Prod.map g g)) = branchesContainWindow branches := by
  induction branches with
  | nil => rfl
  | cons b rest ih => simp_all [branchesContainWindow]

/-- Whether there is a window function depends on the operands only through what is in them. -/
theorem containsWindow_mapChildren {g : Expr → Expr} {e : Expr}
    (h : ∀ c ∈ e.children, (g c).containsWindow = c.containsWindow) :
    (e.mapChildren g).containsWindow = e.containsWindow := by
  cases e with
  | column | literal | star => rfl
  | unary | extract | isNull | cast | binary => simp_all [mapChildren, children, containsWindow]
  | inList operand list negated =>
    obtain ⟨ho, hl⟩ := List.forall_mem_cons.mp h
    rw [mapChildren, containsWindow, containsWindow, ho, anyContainsWindow_map hl]
  | call name args distinct filter window =>
    have ha : ∀ e ∈ args, (g e).containsWindow = e.containsWindow := fun e he =>
      h e (by simp [children, he])
    rw [mapChildren, containsWindow, containsWindow, anyContainsWindow_map ha, Option.isSome_map]
  | case branches otherwise =>
    obtain ⟨hb, ho⟩ := List.forall_mem_append.mp h
    have hbranches : branchesContainWindow (branches.map (Prod.map g g)) =
        branchesContainWindow branches :=
      branchesContainWindow_map fun b hm =>
        have hmem : ∀ e ∈ [b.1, b.2], (g e).containsWindow = e.containsWindow := fun e he =>
          hb e (List.mem_flatMap.mpr ⟨b, hm, he⟩)
        ⟨hmem b.1 (by simp), hmem b.2 (by simp)⟩
    cases otherwise with
    | none => simp [mapChildren, containsWindow, hbranches]
    | some e => simp [mapChildren, containsWindow, hbranches, ho e (by simp)]

theorem containsWindow_requalify (e : Expr) :
    (e.requalify ρ).containsWindow = e.containsWindow := by
  induction e using induct with
  | step e ih =>
    rcases e.column_or_reference? with ⟨q, n, rfl⟩ | hr
    · rfl
    · rw [requalify_of_reference? ρ hr]
      exact containsWindow_mapChildren ih

end Form

section Same

/-- The map neither joins nor separates the expression and others. -/
def KeepsSame (g : Expr → Expr) (a : Expr) : Prop := ∀ b, same (g a) (g b) = same a b

variable {g : Expr → Expr}

theorem sameAll_map {as : List Expr} (h : ∀ a ∈ as, KeepsSame g a) (bs : List Expr) :
    sameAll (as.map g) (bs.map g) = sameAll as bs := by
  induction as generalizing bs with
  | nil => cases bs <;> simp [sameAll]
  | cons a as ih =>
    obtain ⟨ha, has⟩ := List.forall_mem_cons.mp h
    cases bs with
    | nil => simp [sameAll]
    | cons b bs => simp [sameAll, ha b, ih has]

theorem sameOption_map {a : Option Expr} (h : ∀ e ∈ a.toList, KeepsSame g e) (b : Option Expr) :
    sameOption (a.map g) (b.map g) = sameOption a b := by
  cases a <;> cases b
  case some.some a b => simpa [sameOption] using h a (by simp) b
  all_goals simp [sameOption]

theorem sameBranches_map {as : List (Expr × Expr)}
    (h : ∀ a ∈ as.flatMap fun (c, r) => [c, r], KeepsSame g a) (bs : List (Expr × Expr)) :
    sameBranches (as.map (Prod.map g g)) (bs.map (Prod.map g g)) = sameBranches as bs := by
  induction as generalizing bs with
  | nil => cases bs <;> simp [sameBranches]
  | cons a as ih =>
    obtain ⟨ha, has⟩ := List.forall_mem_append.mp h
    cases bs with
    | nil => simp [sameBranches]
    | cons b bs =>
      obtain ⟨c, r⟩ := a
      obtain ⟨c', r'⟩ := b
      simp [sameBranches, ha c (by simp) c', ha r (by simp) r', ih has]

theorem sameKeys_map {as : List (SortKey Expr)} (h : ∀ a ∈ as, KeepsSame g a.expr)
    (bs : List (SortKey Expr)) :
    sameKeys (as.map (SortKey.map g)) (bs.map (SortKey.map g)) = sameKeys as bs := by
  induction as generalizing bs with
  | nil => cases bs <;> simp [sameKeys]
  | cons a as ih =>
    obtain ⟨ha, has⟩ := List.forall_mem_cons.mp h
    cases bs with
    | nil => simp [sameKeys]
    | cons b bs =>
      obtain ⟨a, x⟩ := a
      obtain ⟨b, y⟩ := b
      simp [sameKeys, SortKey.map, ha b, ih has]

theorem sameOver_map {v : Option (Over Expr)}
    (h : ∀ e ∈ v.toList.flatMap Over.keys, KeepsSame g e) (w : Option (Over Expr)) :
    sameOver (v.map (Over.map g)) (w.map (Over.map g)) = sameOver v w := by
  cases v with
  | none => cases w <;> simp [sameOver]
  | some v =>
    cases w with
    | none => simp [sameOver]
    | some w =>
      have hk : ∀ e ∈ v.keys, KeepsSame g e := by simpa using h
      obtain ⟨hp, ho⟩ := List.forall_mem_append.mp hk
      obtain ⟨ps, ks⟩ := v
      obtain ⟨qs, ls⟩ := w
      simp [sameOver, Over.map, sameAll_map hp, sameKeys_map (List.forall_mem_map.mp ho)]

/-- Expressions that are no columns are compared by their operands. -/
theorem same_mapChildren {a b : Expr} (ha : a.reference? = none) (hb : b.reference? = none)
    (h : ∀ c ∈ a.children, KeepsSame g c) :
    same (a.mapChildren g) (b.mapChildren g) = same a b := by
  cases a with
  | column => simp [reference?] at ha
  | literal | star =>
    cases b with
    | column => simp [reference?] at hb
    | _ => simp [mapChildren, same]
  | unary op operand | extract op operand | isNull operand op | cast operand op =>
    have ho : ∀ b, same (g operand) (g b) = same operand b := h operand (by simp [children])
    cases b with
    | column => simp [reference?] at hb
    | _ => simp [mapChildren, same, ho]
  | binary op left right =>
    have hl : ∀ b, same (g left) (g b) = same left b := h left (by simp [children])
    have hr : ∀ b, same (g right) (g b) = same right b := h right (by simp [children])
    cases b with
    | column => simp [reference?] at hb
    | _ => simp [mapChildren, same, hl, hr]
  | inList operand list negated =>
    obtain ⟨ho, hl⟩ := List.forall_mem_cons.mp h
    cases b with
    | inList operand' list' negated' => simp [mapChildren, same, ho operand', sameAll_map hl]
    | column => simp [reference?] at hb
    | _ => simp [mapChildren, same]
  | case branches otherwise =>
    obtain ⟨hbs, ho⟩ := List.forall_mem_append.mp h
    cases b with
    | case branches' otherwise' =>
      simp [mapChildren, same, sameBranches_map hbs, sameOption_map ho]
    | column => simp [reference?] at hb
    | _ => simp [mapChildren, same]
  | call name args distinct filter window =>
    obtain ⟨hl, hw⟩ := List.forall_mem_append.mp h
    obtain ⟨has, hf⟩ := List.forall_mem_append.mp hl
    cases b with
    | call name' args' distinct' filter' window' =>
      simp [mapChildren, same, sameAll_map has, sameOption_map hf, sameOver_map hw]
    | column => simp [reference?] at hb
    | _ => simp [mapChildren, same]

/-- Expressions are the same under other qualifiers if and only if they are the same. -/
theorem same_requalify (ρ : Equiv.Perm String) (a b : Expr) :
    same (a.requalify ρ) (b.requalify ρ) = same a b := by
  induction a using induct generalizing b with
  | step a ih =>
    rcases a.column_or_reference? with ⟨q, n, rfl⟩ | ha
    · rcases b.column_or_reference? with ⟨q', n', rfl⟩ | hb
      · have hq : q.map ρ = q'.map ρ ↔ q = q' := (Option.map_injective ρ.injective).eq_iff
        simp [requalify_column, same, hq]
      · rw [requalify_of_reference? ρ hb]
        cases b with
        | column => simp [reference?] at hb
        | _ => simp [requalify_column, mapChildren, same]
    · rcases b.column_or_reference? with ⟨q', n', rfl⟩ | hb
      · rw [requalify_of_reference? ρ ha]
        cases a with
        | column => simp [reference?] at ha
        | _ => simp [requalify_column, mapChildren, same]
      · rw [requalify_of_reference? ρ ha, requalify_of_reference? ρ hb]
        exact same_mapChildren ha hb ih

end Same

end Sql.Expr

end PlanSql
