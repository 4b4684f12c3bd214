import Mathlib.Data.List.Forall2
import PlanSql.Relation.Construction

/-!
# Checks that succeed

What it means that a computation which may be refused was not refused, for the shapes that checked
construction and lowering are written in: one step after another, a check for each element of a
list, a result for each element of a list; and what it means that two computations do alike.
-/
namespace PlanSql

variable {ε α β : Type}

@[simp] theorem ok_bind (a : α) (f : α → Except ε β) : (Except.ok a >>= f) = f a := rfl

@[simp] theorem error_bind (e : ε) (f : α → Except ε β) :
    (Except.error e >>= f) = .error e := rfl

@[simp] theorem pure_eq_ok (a : α) : (pure a : Except ε α) = .ok a := rfl

@[simp] theorem throw_eq_error (e : ε) : (throw e : Except ε α) = .error e := rfl

theorem bind_eq_ok {x : Except ε α} {f : α → Except ε β} {b : β} :
    (x >>= f) = .ok b ↔ ∃ a, x = .ok a ∧ f a = .ok b := by
  cases x with
  | error e => simp
  | ok a => simp

/-- What follows a guard is reached exactly when the condition of the guard does not hold. -/
theorem guard_eq_ok {c : Prop} [Decidable c] {e : ε} {f : PUnit → Except ε β} {b : β} :
    (if c then throw e >>= f else f ⟨⟩) = .ok b ↔ ¬ c ∧ f ⟨⟩ = .ok b := by
  by_cases hc : c <;> simp [hc]

theorem forM_eq_ok {f : α → Except ε Unit} {xs : List α} :
    xs.forM f = .ok () ↔ ∀ x ∈ xs, f x = .ok () := by
  induction xs with
  | nil => simp
  | cons x xs ih =>
    simp only [List.forM_eq_forM] at ih
    simp only [List.forM_eq_forM, List.forM_cons, bind_eq_ok, ih, List.forall_mem_cons]
    exact ⟨fun ⟨_, hx, hxs⟩ => ⟨hx, hxs⟩, fun ⟨hx, hxs⟩ => ⟨(), hx, hxs⟩⟩

theorem forM_congr {f g : α → Except ε Unit} {xs : List α}
    (h : ∀ x ∈ xs, f x = g x) : xs.forM f = xs.forM g := by
  induction xs with
  | nil => rfl
  | cons x xs ih =>
    obtain ⟨hx, hxs⟩ := List.forall_mem_cons.mp h
    simp only [List.forM_eq_forM, List.forM_cons] at ih ⊢
    rw [hx, ih hxs]

/-- A check of several things fails with an error if one of them does and none fails with
another. -/
theorem forM_eq_error {f : α → Except ε Unit} {xs : List α} {e : ε}
    (h : ∀ x ∈ xs, f x = .ok () ∨ f x = .error e) (hx : ∃ x ∈ xs, f x = .error e) :
    xs.forM f = .error e := by
  induction xs with
  | nil => simp at hx
  | cons x xs ih =>
    obtain ⟨hhead, htail⟩ := List.forall_mem_cons.mp h
    simp only [List.forM_eq_forM, List.forM_cons] at ih ⊢
    rcases hhead with hok | herr
    · simp only [hok, ok_bind]
      refine ih htail ?_
      obtain ⟨y, hy, hye⟩ := hx
      rcases List.mem_cons.mp hy with rfl | hy
      · simp [hok] at hye
      · exact ⟨y, hy, hye⟩
    · simp [herr]

theorem mapM_eq_ok {f : α → Except ε β} {xs : List α} {ys : List β} :
    xs.mapM f = .ok ys ↔ List.Forall₂ (fun x y => f x = .ok y) xs ys := by
  induction xs generalizing ys with
  | nil => cases ys <;> simp
  | cons x xs ih =>
    simp only [List.mapM_cons, bind_eq_ok, ih, pure_eq_ok, Except.ok.injEq]
    constructor
    · rintro ⟨y, hy, zs, hzs, rfl⟩
      exact .cons hy hzs
    · rintro (_ | ⟨hy, hzs⟩)
      exact ⟨_, hy, _, hzs, rfl⟩

/-- Results that are all changed alike. -/
theorem mapM_eq_map_mapM {f g : α → Except ε β} {k : β → β} {xs : List α}
    (h : ∀ x ∈ xs, g x = k <$> f x) : xs.mapM g = List.map k <$> xs.mapM f := by
  induction xs with
  | nil => rfl
  | cons x xs ih =>
    obtain ⟨hx, hxs⟩ := List.forall_mem_cons.mp h
    simp [List.mapM_cons, hx, ih hxs, map_bind, bind_map_left]

theorem forall₂_mem_right {R : α → β → Prop} {xs : List α} {ys : List β} (h : List.Forall₂ R xs ys)
    {y : β} (hy : y ∈ ys) : ∃ x ∈ xs, R x y := by
  induction h with
  | nil => simp at hy
  | cons hr _ ih =>
    rcases List.mem_cons.mp hy with rfl | hy
    · exact ⟨_, List.mem_cons_self, hr⟩
    · obtain ⟨x, hx, hxy⟩ := ih hy
      exact ⟨x, List.mem_cons_of_mem _ hx, hxy⟩

theorem forall₂_mem_left {R : α → β → Prop} {xs : List α} {ys : List β} (h : List.Forall₂ R xs ys)
    {x : α} (hx : x ∈ xs) : ∃ y ∈ ys, R x y := by
  obtain ⟨y, hy, hr⟩ := forall₂_mem_right h.flip hx
  exact ⟨y, hy, hr⟩

theorem forall₂_getElem? {R : α → β → Prop} {xs : List α} {ys : List β} (h : List.Forall₂ R xs ys)
    {i : Nat} {x : α} (hx : xs[i]? = some x) : ∃ y, ys[i]? = some y ∧ R x y := by
  induction h generalizing i with
  | nil => simp at hx
  | cons hr _ ih =>
    cases i with
    | zero =>
      obtain rfl : _ = x := by simpa using hx
      exact ⟨_, rfl, hr⟩
    | succ i => exact ih hx

theorem forall_mem_iff_of_map_eq {α β γ : Type} {g : α → γ} {k : β → γ} {xs : List α}
    {ys : List β} (h : xs.map g = ys.map k) {P : γ → Prop} :
    (∀ x ∈ xs, P (g x)) ↔ ∀ y ∈ ys, P (k y) := by
  rw [← List.forall_mem_map, h, List.forall_mem_map]

/-- A computation comes to a result with the one property or to an error with the other. -/
def Settles (x : Except ε α) (Q : α → Prop) (E : ε → Prop) : Prop :=
  match x with
  | .ok a => Q a
  | .error e => E e

section Settles

variable {Q : α → Prop} {R : β → Prop} {E : ε → Prop}

@[simp] theorem settles_ok {a : α} : Settles (.ok a) Q E ↔ Q a := Iff.rfl

@[simp] theorem settles_error {e : ε} : Settles (.error e : Except ε α) Q E ↔ E e := Iff.rfl

theorem Settles.of_ok {x : Except ε α} {a : α} (h : Settles x Q E) (hx : x = .ok a) : Q a := by
  subst hx
  exact h

theorem Settles.bind {x : Except ε α} {f : α → Except ε β} (hx : Settles x Q E)
    (hf : ∀ a, x = .ok a → Q a → Settles (f a) R E) : Settles (x >>= f) R E := by
  cases x with
  | error e => exact hx
  | ok a => exact hf a rfl hx

theorem Settles.mono {Q' : α → Prop} {E' : ε → Prop} {x : Except ε α} (hx : Settles x Q E)
    (hq : ∀ a, x = .ok a → Q a → Q' a) (he : ∀ e, E e → E' e) : Settles x Q' E' := by
  cases x with
  | error e => exact he e hx
  | ok a => exact hq a rfl hx

theorem Settles.and {Q' : α → Prop} {x : Except ε α} (hx : Settles x Q E)
    (hq : ∀ a, x = .ok a → Q' a) : Settles x (fun a => Q a ∧ Q' a) E :=
  hx.mono (fun a ha h => ⟨h, hq a ha⟩) fun _ he => he

theorem settles_of_ok {x : Except ε α} (h : ∀ a, x = .ok a → Q a) :
    Settles x Q fun _ => True := by
  cases x with
  | error e => trivial
  | ok a => exact h a rfl

end Settles

/-- Two computations come to related results or to the same error. -/
def Alike (R : α → β → Prop) (x : Except ε α) (y : Except ε β) : Prop :=
  Settles x (fun a => ∃ b, y = .ok b ∧ R a b) fun e => y = .error e

/-- Two computations that do as a third one does do alike. -/
theorem Alike.trans_symm {γ : Type} {R : α → γ → Prop} {R' : β → γ → Prop}
    {Q : α → β → Prop} {x : Except ε α} {y : Except ε β} {z : Except ε γ} (hx : Alike R x z)
    (hQ : ∀ {a b c}, R a c → R' b c → Q a b) (hy : Alike R' y z) : Alike Q x y := by
  cases x with
  | error e =>
    obtain rfl : z = .error e := hx
    cases y with
    | error e' =>
      obtain rfl : e = e' := by simpa [Alike] using hy
      rfl
    | ok b => simp [Alike] at hy
  | ok a =>
    obtain ⟨c, rfl, hac⟩ := hx
    cases y with
    | error e' => simp [Alike] at hy
    | ok b =>
      obtain ⟨c', hc', hbc⟩ := hy
      obtain rfl := Except.ok.inj hc'
      exact ⟨b, rfl, hQ hac hbc⟩

/-- Two computations come to related results, or neither comes to one. -/
def Agree {δ : Type} (R : α → β → Prop) (x : Except ε α) (y : Except δ β) : Prop :=
  Settles x (fun a => ∃ b, y = .ok b ∧ R a b) fun _ => ∃ e, y = .error e

section Agree

variable {δ α' β' : Type} {R : α → β → Prop} {S : α' → β' → Prop} {x : Except ε α}
  {y : Except δ β}

@[simp] theorem agree_ok {a : α} {b : β} :
    Agree R (.ok a : Except ε α) (.ok b : Except δ β) ↔ R a b := by
  simp [Agree]

@[simp] theorem agree_error (e : ε) (e' : δ) : Agree R (.error e) (.error e') := ⟨e', rfl⟩

/-- What each of two computations comes to is matched by what the other comes to. -/
theorem agree_of_ok (h : ∀ a, x = .ok a → ∃ b, y = .ok b ∧ R a b)
    (h' : ∀ b, y = .ok b → ∃ a, x = .ok a) : Agree R x y := by
  cases x with
  | ok a => exact h a rfl
  | error e =>
    cases y with
    | error e' => exact agree_error e e'
    | ok b =>
      obtain ⟨a, ha⟩ := h' b rfl
      simp at ha

theorem Agree.cases (h : Agree R x y) :
    (∃ a b, x = .ok a ∧ y = .ok b ∧ R a b) ∨ ∃ e e', x = .error e ∧ y = .error e' := by
  cases x with
  | error e =>
    obtain ⟨e', rfl⟩ := h
    exact .inr ⟨e, e', rfl, rfl⟩
  | ok a =>
    obtain ⟨b, rfl, hab⟩ := h
    exact .inl ⟨a, b, rfl, rfl, hab⟩

theorem Agree.mono {R' : α → β → Prop} (h : Agree R x y)
    (hR : ∀ a b, x = .ok a → y = .ok b → R a b → R' a b) : Agree R' x y := by
  obtain ⟨a, b, rfl, rfl, hab⟩ | ⟨e, e', rfl, rfl⟩ := h.cases
  · exact agree_ok.mpr (hR a b rfl rfl hab)
  · exact agree_error e e'

theorem Agree.bind {f : α → Except ε α'} {g : β → Except δ β'} (h : Agree R x y)
    (hf : ∀ a b, x = .ok a → y = .ok b → R a b → Agree S (f a) (g b)) :
    Agree S (x >>= f) (y >>= g) := by
  obtain ⟨a, b, rfl, rfl, hab⟩ | ⟨e, e', rfl, rfl⟩ := h.cases
  · exact hf a b rfl rfl hab
  · exact agree_error e e'

theorem Agree.map {f : α → α'} {g : β → β'} (h : Agree R x y)
    (hf : ∀ a b, x = .ok a → y = .ok b → R a b → S (f a) (g b)) :
    Agree S (f <$> x) (g <$> y) := by
  obtain ⟨a, b, rfl, rfl, hab⟩ | ⟨e, e', rfl, rfl⟩ := h.cases
  · exact agree_ok.mpr (hf a b rfl rfl hab)
  · exact agree_error e e'

/-- One computation, continued in two ways. -/
theorem agree_bind {f : α → Except ε α'} {g : α → Except ε β'}
    (hf : ∀ a, x = .ok a → Agree S (f a) (g a)) : Agree S (x >>= f) (x >>= g) := by
  cases x with
  | error e => exact agree_error e e
  | ok a => exact hf a rfl

/-- Two computations of a list, element by element. -/
theorem agree_mapM {γ : Type} {f : γ → Except ε α} {g : γ → Except δ α} {xs : List γ}
    (h : ∀ z ∈ xs, Agree Eq (f z) (g z)) : Agree Eq (xs.mapM f) (xs.mapM g) := by
  induction xs with
  | nil => exact agree_ok.mpr rfl
  | cons z zs ih =>
    obtain ⟨hz, hzs⟩ := List.forall_mem_cons.mp h
    simp only [List.mapM_cons]
    refine hz.bind fun a b _ _ hab => (ih hzs).bind fun as bs _ _ habs => ?_
    exact agree_ok.mpr (by rw [hab, habs])

end Agree

end PlanSql
