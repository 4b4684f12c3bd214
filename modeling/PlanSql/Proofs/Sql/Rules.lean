import PlanSql.Proofs.Sql.Grammar

/-!
# Reading by the rules

The parts that a rule reads begin later than the part itself or are of lower rank. So the depth to
which the rules are unfolded does not matter, and a part is read by its rule, which reads its parts
in the same way.
-/
namespace PlanSql.Sql.Grammar

/-- Some parts may be empty: they may leave all of the tokens. -/
def Part.slack {α : Type} : Part α → Nat
  | .continued _ _ | .branches | .filterClause | .overClause => 1
  | _ => 0

variable {α β : Type} {j k : Nat} {r s : Option (α × List Token)} {ts : List Token}

/-- Outcomes that are the same, with fewer tokens left than a bound says. -/
structure Alike (k : Nat) (r s : Option (α × List Token)) : Prop where
  eq : r = s
  less : ∀ x ∈ r, x.2.length < k

theorem length_skip {token : Token} {rest : List Token} (h : rest ∈ skip token ts) :
    rest.length < ts.length := by
  cases ts with
  | nil => cases h
  | cons t ts =>
    have hskip : (if t = token then some ts else none) = some rest := h
    split at hskip <;> cases hskip
    exact Nat.lt_succ_self _

theorem takes_cases (token : Token) (ts : List Token) :
    (∃ rest, takes token ts = (true, rest) ∧ rest.length < ts.length) ∨
      takes token ts = (false, ts) := by
  cases ts with
  | nil => exact .inr rfl
  | cons t rest =>
    by_cases ht : t = token
    · exact .inl ⟨rest, if_pos ht, Nat.lt_succ_self _⟩
    · exact .inr (if_neg ht)

theorem takes_le (token : Token) (ts : List Token) :
    ∃ taken rest, takes token ts = (taken, rest) ∧ rest.length ≤ ts.length := by
  rcases takes_cases token ts with ⟨rest, h, hlt⟩ | h
  · exact ⟨true, rest, h, Nat.le_of_lt hlt⟩
  · exact ⟨false, ts, h, Nat.le_refl _⟩

namespace Alike

theorem none : Alike k (none : Option (α × List Token)) .none := ⟨rfl, by simp⟩

theorem some (x : α) (h : ts.length < k) : Alike k (some (x, ts)) (.some (x, ts)) :=
  ⟨rfl, by simpa using h⟩

theorem mono (h : Alike j r s) (hk : j ≤ k) : Alike k r s :=
  ⟨h.eq, fun x hx => Nat.lt_of_lt_of_le (h.less x hx) hk⟩

theorem bind {f g : α × List Token → Option (β × List Token)} (h : Alike j r s)
    (hf : ∀ x rest, rest.length < j → Alike k (f (x, rest)) (g (x, rest))) :
    Alike k (r >>= f) (s >>= g) := by
  obtain ⟨rfl, hless⟩ := h
  cases r with
  | none => exact none
  | some x => exact hf x.1 x.2 (hless x rfl)

theorem bindRest {r : Option (List Token)} {f g : List Token → Option (β × List Token)}
    (h : ∀ rest ∈ r, Alike k (f rest) (g rest)) : Alike k (r >>= f) (r >>= g) := by
  cases r with
  | none => exact none
  | some rest => exact h rest rfl

theorem skip {token : Token} {f g : List Token → Option (β × List Token)}
    (h : ∀ rest, rest.length < ts.length → Alike k (f rest) (g rest)) :
    Alike k (Grammar.skip token ts >>= f) (Grammar.skip token ts >>= g) :=
  .bindRest fun rest hr => h rest (length_skip hr)

theorem typeName (depth : Nat) (ts : List Token) :
    Alike ts.length (Grammar.typeName depth ts) (Grammar.typeName depth ts) := by
  induction ts generalizing depth with
  | nil => exact none
  | cons t ts ih =>
    have hlt : ts.length < (t :: ts).length := Nat.lt_succ_self _
    have hrest : ∀ depth, Alike (t :: ts).length
        (Grammar.typeName depth ts >>= fun x => .some (t :: x.1, x.2))
        (Grammar.typeName depth ts >>= fun x => .some (t :: x.1, x.2)) := fun depth =>
      (ih depth).bind fun name rest hr => some _ (Nat.lt_trans hr hlt)
    unfold Grammar.typeName
    split
    · cases depth with
      | zero => exact some _ hlt
      | succ depth => exact hrest depth
    · exact hrest _

end Alike

theorem length_columnAfter (name : String) (ts : List Token) :
    (columnAfter name ts).2.length ≤ ts.length := by
  unfold columnAfter
  split
  next column rest htakes =>
    obtain ⟨taken, us, h, hle⟩ := takes_le (.symbol ".") ts
    obtain ⟨-, rfl⟩ := Prod.mk.inj (h.symm.trans htakes)
    exact Nat.le_of_succ_le hle
  next => exact Nat.le_refl _

theorem length_constantAfter {text : String} {x : Tree × List Token}
    (h : constantAfter text ts = some x) : x.2.length ≤ ts.length := by
  unfold constantAfter at h
  split at h <;> split at h <;> first | cases h; simp | cases h

theorem length_leaf {x : Tree × List Token} (h : leaf ts = some x) : x.2.length < ts.length := by
  cases ts with
  | nil => cases h
  | cons t rest =>
    have hlt : rest.length < (t :: rest).length := Nat.lt_succ_self _
    cases t with
    | identifier name =>
      obtain rfl : columnAfter name rest = x := Option.some.inj h
      exact Nat.lt_of_le_of_lt (length_columnAfter name rest) hlt
    | word text => exact Nat.lt_of_le_of_lt (length_constantAfter h) hlt
    | symbol text =>
      have hx : (if text = "*" then some (Tree.star, rest) else none) = some x := h
      split at hx <;> cases hx
      exact hlt
    | number text | string value =>
      cases h
      exact hlt
    | comment => cases h

theorem Alike.direction (ts : List Token) : Alike ts.length (direction ts) (direction ts) := by
  unfold Grammar.direction
  rcases takes_cases (.word "DESC") ts with ⟨us, hu, hlt⟩ | hu <;> simp only [hu]
  · exact .some _ hlt
  · exact .skip fun us hu => .some _ hu

theorem Alike.leaf (ts : List Token) : Alike ts.length (leaf ts) (leaf ts) :=
  ⟨rfl, fun _ hx => length_leaf hx⟩

theorem Part.depth_lt (q : Part β) (p : Part α) {us : List Token} (h : us.length < ts.length) :
    q.depth us < p.depth ts := by
  have hq : q.rank ≤ 4 := by cases q <;> simp [rank]
  unfold depth
  omega

/-- Two ways of reading are alike for the parts that are less deep than a bound says. -/
def AlikeBelow (n : Nat) (a b : Readers) : Prop :=
  ∀ ⦃β : Type⦄ (q : Part β) (us : List Token), q.depth us < n →
    Alike (us.length + q.slack) (a q us) (b q us)

variable {a b : Readers} {level : Nat} {left : Tree} {name : String}

theorem AlikeBelow.shorter {p : Part α} (h : AlikeBelow (p.depth ts) a b) (q : Part β)
    {us : List Token} (hlt : us.length < ts.length) :
    Alike (us.length + q.slack) (a q us) (b q us) :=
  h q us (q.depth_lt p hlt)

theorem AlikeBelow.expressionRule (h : AlikeBelow (Part.depth (.expression level) ts) a b) :
    Alike ts.length (expressionRule a level ts) (expressionRule b level ts) := by
  have here : Alike ts.length (a (.operand level) ts) (b (.operand level) ts) :=
    h (.operand level) ts (by simp [Part.depth, Part.rank])
  exact here.bind fun t us hu => (h.shorter (.continued level t) hu).mono hu

theorem AlikeBelow.operandRule (h : AlikeBelow (Part.depth (.operand level) ts) a b) :
    Alike ts.length (operandRule a level ts) (operandRule b level ts) := by
  unfold Grammar.operandRule
  split
  next text rest =>
    have hlt : rest.length < (Token.symbol text :: rest).length := Nat.lt_succ_self _
    split
    · exact (h.shorter _ hlt).bind fun t us hu => .some _ (Nat.lt_trans hu hlt)
    split
    · refine (h.shorter _ hlt).bind fun t us hu => .skip fun vs hv => .some _ ?_
      exact Nat.lt_trans hv (Nat.lt_trans hu hlt)
    · exact .leaf _
  next text rest =>
    have hlt : rest.length < (Token.word text :: rest).length := Nat.lt_succ_self _
    split
    · split
      · exact (h.shorter _ hlt).bind fun t us hu => .some _ (Nat.lt_trans hu hlt)
      · exact .none
    split
    · refine (h.shorter .branches hlt).bind fun branches us hu => ?_
      replace hu : us.length < (Token.word text :: rest).length := by
        simp only [Part.slack] at hu
        omega
      rcases takes_cases (.word "ELSE") us with ⟨vs, hv, hvs⟩ | hv <;> simp only [hv]
      · refine (h.shorter (.expression 1) (Nat.lt_trans hvs hu)).bind fun t ws hw => ?_
        refine .skip fun xs hx => .some _ ?_
        exact Nat.lt_trans hx (Nat.lt_trans hw (Nat.lt_trans hvs hu))
      · exact .skip fun xs hx => .some _ (Nat.lt_trans hx hu)
    · rcases takes_cases (.symbol "(") rest with ⟨us, hu, hus⟩ | hu <;> simp only [hu]
      · exact (h.shorter (.applied text) (Nat.lt_trans hus hlt)).mono
          (Nat.le_of_lt (Nat.lt_trans hus hlt))
      · exact .leaf _
  next => exact .leaf _

theorem AlikeBelow.appliedRule (h : AlikeBelow (Part.depth (.applied name) ts) a b) :
    Alike ts.length (appliedRule a name ts) (appliedRule b name ts) := by
  unfold Grammar.appliedRule
  split
  · have here : Alike ts.length (a (.expression 1) ts) (b (.expression 1) ts) :=
      h (.expression 1) ts (by simp [Part.depth, Part.rank])
    refine here.bind fun t us hu => .skip fun vs hv => ?_
    refine (Alike.typeName 0 vs).bind fun text ws hw => .some _ ?_
    exact Nat.lt_trans hw (Nat.lt_trans hv hu)
  split
  · split
    next field rest =>
      have hlt : rest.length < (Token.word field :: rest).length := Nat.lt_succ_self _
      refine .skip fun us hu => (h.shorter (.expression 1) (Nat.lt_trans hu hlt)).bind ?_
      refine fun t vs hv => .skip fun ws hw => .some _ ?_
      exact Nat.lt_trans hw (Nat.lt_trans hv (Nat.lt_trans hu hlt))
    next => exact .none
  split
  · exact .none
  · obtain ⟨distinct, us, htakes, hu⟩ := takes_le (.word "DISTINCT") ts
    have here : Alike us.length (a .enclosed us) (b .enclosed us) :=
      h .enclosed us (by simp only [Part.depth, Part.rank]; omega)
    rw [htakes]
    refine here.bind fun args vs hv => ?_
    have hv : vs.length < ts.length := Nat.lt_of_lt_of_le hv hu
    refine (h.shorter .filterClause hv).bind fun filter ws hw => ?_
    have hw : ws.length < ts.length := Nat.lt_of_lt_of_le hw hv
    refine (h.shorter .overClause hw).bind fun window xs hx => .some _ ?_
    exact Nat.lt_of_lt_of_le hx hw

theorem AlikeBelow.continuedRule (h : AlikeBelow (Part.depth (.continued level left) ts) a b) :
    Alike (ts.length + 1) (continuedRule a level left ts) (continuedRule b level left ts) := by
  have stop : Alike (ts.length + 1) (some (left, ts)) (some (left, ts)) :=
    .some _ (Nat.lt_succ_self _)
  have go : ∀ (t : Tree) (us : List Token), us.length < ts.length →
      Alike (ts.length + 1) (a (.continued level t) us) (b (.continued level t) us) :=
    fun t us hu =>
      (h.shorter (.continued level t) hu).mono (Nat.succ_le_succ (Nat.le_of_lt hu))
  unfold Grammar.continuedRule
  split
  next => exact stop
  next t rest =>
    have hlt : rest.length < (t :: rest).length := Nat.lt_succ_self _
    split
    next op _ =>
      split
      · refine (h.shorter (.expression (op.level + 1)) hlt).bind fun right us hu => ?_
        exact go _ _ (Nat.lt_trans hu hlt)
      · exact stop
    next =>
      split
      · exact stop
      split
      · obtain ⟨negated, us, htakes, hu⟩ := takes_le (.word "NOT") rest
        rw [htakes]
        exact .skip fun vs hv => go _ _ (Nat.lt_trans (Nat.lt_of_lt_of_le hv hu) hlt)
      · obtain ⟨negated, us, htakes, hu⟩ := takes_le (.word "NOT") (t :: rest)
        simp only [htakes]
        rcases takes_cases (.word "IN") us with ⟨vs, hv, hvs⟩ | hv <;> simp only [hv]
        · refine .skip fun ws hw => ?_
          have hw : ws.length < (t :: rest).length := Nat.lt_trans hw (Nat.lt_of_lt_of_le hvs hu)
          exact (h.shorter .enclosed hw).bind fun items xs hx => go _ _ (Nat.lt_trans hx hw)
        · exact stop

theorem AlikeBelow.enclosedRule (h : AlikeBelow (Part.depth .enclosed ts) a b) :
    Alike ts.length (enclosedRule a ts) (enclosedRule b ts) := by
  unfold Grammar.enclosedRule
  rcases takes_cases (.symbol ")") ts with ⟨us, hu, hlt⟩ | hu <;> simp only [hu]
  · exact .some _ hlt
  · have here : Alike ts.length (a .list ts) (b .list ts) :=
      h .list ts (by simp [Part.depth, Part.rank])
    exact here.bind fun items us hu => .skip fun vs hv => .some _ (Nat.lt_trans hv hu)

theorem AlikeBelow.listRule (h : AlikeBelow (Part.depth .list ts) a b) :
    Alike ts.length (listRule a ts) (listRule b ts) := by
  have here : Alike ts.length (a (.expression 1) ts) (b (.expression 1) ts) :=
    h (.expression 1) ts (by simp [Part.depth, Part.rank])
  refine here.bind fun t us hu => ?_
  rcases takes_cases (.symbol ",") us with ⟨vs, hv, hvs⟩ | hv <;> simp only [hv]
  · refine (h.shorter .list (Nat.lt_trans hvs hu)).bind fun rest ws hw => .some _ ?_
    exact Nat.lt_trans hw (Nat.lt_trans hvs hu)
  · exact .some _ hu

theorem AlikeBelow.keysRule (h : AlikeBelow (Part.depth .keys ts) a b) :
    Alike ts.length (keysRule a ts) (keysRule b ts) := by
  have here : Alike ts.length (a (.expression 1) ts) (b (.expression 1) ts) :=
    h (.expression 1) ts (by simp [Part.depth, Part.rank])
  refine here.bind fun t us hu => ?_
  refine (Alike.direction us).bind fun descending vs hv => ?_
  have hv : vs.length < ts.length := Nat.lt_trans hv hu
  rcases takes_cases (.symbol ",") vs with ⟨ws, hw, hws⟩ | hw <;> simp only [hw]
  · refine (h.shorter .keys (Nat.lt_trans hws hv)).bind fun rest xs hx => .some _ ?_
    exact Nat.lt_trans hx (Nat.lt_trans hws hv)
  · exact .some _ hv

theorem AlikeBelow.branchesRule (h : AlikeBelow (Part.depth .branches ts) a b) :
    Alike (ts.length + 1) (branchesRule a ts) (branchesRule b ts) := by
  unfold Grammar.branchesRule
  rcases takes_cases (.word "WHEN") ts with ⟨us, hu, hlt⟩ | hu <;> simp only [hu]
  · refine (h.shorter (.expression 1) hlt).bind fun condition vs hv => .skip fun ws hw => ?_
    have hw : ws.length < ts.length := Nat.lt_trans hw (Nat.lt_trans hv hlt)
    refine (h.shorter (.expression 1) hw).bind fun result xs hx => ?_
    have hx : xs.length < ts.length := Nat.lt_trans hx hw
    refine (h.shorter .branches hx).bind fun rest ys hy => .some _ ?_
    exact Nat.lt_trans hy (Nat.succ_lt_succ hx)
  · exact .some _ (Nat.lt_succ_self _)

theorem AlikeBelow.filterRule (h : AlikeBelow (Part.depth .filterClause ts) a b) :
    Alike (ts.length + 1) (filterRule a ts) (filterRule b ts) := by
  unfold Grammar.filterRule
  rcases takes_cases (.word "FILTER") ts with ⟨us, hu, hlt⟩ | hu <;> simp only [hu]
  · refine .skip fun vs hv => .skip fun ws hw => ?_
    have hw : ws.length < ts.length := Nat.lt_trans hw (Nat.lt_trans hv hlt)
    refine (h.shorter (.expression 1) hw).bind fun condition xs hx => .skip fun ys hy => .some _ ?_
    exact Nat.lt_succ_of_lt (Nat.lt_trans hy (Nat.lt_trans hx hw))
  · exact .some _ (Nat.lt_succ_self _)

theorem Alike.byClause {word : String} {part : Part (List α)}
    (h : ∀ us : List Token, us.length < ts.length →
      Alike (us.length + part.slack) (a part us) (b part us)) (hp : part.slack = 0) :
    Alike (ts.length + 1) (byClause a word part ts) (byClause b word part ts) := by
  unfold Grammar.byClause
  rcases takes_cases (.word word) ts with ⟨us, hu, hlt⟩ | hu <;> simp only [hu]
  · refine .skip fun vs hv => (h vs (Nat.lt_trans hv hlt)).mono ?_
    rw [hp]
    exact Nat.le_succ_of_le (Nat.le_of_lt (Nat.lt_trans hv hlt))
  · exact .some _ (Nat.lt_succ_self _)

theorem AlikeBelow.overRule (h : AlikeBelow (Part.depth .overClause ts) a b) :
    Alike (ts.length + 1) (overRule a ts) (overRule b ts) := by
  have hby : ∀ {γ : Type} (word : String) (part : Part (List γ)) {us : List Token},
      part.slack = 0 → us.length < ts.length →
      Alike (us.length + 1) (byClause a word part us) (byClause b word part us) :=
    fun word part us hp hu =>
      Alike.byClause (fun vs hv => h.shorter part (Nat.lt_trans hv hu)) hp
  unfold Grammar.overRule
  rcases takes_cases (.word "OVER") ts with ⟨us, hu, hlt⟩ | hu <;> simp only [hu]
  · refine .skip fun vs hv => ?_
    have hv : vs.length < ts.length := Nat.lt_trans hv hlt
    refine (hby "PARTITION" .list rfl hv).bind fun partitionBy ws hw => ?_
    have hw : ws.length < ts.length := Nat.lt_of_lt_of_le hw hv
    refine (hby "ORDER" .keys rfl hw).bind fun orderBy xs hx => .skip fun ys hy => .some _ ?_
    exact Nat.lt_succ_of_lt (Nat.lt_trans hy (Nat.lt_of_lt_of_le hx hw))
  · exact .some _ (Nat.lt_succ_self _)

theorem AlikeBelow.rule {p : Part α} (h : AlikeBelow (p.depth ts) a b) :
    Alike (ts.length + p.slack) (rule a p ts) (rule b p ts) := by
  cases p with
  | expression level => exact h.expressionRule
  | operand level => exact h.operandRule
  | applied name => exact h.appliedRule
  | continued level left => exact h.continuedRule
  | enclosed => exact h.enclosedRule
  | list => exact h.listRule
  | keys => exact h.keysRule
  | branches => exact h.branchesRule
  | filterClause => exact h.filterRule
  | overClause => exact h.overRule

theorem alikeBelow_readersTo {n m k : Nat} (hn : k ≤ n) (hm : k ≤ m) :
    AlikeBelow k (readersTo n) (readersTo m) := by
  induction k generalizing n m with
  | zero => exact fun _ q us hq => absurd hq (Nat.not_lt_zero _)
  | succ k ih =>
    intro β q us hq
    obtain ⟨n, rfl⟩ := Nat.exists_eq_succ_of_ne_zero (Nat.ne_zero_of_lt hn)
    obtain ⟨m, rfl⟩ := Nat.exists_eq_succ_of_ne_zero (Nat.ne_zero_of_lt hm)
    refine AlikeBelow.rule fun γ q' vs hv => ?_
    exact ih (Nat.le_of_succ_le_succ hn) (Nat.le_of_succ_le_succ hm) q' vs
      (Nat.lt_of_lt_of_le hv (Nat.le_of_lt_succ hq))

/-- A part is read by its rule. -/
theorem read_eq (p : Part α) (ts : List Token) : read p ts = rule read p ts := by
  refine (AlikeBelow.rule (a := readersTo (p.depth ts)) fun β q us hq => ?_).eq
  exact alikeBelow_readersTo hq (Nat.le_refl _) q us (Nat.lt_succ_self _)

end PlanSql.Sql.Grammar
