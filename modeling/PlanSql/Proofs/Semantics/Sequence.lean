import PlanSql.Proofs.Semantics.Rows
import PlanSql.Proofs.Semantics.StableSort

/-!
# Rows in order

What plans and statements are worth as lists of rows. The order of rows is known of plans made of
tables, projections, filters, sorts and limits, and of statements that do nothing but select from a
table or a derived table, filter by WHERE, sort stably by ORDER BY, show the items of the projection
and drop and count out rows. A derived table has its rows in the order of its statement.
-/
namespace PlanSql

/-- How sort keys order values, ascending and descending. -/
structure KeyOrder (V : Type) where
  le (descending : Bool) : V → V → Bool
  orders (descending : Bool) : Orders (le descending)

namespace KeyOrder

variable {V ε ε' ρ ρ' : Type} (o : KeyOrder V)

/-- Whether one row may stand before another: the first key that tells them apart decides. -/
def before (value : ε → ρ → V) : List (SortKey ε) → ρ → ρ → Bool
  | [] => fun _ _ => true
  | k :: ks =>
    thenBy (fun x y => o.le k.descending (value k.expr x) (value k.expr y)) (before value ks)

/-- Rows in the order of the keys; rows with equal keys stay in the order they were in. -/
def sorted (value : ε → ρ → V) (keys : List (SortKey ε)) (rows : List ρ) : List ρ :=
  rows.mergeSort (o.before value keys)

theorem orders_before (value : ε → ρ → V) (keys : List (SortKey ε)) :
    Orders (o.before value keys) := by
  induction keys with
  | nil => exact ⟨fun _ _ => rfl, fun _ _ _ _ _ => rfl⟩
  | cons k ks ih =>
    have hk := o.orders k.descending
    exact Orders.thenBy ⟨fun _ _ => hk.total _ _, fun _ _ _ => hk.trans _ _ _⟩ ih

theorem before_append (value : ε → ρ → V) (ks ls : List (SortKey ε)) :
    o.before value (ks ++ ls) = thenBy (o.before value ks) (o.before value ls) := by
  induction ks with
  | nil => rfl
  | cons k ks ih => rw [List.cons_append, before, ih, ← thenBy_assoc, before]

@[simp] theorem sorted_nil (value : ε → ρ → V) (rows : List ρ) : o.sorted value [] rows = rows :=
  List.mergeSort_of_pairwise (List.pairwise_of_forall fun _ _ => rfl)

theorem mem_sorted {value : ε → ρ → V} {keys : List (SortKey ε)} {rows : List ρ} {x : ρ} :
    x ∈ o.sorted value keys rows ↔ x ∈ rows :=
  List.mem_mergeSort

/-- Sorting by keys that stand before others comes after sorting by the others. -/
theorem sorted_append (value : ε → ρ → V) (ks ls : List (SortKey ε)) (rows : List ρ) :
    o.sorted value (ks ++ ls) rows = o.sorted value ks (o.sorted value ls rows) := by
  unfold sorted
  rw [before_append]
  exact ((o.orders_before value ks).mergeSort_mergeSort (o.orders_before value ls) rows).symm

theorem filter_sorted (value : ε → ρ → V) (keys : List (SortKey ε)) (p : ρ → Bool)
    (rows : List ρ) : (o.sorted value keys rows).filter p = o.sorted value keys (rows.filter p) :=
  (o.orders_before value keys).filter_mergeSort p rows

theorem before_congr {value : ε → ρ → V} {value' : ε' → ρ' → V} (f : ρ → ρ')
    {keys : List (SortKey ε)} {keys' : List (SortKey ε')}
    (h : List.Forall₂ (fun k k' => k'.descending = k.descending ∧
      ∀ x, value' k'.expr (f x) = value k.expr x) keys keys') (x y : ρ) :
    o.before value' keys' (f x) (f y) = o.before value keys x y := by
  induction h with
  | nil => rfl
  | @cons k k' ks ks' hk _ ih =>
    obtain ⟨hd, hv⟩ := hk
    simp only [before, thenBy, hd, hv, ih]

/-- Sorting what rows stand for by keys of the same values gives what the sorted rows stand for. -/
theorem map_sorted {value : ε → ρ → V} {value' : ε' → ρ' → V} (f : ρ → ρ')
    {keys : List (SortKey ε)} {keys' : List (SortKey ε')}
    (h : List.Forall₂ (fun k k' => k'.descending = k.descending ∧
      ∀ x, value' k'.expr (f x) = value k.expr x) keys keys') (rows : List ρ) :
    (o.sorted value keys rows).map f = o.sorted value' keys' (rows.map f) :=
  List.map_mergeSort fun x _ y _ => (o.before_congr f h x y).symm

/-- The order of ranks, and the other way around for descending keys. -/
def ofRank (rank : V → Int) : KeyOrder V where
  le descending v w := if descending then rank w ≤ rank v else rank v ≤ rank w
  orders descending := by
    cases descending with
    | false =>
      refine ⟨fun v w => ?_, fun u v w huv hvw => ?_⟩
      · have := Int.le_total (rank v) (rank w)
        simpa using this
      · simp only [Bool.false_eq_true, if_false, decide_eq_true_eq] at huv hvw ⊢
        omega
    | true =>
      refine ⟨fun v w => ?_, fun u v w huv hvw => ?_⟩
      · have := Int.le_total (rank w) (rank v)
        simpa using this
      · simp only [if_true, decide_eq_true_eq] at huv hvw ⊢
        omega

end KeyOrder

variable {V : Type} [DecidableEq V]

section

variable (M : Meaning V) (o : KeyOrder V) (db : Database V)

/-- The rows of a plan in their order, if the order is known. -/
def Relation.sequence : Relation → Option (List (List V))
  | .table _ name _ _ => some (db name).rows
  | .project _ input exprs =>
    input.sequence.map fun rows => rows.map fun row =>
      exprs.map fun n => n.expr.eval M (M.look input.header) 0 (.single row)
  | .filter _ input conditions =>
    input.sequence.map fun rows => rows.filter fun row =>
      M.allHold (Expr.eval M (M.look input.header) 0 · (.single row)) conditions
  | .sort _ input keys =>
    input.sequence.map fun rows =>
      o.sorted (fun e row => e.eval M (M.look input.header) 0 (.single row)) keys rows
  | .limit _ input count offset => input.sequence.map (cut count offset)
  | .aggregate _ _ _ _ _ | .join _ _ _ _ _ | .window _ _ _ | .distinct _ _ => none

namespace Sql

namespace SelectOver

variable {F : Type} (s : SelectOver F) (source : Yield (List (List V)))

/-- A statement that keeps the order of rows or says what it is: it has none of the other clauses,
and all of its expressions are about single rows. -/
def isListing : Bool :=
  !s.distinct && s.groupBy.isEmpty && s.having.isEmpty && s.qualify.isEmpty &&
    s.expressions.all Expr.isRowLevel

/-- The rows that WHERE lets through, in the order of ORDER BY. -/
def ordered : List (List V) :=
  o.sorted (fun e row => source.value M 0 (.single row) e) s.orderBy <|
    source.rows.filter fun row => M.allHold (source.value M 0 (.single row)) s.selection

/-- The rows of a statement over an evaluated source, in their order. -/
def sequenceOver : Option (List (List V)) :=
  if s.isListing then
    some <| cut s.limit s.offset <| (s.ordered M o source).map fun row =>
      s.output row (source.value M 0 (.single row))
  else none

end SelectOver

/-- A source whose order is known, evaluated. -/
def FromItem.sequence : FromItem → Option (Yield (List (List V)))
  | .table name aliasName =>
    some ⟨Label.list (aliasName.getD name) (db name).columns, (db name).rows⟩
  | .derived ⟨distinct, projection, source, selection, groupBy, having, qualify, orderBy, limit,
      offset⟩ itemAlias =>
    let s : Select :=
      ⟨distinct, projection, source, selection, groupBy, having, qualify, orderBy, limit, offset⟩
    source.sequence.bind fun inner =>
      (s.sequenceOver M o inner).map (Yield.mk (s.labels itemAlias inner.labels))
  | .join _ _ _ _ => none

/-- The rows of a statement in their order, if the order is known. -/
def Select.sequence (s : Select) : Option (List (List V)) :=
  (s.source.sequence M o db).bind (s.sequenceOver M o)

end Sql

end

/-- A derived table has the rows of its statement. -/
theorem Sql.FromItem.sequence_derived {M : Meaning V} {o : KeyOrder V} {db : Database V}
    (s : Select) (itemAlias : String) : (FromItem.derived s itemAlias).sequence M o db =
      (s.source.sequence M o db).bind fun inner =>
        (s.sequenceOver M o inner).map (Yield.mk (s.labels itemAlias inner.labels)) := by
  cases s
  rfl

end PlanSql
