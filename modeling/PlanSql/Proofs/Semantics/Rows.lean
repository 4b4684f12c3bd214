import PlanSql.Proofs.Fragment.Clauses
import PlanSql.Proofs.Relation.Session
import PlanSql.Proofs.Semantics.Meaning

/-!
# Rows and where references find their values

A row is a list of values. A plan finds the value of a reference at the position that a header binds
it to, a statement at the first column of its source that the reference names.
-/
namespace PlanSql

/-- A table that a database holds. -/
structure Table (V : Type) where
  columns : List String
  rows : List (List V)
  shaped : ∀ row ∈ rows, row.length = columns.length

abbrev Database (V : Type) := String → Table V

/-- The tables of a relation have the columns that they are declared with. -/
def Relation.Declares {V : Type} (r : Relation) (db : Database V) : Prop :=
  ∀ n ∈ r.nodes, ∀ id name aliasName fields, n = .table id name aliasName fields →
    (db name).columns = fields.names

/-- The rows that are left after an offset is dropped, or as many of them as are counted out. -/
def cut {ρ : Type} (count : Option Nat) (offset : Nat) (rows : List ρ) : List ρ :=
  match count with
  | some n => (rows.drop offset).take n
  | none => rows.drop offset

@[simp] theorem cut_none {ρ : Type} (rows : List ρ) : cut none 0 rows = rows := rfl

theorem mem_of_mem_cut {ρ : Type} {count : Option Nat} {offset : Nat} {rows : List ρ} {x : ρ}
    (h : x ∈ cut count offset rows) : x ∈ rows := by
  cases count with
  | none => exact List.mem_of_mem_drop h
  | some n => exact List.mem_of_mem_drop (List.mem_of_mem_take h)

namespace Sql

/-- How a column of a source goes by: the item it comes from, and its name unless it has none. -/
abbrev Label := Option String × Option String

/-- Whether a reference names a column; without a qualifier it names columns of any item. -/
def Label.answers (label : Label) (ref : Expr.Reference) : Bool :=
  label.2 = some ref.2 && (ref.1.isNone || label.1 = ref.1)

/-- A source, evaluated: its columns and its rows. -/
structure Yield (R : Type) where
  labels : List Label
  rows : R

/-- The columns of a statement over a source, as columns of a derived table. -/
def SelectOver.labels {F : Type} (s : SelectOver F) (itemAlias : String)
    (source : List Label) : List Label :=
  match s.projection with
  | none => source.map fun label => (some itemAlias, label.2)
  | some items => items.map fun item => (some itemAlias, itemName? item)

/-- The row that a projection makes of a row of the source, given the values of expressions. -/
def SelectOver.output {F V : Type} (s : SelectOver F) (row : List V) (value : Expr → V) :
    List V :=
  match s.projection with
  | none => row
  | some items => items.map fun item => value item.expr

end Sql

namespace Meaning

variable {V : Type} (M : Meaning V)

/-- The value at a position of a row; it is absent where the row has ended. -/
def cell (row : List V) (index : Nat) : V := row.getD index M.null

/-- The value that a plan finds for a reference. -/
def look (h : Header) (ref : ColumnRef) (row : List V) : V :=
  match h.lookup ref with
  | .found index => M.cell row index
  | _ => M.null

/-- The value that the condition of a join finds for a reference. -/
def lookSide (left right : Header) (ref : ColumnRef) (pair : List V × List V) : V :=
  match resolveSide left right ref with
  | .ok (.left, index) => M.cell pair.1 index
  | .ok (.right, index) => M.cell pair.2 index
  | .error _ => M.null

/-- The value that a statement finds for a reference. -/
def lookLabel (labels : List Sql.Label) (ref : Sql.Expr.Reference) (row : List V) : V :=
  M.cell row (labels.findIdx (·.answers ref))

/-- All conditions hold. -/
def allHold {ε : Type} (value : ε → V) (conditions : List ε) : Bool :=
  conditions.all fun c => M.holds (value c)

end Meaning

/-- The value of an expression in a clause of a statement over a source. -/
def Sql.Yield.value {V R : Type} [DecidableEq V] (M : Meaning V) (source : Yield R)
    (frame : Multiset (Focus (List V))) (x : Focus (List V)) (e : Expr) : V :=
  e.eval M (M.lookLabel source.labels) frame x

namespace Meaning

variable {V : Type} (M : Meaning V)

theorem allHold_append {ε : Type} (value : ε → V) (cs ds : List ε) :
    M.allHold value (cs ++ ds) = (M.allHold value cs && M.allHold value ds) :=
  List.all_append

theorem cell_eq_of_getElem? {row : List V} {i : Nat} {v : V} (h : row[i]? = some v) :
    M.cell row i = v := by
  simp [cell, List.getD, h]

theorem cell_append_left {left right : List V} {i : Nat} (h : i < left.length) :
    M.cell (left ++ right) i = M.cell left i := by
  simp [cell, List.getD, List.getElem?_append_left h]

theorem cell_append_right {left right : List V} {n : Nat} (h : left.length = n) (i : Nat) :
    M.cell (left ++ right) (n + i) = M.cell right i := by
  subst h
  simp [cell, List.getD, List.getElem?_append_right (Nat.le_add_right _ i)]

end Meaning

namespace Sql

/-- The columns of an item of a FROM clause, by their names. -/
def Label.list (itemAlias : String) (names : List String) : List Label :=
  names.map fun name => (some itemAlias, some name)

@[simp] theorem Label.length_list (itemAlias : String) (names : List String) :
    (Label.list itemAlias names).length = names.length :=
  List.length_map _

/-- A reference finds the one column of an item that has the name. -/
theorem findIdx_answers {names : List String} (hd : names.Nodup) {itemAlias name : String}
    {q : Option String} (hq : q = none ∨ q = some itemAlias) {i : Nat}
    (hi : names[i]? = some name) :
    (Label.list itemAlias names).findIdx (·.answers (q, name)) = i := by
  obtain ⟨hlt, hn⟩ := List.getElem?_eq_some_iff.mp hi
  have hlen : i < (Label.list itemAlias names).length := by simpa [Label.list] using hlt
  refine (List.findIdx_eq hlen).mpr ⟨?_, fun j hj => ?_⟩
  · rcases hq with rfl | rfl <;> simp [Label.list, Label.answers, hn]
  · have hne : names[j] ≠ name := by
      intro h
      have := (List.Nodup.getElem_inj_iff hd).mp (h.trans hn.symm)
      omega
    simp [Label.list, Label.answers, hne]

/-- A reference under the alias of an item finds nothing in an item of another alias. -/
theorem answers_eq_false (names : List String) {itemAlias other : String} (h : itemAlias ≠ other)
    (name : String) :
    ∀ label ∈ Label.list itemAlias names, label.answers (some other, name) = false := by
  simp [Label.list, Label.answers, h]

end Sql

namespace Meaning

variable {V : Type} (M : Meaning V)

theorem lookLabel_list {names : List String} (hd : names.Nodup) {itemAlias name : String}
    {q : Option String} (hq : q = none ∨ q = some itemAlias) {i : Nat}
    (hi : names[i]? = some name) (row : List V) :
    M.lookLabel (Sql.Label.list itemAlias names) (q, name) row = M.cell row i := by
  rw [lookLabel, Sql.findIdx_answers hd hq hi]

/-- In a joined row a reference under the alias of the left item finds what it finds in the row of
the left side. -/
theorem lookLabel_left {names : List String} {itemAlias name : String} (hn : name ∈ names)
    (labels : List Sql.Label) {left : List V} (hl : left.length = names.length)
    (right : List V) :
    M.lookLabel (Sql.Label.list itemAlias names ++ labels) (some itemAlias, name) (left ++ right) =
      M.lookLabel (Sql.Label.list itemAlias names) (some itemAlias, name) left := by
  have hlt : (Sql.Label.list itemAlias names).findIdx (·.answers (some itemAlias, name)) <
      (Sql.Label.list itemAlias names).length :=
    List.findIdx_lt_length_of_exists
      ⟨(some itemAlias, some name), List.mem_map.mpr ⟨name, hn, rfl⟩, by simp [Sql.Label.answers]⟩
  rw [lookLabel, lookLabel, List.findIdx_append, if_pos hlt]
  exact M.cell_append_left (by rwa [hl, ← Sql.Label.length_list itemAlias])

theorem lookLabel_right {names others : List String} {itemAlias other : String}
    (hne : other ≠ itemAlias) (name : String) {left : List V} (hl : left.length = others.length)
    (right : List V) :
    M.lookLabel (Sql.Label.list other others ++ Sql.Label.list itemAlias names)
        (some itemAlias, name) (left ++ right) =
      M.lookLabel (Sql.Label.list itemAlias names) (some itemAlias, name) right := by
  have hnone := List.findIdx_eq_length_of_false
    (Sql.answers_eq_false others hne name)
  rw [lookLabel, lookLabel, List.findIdx_append, hnone, if_neg (lt_irrefl _), Nat.add_comm]
  exact M.cell_append_right (by rw [hl, Sql.Label.length_list]) _

/-- Looked up by all names in turn, a row is what it was. -/
theorem map_lookLabel_list (itemAlias : String) {names : List String} (hd : names.Nodup)
    {q : Option String} (hq : q = none ∨ q = some itemAlias) {row : List V}
    (hl : row.length = names.length) :
    names.map (fun name => M.lookLabel (Sql.Label.list itemAlias names) (q, name) row) = row := by
  apply List.ext_getElem (by simp [hl])
  intro i hi hi'
  have hlt : i < names.length := by simpa using hi
  rw [List.getElem_map, M.lookLabel_list hd hq (List.getElem?_eq_getElem hlt)]
  exact M.cell_eq_of_getElem? (List.getElem?_eq_getElem hi')

theorem map_lookLabel_append {names others : List String} (hd : names.Nodup) (ho : others.Nodup)
    {itemAlias other : String} (hne : itemAlias ≠ other) {row : List V}
    (hl : row.length = names.length + others.length) :
    let labels := Sql.Label.list itemAlias names ++ Sql.Label.list other others
    names.map (fun name => M.lookLabel labels (some itemAlias, name) row) ++
      others.map (fun name => M.lookLabel labels (some other, name) row) = row := by
  intro labels
  obtain ⟨left, right, rfl, hx⟩ : ∃ left right, left ++ right = row ∧
      left.length = names.length :=
    ⟨row.take names.length, row.drop names.length, List.take_append_drop _ _, by simp [hl]⟩
  have hy : right.length = others.length := by
    rw [List.length_append, hx] at hl
    omega
  congr 1
  · refine (List.map_congr_left fun name hn => M.lookLabel_left hn _ hx right).trans ?_
    exact M.map_lookLabel_list itemAlias hd (.inr rfl) hx
  · refine (List.map_congr_left fun name _ => M.lookLabel_right hne name hx right).trans ?_
    exact M.map_lookLabel_list other ho (.inr rfl) hy

end Meaning

end PlanSql
