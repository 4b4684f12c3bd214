import PlanSql.Proofs.Sql.Wording

/-!
# Names, strings and shapes

The names and strings of a statement in the order in which it is written, and its shape, which is
the statement with every name and string empty. The quoted pieces of a statement are its names and
strings, and pieces of statements of one shape differ between quotes only.
-/
namespace PlanSql.Sql

namespace Piece

variable {ps : List Piece}

@[simp] theorem quoted_parens : (parens ps).flatMap quoted = ps.flatMap quoted := by
  simp [parens, quoted]

@[simp] theorem quoted_parensIf (b : Bool) : (parensIf b ps).flatMap quoted = ps.flatMap quoted := by
  cases b <;> simp [parensIf]

@[simp] theorem quoted_around (text : String) : (around text).flatMap quoted = [] := rfl

theorem quoted_separated {separator : List Piece} (hs : separator.flatMap quoted = [])
    (groups : List (List Piece)) :
    (separated separator groups).flatMap quoted = groups.flatMap fun ps => ps.flatMap quoted := by
  induction groups with
  | nil => rfl
  | cons group rest ih =>
    cases rest with
    | nil => simp [separated]
    | cons next rest => simp [separated, hs, ih]

@[simp] theorem kind_parens : (parens ps).map kind = parens (ps.map kind) := by
  simp [parens, kind]

@[simp] theorem kind_parensIf (b : Bool) :
    (parensIf b ps).map kind = parensIf b (ps.map kind) := by
  cases b <;> simp [parensIf]

theorem kind_separated (separator : List Piece) (groups : List (List Piece)) :
    (separated separator groups).map kind =
      separated (separator.map kind) (groups.map fun ps => ps.map kind) := by
  induction groups with
  | nil => rfl
  | cons group rest ih =>
    cases rest with
    | nil => rfl
    | cons next rest => simp [separated, ih]

theorem kind_separated_congr {separator : List Piece} {groups groups' : List (List Piece)}
    (h : groups.map (List.map kind) = groups'.map (List.map kind)) :
    (separated separator groups).map kind = (separated separator groups').map kind := by
  rw [kind_separated, kind_separated]
  exact congrArg _ h

end Piece

open Piece

namespace Expr

/-- The names and strings of a node itself. -/
def ownQuoted : Expr → List Token
  | .column none name => [.identifier name]
  | .column (some qualifier) name => [.identifier qualifier, .identifier name]
  | .literal (.value (.text s)) => [.string s]
  | .literal (.value (.date t)) => [.string t.text]
  | .literal (.value (.timestamp t)) => [.string t.text]
  | _ => []

/-- The names and strings of an expression, left to right. -/
def quoted (e : Expr) : List Token := e.parts.flatMap ownQuoted

mutual

/-- An expression with every name and string empty. -/
def shape : Expr → Expr
  | .column qualifier _ => .column (qualifier.map fun _ => "") ""
  | .literal (.value (.text _)) => .value (.text "")
  | .literal l => .literal l
  | .star => .star
  | .unary op operand => .unary op operand.shape
  | .binary op left right => .binary op left.shape right.shape
  | .call name args distinct filter window =>
    .call name (shapeAll args) distinct (shapeOption filter) (shapeOver window)
  | .extract field operand => .extract field operand.shape
  | .case branches otherwise => .case (shapeBranches branches) (shapeOption otherwise)
  | .inList operand list negated => .inList operand.shape (shapeAll list) negated
  | .isNull operand negated => .isNull operand.shape negated
  | .cast operand typeName => .cast operand.shape typeName

def shapeAll : List Expr → List Expr
  | [] => []
  | e :: rest => e.shape :: shapeAll rest

def shapeOption : Option Expr → Option Expr
  | none => none
  | some e => some e.shape

def shapeBranches : List (Expr × Expr) → List (Expr × Expr)
  | [] => []
  | (condition, result) :: rest => (condition.shape, result.shape) :: shapeBranches rest

def shapeOver : Option (Over Expr) → Option (Over Expr)
  | none => none
  | some ⟨partitionBy, orderBy⟩ => some ⟨shapeAll partitionBy, shapeKeys orderBy⟩

def shapeKeys : List (SortKey Expr) → List (SortKey Expr)
  | [] => []
  | ⟨e, descending⟩ :: rest => ⟨e.shape, descending⟩ :: shapeKeys rest

end

variable {d : Descriptor}

theorem quoted_eq (e : Expr) : e.quoted = e.ownQuoted ++ e.children.flatMap quoted := by
  unfold quoted
  rw [parts_eq, List.flatMap_cons, List.flatMap_assoc]

theorem quoted_listPieces (es : List Expr) :
    (listPieces d es).flatMap Piece.quoted = es.flatMap fun e => (e.pieces d).flatMap Piece.quoted := by
  rw [listPieces_eq, quoted_separated rfl, List.flatMap_map]

theorem quoted_keyPieces (keys : List (SortKey Expr)) :
    (keyPieces d keys).flatMap Piece.quoted =
      keys.flatMap fun k => (k.expr.pieces d).flatMap Piece.quoted := by
  rw [keyPieces_eq, quoted_separated rfl, List.flatMap_map]
  exact List.flatMap_congr fun k _ => by simp [SortKey.directed, Piece.quoted]

theorem quoted_overPieces (window : Option (Over Expr)) :
    (overPieces d window).flatMap Piece.quoted =
      (window.toList.flatMap Over.keys).flatMap fun e => (e.pieces d).flatMap Piece.quoted := by
  cases window with
  | none => rfl
  | some w =>
    obtain ⟨partitionBy, orderBy⟩ := w
    have hpartition : (if partitionBy.isEmpty then []
          else .word "PARTITION" :: .space :: .word "BY" :: .space :: listPieces d partitionBy).flatMap
        Piece.quoted = partitionBy.flatMap fun e => (e.pieces d).flatMap Piece.quoted := by
      cases partitionBy
      · rfl
      · simp [quoted_listPieces, Piece.quoted]
    have horder : (if orderBy.isEmpty then []
          else .word "ORDER" :: .space :: .word "BY" :: .space :: keyPieces d orderBy).flatMap
        Piece.quoted = orderBy.flatMap fun k => (k.expr.pieces d).flatMap Piece.quoted := by
      cases orderBy
      · rfl
      · simp [quoted_keyPieces, Piece.quoted]
    have hspace : (if partitionBy.isEmpty || orderBy.isEmpty then [] else [.space]).flatMap
        Piece.quoted = [] := by
      split <;> rfl
    simp only [overPieces, List.flatMap_cons, quoted_parens, List.flatMap_append, hpartition, horder,
      hspace]
    simp [Piece.quoted, Over.keys, List.flatMap_map]

theorem quoted_branchPieces (branches : List (Expr × Expr)) :
    (branchPieces d branches).flatMap Piece.quoted = branches.flatMap fun b =>
      (b.1.pieces d).flatMap Piece.quoted ++ (b.2.pieces d).flatMap Piece.quoted := by
  induction branches with
  | nil => rfl
  | cons b rest ih => simp [branchPieces, ih]

theorem quoted_negation (negated : Bool) : (negation negated).flatMap Piece.quoted = [] := by
  cases negated <;> rfl

/-- The quoted pieces of an expression are its names and strings. -/
theorem quoted_pieces (e : Expr) : (e.pieces d).flatMap Piece.quoted = e.quoted := by
  induction e using induct with
  | step e ih =>
    rw [quoted_eq, ← List.flatMap_congr ih]
    cases e with
    | column q n => cases q <;> rfl
    | literal l =>
      cases l with
      | number text => rfl
      | value v =>
        cases v with
        | bool b => cases b <;> rfl
        | date t | timestamp t =>
          simp only [pieces, Literal.pieces, temporalPieces]
          split <;> simp [Piece.quoted, ownQuoted, children]
        | _ => rfl
    | star => rfl
    | unary op operand => cases op <;> simp [pieces, unaryPieces, Piece.quoted, ownQuoted, children]
    | binary op left right =>
      cases op <;> simp [pieces, operatorPiece, Piece.quoted, ownQuoted, children]
    | call name args distinct filter window =>
      have hdistinct : (if distinct then [.word "DISTINCT", .space] else []).flatMap Piece.quoted =
          [] := by
        cases distinct <;> rfl
      have hfilter : (filterPieces d filter).flatMap Piece.quoted =
          filter.toList.flatMap fun e => (e.pieces d).flatMap Piece.quoted := by
        cases filter <;> simp [filterPieces, Piece.quoted]
      simp [pieces, quoted_listPieces, quoted_overPieces, hdistinct, hfilter, Piece.quoted,
        ownQuoted, children, List.flatMap_assoc]
    | extract field operand => simp [pieces, Piece.quoted, ownQuoted, children]
    | case branches otherwise =>
      cases otherwise <;>
        simp [pieces, elsePieces, quoted_branchPieces, Piece.quoted, ownQuoted, children,
          List.flatMap_assoc]
    | inList operand list negated =>
      simp [pieces, quoted_listPieces, quoted_negation, Piece.quoted, ownQuoted, children]
    | isNull operand negated =>
      simp [pieces, quoted_negation, Piece.quoted, ownQuoted, children]
    | cast operand typeName => simp [pieces, Piece.quoted, ownQuoted, children]

@[simp] theorem isOpen_shape (e : Expr) : e.shape.isOpen = e.isOpen := by
  cases e with
  | literal l =>
    unfold shape
    split <;> simp_all [isOpen, value]
  | _ => rfl

@[simp] theorem standsAfter_shape (op : UnaryOp) (e : Expr) :
    e.shape.standsAfter op = e.standsAfter op := by
  cases e with
  | literal l =>
    unfold shape
    split <;> simp_all [standsAfter, isAtomic, isLogical, isLiteral, value]
  | _ => rfl

theorem isEmpty_shapeAll (es : List Expr) : (shapeAll es).isEmpty = es.isEmpty := by
  cases es <;> rfl

theorem isEmpty_shapeKeys (keys : List (SortKey Expr)) :
    (shapeKeys keys).isEmpty = keys.isEmpty := by
  cases keys <;> rfl

mutual

/-- The pieces of expressions of one shape are of the same kinds. -/
theorem kind_pieces (d : Descriptor) : ∀ e : Expr,
    (e.shape.pieces d).map kind = (e.pieces d).map kind
  | .column q _ => by cases q <;> rfl
  | .literal l => by
    unfold shape
    split <;> simp_all [pieces, value, Literal.pieces, kind]
  | .star => rfl
  | .unary op operand => by simp [shape, pieces, kind_pieces d operand]
  | .binary op left right => by
    simp [shape, pieces, kind_pieces d left, kind_pieces d right]
  | .call name args distinct filter window => by
    simp [shape, pieces, kind_listPieces d args, kind_filterPieces d filter,
      kind_overPieces d window]
  | .extract field operand => by simp [shape, pieces, kind_pieces d operand]
  | .case branches otherwise => by
    simp [shape, pieces, kind_branchPieces d branches, kind_elsePieces d otherwise]
  | .inList operand list negated => by
    simp [shape, pieces, kind_pieces d operand, kind_listPieces d list]
  | .isNull operand negated => by simp [shape, pieces, kind_pieces d operand]
  | .cast operand typeName => by simp [shape, pieces, kind_pieces d operand]

theorem kind_listPieces (d : Descriptor) : ∀ es : List Expr,
    (listPieces d (shapeAll es)).map kind = (listPieces d es).map kind
  | [] => rfl
  | [e] => by simp [shapeAll, listPieces, kind_pieces d e]
  | e :: next :: rest => by
    have ih := kind_listPieces d (next :: rest)
    simp only [shapeAll] at ih
    simp [shapeAll, listPieces, kind_pieces d e, ih]

theorem kind_filterPieces (d : Descriptor) : ∀ filter : Option Expr,
    (filterPieces d (shapeOption filter)).map kind = (filterPieces d filter).map kind
  | none => rfl
  | some e => by simp [shapeOption, filterPieces, kind_pieces d e]

theorem kind_overPieces (d : Descriptor) : ∀ window : Option (Over Expr),
    (overPieces d (shapeOver window)).map kind = (overPieces d window).map kind
  | none => rfl
  | some ⟨partitionBy, orderBy⟩ => by
    simp only [shapeOver, overPieces, List.map_cons, kind_parens, List.map_append,
      isEmpty_shapeAll, isEmpty_shapeKeys, apply_ite (List.map kind), List.map_nil,
      kind_listPieces d partitionBy, kind_keyPieces d orderBy]

theorem kind_keyPieces (d : Descriptor) : ∀ keys : List (SortKey Expr),
    (keyPieces d (shapeKeys keys)).map kind = (keyPieces d keys).map kind
  | [] => rfl
  | [⟨e, descending⟩] => by simp [shapeKeys, keyPieces, SortKey.directed, kind_pieces d e]
  | ⟨e, descending⟩ :: next :: rest => by
    have ih := kind_keyPieces d (next :: rest)
    simp only [shapeKeys] at ih
    simp [shapeKeys, keyPieces, SortKey.directed, kind_pieces d e, ih]

theorem kind_branchPieces (d : Descriptor) : ∀ branches : List (Expr × Expr),
    (branchPieces d (shapeBranches branches)).map kind = (branchPieces d branches).map kind
  | [] => rfl
  | (condition, result) :: rest => by
    simp [shapeBranches, branchPieces, kind_pieces d condition, kind_pieces d result,
      kind_branchPieces d rest]

theorem kind_elsePieces (d : Descriptor) : ∀ otherwise : Option Expr,
    (elsePieces d (shapeOption otherwise)).map kind = (elsePieces d otherwise).map kind
  | none => rfl
  | some e => by simp [shapeOption, elsePieces, kind_pieces d e]

end

end Expr

/-- The names and strings of an item of a projection. -/
def SelectItem.quoted (item : SelectItem) : List Token :=
  item.expr.quoted ++ item.aliasName.toList.map Token.identifier

def SelectItem.shape (item : SelectItem) : SelectItem :=
  ⟨item.expr.shape, item.aliasName.map fun _ => ""⟩

namespace SelectOver

variable {F : Type} {d : Descriptor}

/-- The names and strings of a statement around those of its source. -/
def quotedAround (s : SelectOver F) (source : List Token) : List Token :=
  (s.projection.getD []).flatMap SelectItem.quoted ++ source ++ s.selection.flatMap Expr.quoted
    ++ s.groupBy.flatMap Expr.quoted ++ s.having.flatMap Expr.quoted
    ++ s.qualify.flatMap Expr.quoted ++ s.orderBy.flatMap fun k => k.expr.quoted

/-- The shape of a statement around that of its source. -/
def shapeAround (s : SelectOver F) (source : F) : SelectOver F where
  distinct := s.distinct
  projection := s.projection.map fun items => items.map SelectItem.shape
  source := source
  selection := Expr.shapeAll s.selection
  groupBy := Expr.shapeAll s.groupBy
  having := Expr.shapeAll s.having
  qualify := Expr.shapeAll s.qualify
  orderBy := Expr.shapeKeys s.orderBy
  limit := s.limit
  offset := s.offset

end SelectOver

/-- The names and strings of a source. -/
def FromItem.quoted : FromItem → List Token
  | .table name aliasName => .identifier name :: aliasName.toList.map Token.identifier
  | .derived s aliasName => s.quotedAround (FromItem.quoted s.source) ++ [.identifier aliasName]
  | .join left right _ on => left.quoted ++ right.quoted ++ on.flatMap Expr.quoted

/-- A source with every name and string empty. -/
def FromItem.shape : FromItem → FromItem
  | .table _ aliasName => .table "" (aliasName.map fun _ => "")
  | .derived s _ => .derived (s.shapeAround (FromItem.shape s.source)) ""
  | .join left right op on => .join left.shape right.shape op (Expr.shapeAll on)

namespace Select

/-- The names and strings of a statement, as they follow each other in its text. -/
def quoted (s : Select) : List Token := s.quotedAround s.source.quoted

/-- A statement with every name and string empty. -/
def shape (s : Select) : Select := s.shapeAround s.source.shape

end Select

variable {d : Descriptor}

theorem quoted_conjunctionPieces (es : List Expr) :
    (conjunctionPieces d es).flatMap Piece.quoted = es.flatMap Expr.quoted := by
  rw [conjunctionPieces, quoted_separated (quoted_around "AND"), List.flatMap_map]
  exact List.flatMap_congr fun e _ => Expr.quoted_pieces e

theorem quoted_clausePieces (keywords : List String) (content : List Piece) :
    (clausePieces keywords content).flatMap Piece.quoted = content.flatMap Piece.quoted := by
  have hwords : (separated [.space] (keywords.map fun k => [.word k])).flatMap Piece.quoted = [] := by
    rw [quoted_separated rfl, List.flatMap_map]
    simp [Piece.quoted]
  simp [clausePieces, hwords, Piece.quoted]

theorem quoted_clauseUnless {α : Type} (es : List α) (keywords : List String)
    {content : List Piece} {ts : List Token} (hc : content.flatMap Piece.quoted = ts)
    (hn : es = [] → ts = []) :
    (clauseUnless es.isEmpty keywords content).flatMap Piece.quoted = ts := by
  cases es with
  | nil => simp [clauseUnless, hn]
  | cons e es => simpa [clauseUnless, quoted_clausePieces] using hc

theorem quoted_limitPieces (limit : Option Nat) (offset : Nat) :
    (limitPieces d limit offset).flatMap Piece.quoted = [] := by
  have hcount : ∀ n, (countPiece n).flatMap Piece.quoted = [] := fun _ => rfl
  unfold limitPieces
  repeat' split
  all_goals simp [quoted_clausePieces, hcount, Piece.quoted]

theorem quoted_aliasPieces (aliasName : Option String) :
    (aliasPieces aliasName).flatMap Piece.quoted = aliasName.toList.map Token.identifier := by
  cases aliasName <;> rfl

theorem SelectOver.quoted_piecesAround {F : Type} (s : SelectOver F) (source : List Piece) :
    (s.piecesAround d source).flatMap Piece.quoted =
      s.quotedAround (source.flatMap Piece.quoted) := by
  have hdistinct : (if s.distinct then [.word "DISTINCT", .space] else []).flatMap Piece.quoted =
      [] := by
    cases s.distinct <;> rfl
  have hprojection : (projectionPieces d s.projection).flatMap Piece.quoted =
      (s.projection.getD []).flatMap SelectItem.quoted := by
    cases s.projection with
    | none => rfl
    | some items =>
      rw [projectionPieces, quoted_separated rfl, List.flatMap_map]
      refine List.flatMap_congr fun item _ => ?_
      rw [SelectItem.pieces, List.flatMap_append, Expr.quoted_pieces, quoted_aliasPieces,
        SelectItem.quoted]
  have hgroup : (Expr.listPieces d s.groupBy).flatMap Piece.quoted =
      s.groupBy.flatMap Expr.quoted := by
    rw [Expr.quoted_listPieces]
    exact List.flatMap_congr fun e _ => Expr.quoted_pieces e
  have horder : (Expr.keyPieces d s.orderBy).flatMap Piece.quoted =
      s.orderBy.flatMap fun k => k.expr.quoted := by
    rw [Expr.quoted_keyPieces]
    exact List.flatMap_congr fun k _ => Expr.quoted_pieces k.expr
  have hconjuncts := fun (es : List Expr) (keywords : List String) =>
    quoted_clauseUnless es keywords (quoted_conjunctionPieces (d := d) es) fun h => by simp [h]
  have hgroup' := quoted_clauseUnless s.groupBy ["GROUP", "BY"] hgroup fun h => by simp [h]
  have horder' := quoted_clauseUnless s.orderBy ["ORDER", "BY"] horder fun h => by simp [h]
  simp only [piecesAround, quotedAround, List.flatMap_append, List.flatMap_cons, hdistinct,
    hprojection, quoted_clausePieces, hconjuncts, hgroup', horder', quoted_limitPieces]
  simp [Piece.quoted]

/-- The quoted pieces of a source are its names and strings. -/
theorem FromItem.quoted_pieces : ∀ source : FromItem,
    (source.pieces d).flatMap Piece.quoted = source.quoted
  | .table name aliasName => by
    simp [pieces, quoted, quoted_aliasPieces, Piece.quoted]
  | .derived s aliasName => by
    rw [pieces, quoted, List.flatMap_append, quoted_parens, s.quoted_piecesAround,
      quoted_pieces s.source, quoted_aliasPieces]
    rfl
  | .join left right op on => by
    have hon := quoted_clauseUnless on ["ON"] (quoted_conjunctionPieces (d := d) on) fun h => by
      simp [h]
    rw [pieces, quoted, List.flatMap_append, List.flatMap_append, quoted_pieces left,
      quoted_clausePieces, quoted_pieces right, hon]

theorem Select.quoted_pieces (s : Select) :
    (Select.pieces d s).flatMap Piece.quoted = s.quoted := by
  rw [pieces, s.quoted_piecesAround, FromItem.quoted_pieces, quoted]

theorem kind_conjunctionPieces (es : List Expr) :
    (conjunctionPieces d (Expr.shapeAll es)).map kind = (conjunctionPieces d es).map kind := by
  refine kind_separated_congr ?_
  induction es with
  | nil => rfl
  | cons e rest ih => simp_all [Expr.shapeAll, Expr.kind_pieces d e]

theorem kind_clausePieces {keywords : List String} {content content' : List Piece}
    (h : content.map kind = content'.map kind) :
    (clausePieces keywords content).map kind = (clausePieces keywords content').map kind := by
  simp [clausePieces, h]

theorem kind_clauseUnless {isEmpty : Bool} {keywords : List String}
    {content content' : List Piece} (h : content.map kind = content'.map kind) :
    (clauseUnless isEmpty keywords content).map kind =
      (clauseUnless isEmpty keywords content').map kind := by
  cases isEmpty
  · exact kind_clausePieces h
  · rfl

theorem kind_aliasPieces (aliasName : Option String) :
    (aliasPieces (aliasName.map fun _ => "")).map kind = (aliasPieces aliasName).map kind := by
  cases aliasName <;> rfl

theorem SelectOver.kind_piecesAround {F : Type} (s : SelectOver F) (source : F)
    {ps qs : List Piece} (h : ps.map kind = qs.map kind) :
    ((s.shapeAround source).piecesAround d ps).map kind = (s.piecesAround d qs).map kind := by
  have hprojection : (projectionPieces d (s.projection.map fun items =>
      items.map SelectItem.shape)).map kind = (projectionPieces d s.projection).map kind := by
    cases s.projection with
    | none => rfl
    | some items =>
      refine kind_separated_congr ?_
      simp only [List.map_map]
      refine List.map_congr_left fun item _ => ?_
      simp [SelectItem.pieces, SelectItem.shape, Expr.kind_pieces, kind_aliasPieces]
  simp only [piecesAround, shapeAround, List.map_append, List.map_cons, hprojection,
    Expr.isEmpty_shapeAll, Expr.isEmpty_shapeKeys, kind_clausePieces h,
    kind_clauseUnless (kind_conjunctionPieces (d := d) _),
    kind_clauseUnless (Expr.kind_listPieces d _), kind_clauseUnless (Expr.kind_keyPieces d _)]
  rfl

/-- The pieces of sources of one shape are of the same kinds. -/
theorem FromItem.kind_pieces (d : Descriptor) : ∀ source : FromItem,
    (source.shape.pieces d).map kind = (source.pieces d).map kind
  | .table name aliasName => by simp [shape, pieces, kind_aliasPieces, kind]
  | .derived s aliasName => by
    have hs := s.kind_piecesAround (d := d) s.source.shape (kind_pieces d s.source)
    simp only [shape, pieces, List.map_append, kind_parens]
    rw [show (s.shapeAround s.source.shape).source = s.source.shape from rfl, hs]
    rfl
  | .join left right op on => by
    have hon : on.isEmpty = (Expr.shapeAll on).isEmpty := (Expr.isEmpty_shapeAll on).symm
    simp only [shape, pieces, List.map_append, kind_pieces d left, ← hon,
      kind_clausePieces (kind_pieces d right), kind_clauseUnless (kind_conjunctionPieces (d := d) on)]

/-- The pieces of statements of one shape are of the same kinds. -/
theorem Select.kind_pieces (d : Descriptor) (s : Select) :
    (Select.pieces d s.shape).map kind = (Select.pieces d s).map kind :=
  s.kind_piecesAround s.source.shape (FromItem.kind_pieces d s.source)

end PlanSql.Sql
