import PlanSql.Ddl.Rendering
import PlanSql.Proofs.Fragment.Wording
import PlanSql.Proofs.Sql.Shape
import PlanSql.Query

/-!
# No text escapes its quotes

The texts of queries and of data definition statements, taken apart by the lexer of their dialect.
All tokens are those of the pieces: nothing is a comment, the quoted tokens are the names and strings
of the statement in their order, and statements that differ in names and strings only have tokens of
the same kinds.
-/
namespace PlanSql

open Sql Sql.Piece

namespace Ddl

variable {ρ σ ε : Type}

/-- The query of a view. -/
def queries : Ddl ρ → List ρ
  | .createView _ query _ _ => [query]
  | _ => []

/-- A statement with something else in the place of its query. -/
def mapQuery (f : ρ → Except ε σ) : Ddl ρ → Except ε (Ddl σ)
  | .createView name query temporary orReplace => do
    let query ← f query
    return .createView name query temporary orReplace
  | .createTable name fields ifNotExists properties =>
    .ok (.createTable name fields ifNotExists properties)
  | .dropTable name ifExists => .ok (.dropTable name ifExists)
  | .dropView name ifExists temporary => .ok (.dropView name ifExists temporary)
  | .renameTable source target => .ok (.renameTable source target)
  | .createDatabase name ifNotExists location => .ok (.createDatabase name ifNotExists location)
  | .dropDatabase name ifExists cascade => .ok (.dropDatabase name ifExists cascade)
  | .analyzeTable name noScan => .ok (.analyzeTable name noScan)

/-- The names and strings of a statement, as they follow each other in its text. -/
def quoted : Ddl Select → List Token
  | .createTable name fields _ properties => .identifier name ::
    fields.map (fun f => .identifier f.name)
      ++ properties.flatMap fun p => [.string p.1, .string p.2]
  | .createView name query _ _ => .identifier name :: Select.quoted query
  | .dropTable name _ | .dropView name _ _ | .dropDatabase name _ _ | .analyzeTable name _ =>
    [.identifier name]
  | .renameTable source target => [.identifier source, .identifier target]
  | .createDatabase name _ location => .identifier name :: location.toList.map Token.string

/-- A statement with every name and string empty. -/
def shape : Ddl Select → Ddl Select
  | .createTable _ fields ifNotExists properties =>
    .createTable "" (fields.map fun f => { f with name := "" }) ifNotExists
      (properties.map fun _ => ("", ""))
  | .createView _ query temporary orReplace =>
    .createView "" (Select.shape query) temporary orReplace
  | .dropTable _ ifExists => .dropTable "" ifExists
  | .dropView _ ifExists temporary => .dropView "" ifExists temporary
  | .renameTable _ _ => .renameTable "" ""
  | .createDatabase _ ifNotExists location =>
    .createDatabase "" ifNotExists (location.map fun _ => "")
  | .dropDatabase _ ifExists cascade => .dropDatabase "" ifExists cascade
  | .analyzeTable _ noScan => .analyzeTable "" noScan

/-- The declaration of a column whose type has a name. -/
def declaration (d : Dialect) (f : Field) : List Piece :=
  [.identifier f.name, .space, .word ((d.columnTypeName? f.dataType).getD "")]
    ++ if f.nullable then [] else [.space, .word "NOT", .space, .word "NULL"]

/-- The pieces of a statement that the dialect has. -/
def written (d : Dialect) : Ddl Select → List Piece
  | .createTable name fields ifNotExists properties =>
    keywords ["CREATE", "TABLE"] ++ keywordsIf ifNotExists ["IF", "NOT", "EXISTS"]
      ++ [.identifier name, .space] ++ parens (separated comma (fields.map (declaration d)))
      ++ if properties.isEmpty then []
        else .space :: keywords ["WITH"] ++ parens (separated comma (properties.map propertyPieces))
  | .createView name query temporary orReplace =>
    keywords ["CREATE"] ++ keywordsIf orReplace ["OR", "REPLACE"]
      ++ keywordsIf temporary ["TEMPORARY"] ++ keywords ["VIEW"] ++ [.identifier name]
      ++ around "AS" ++ Select.pieces d.descriptor query
  | .dropTable name ifExists =>
    keywords ["DROP", "TABLE"] ++ keywordsIf ifExists ["IF", "EXISTS"] ++ [.identifier name]
  | .dropView name ifExists temporary =>
    keywords ["DROP"] ++ keywordsIf (temporary && d = .flink) ["TEMPORARY"]
      ++ keywords ["VIEW"] ++ keywordsIf ifExists ["IF", "EXISTS"] ++ [.identifier name]
  | .renameTable source target =>
    keywords ["ALTER", "TABLE"] ++ [.identifier source, .space] ++ keywords ["RENAME", "TO"]
      ++ [.identifier target]
  | .createDatabase name ifNotExists location =>
    keywords ["CREATE", d.descriptor.ddl.databaseKeyword.getD ""]
      ++ keywordsIf ifNotExists ["IF", "NOT", "EXISTS"] ++ [.identifier name]
      ++ match location with
        | none => []
        | some path => .space :: keywords ["LOCATION"] ++ [.string path]
  | .dropDatabase name ifExists cascade =>
    keywords ["DROP", d.descriptor.ddl.databaseKeyword.getD ""]
      ++ keywordsIf ifExists ["IF", "EXISTS"] ++ [.identifier name]
      ++ if cascade then [.space, .word "CASCADE"] else []
  | .analyzeTable name noScan =>
    keywords ["ANALYZE", "TABLE"] ++ [.identifier name, .space, .word "COMPUTE", .space,
      .word "STATISTICS"] ++ if noScan then [.space, .word "NOSCAN"] else []

theorem columnPieces_eq_ok {t : Target} {s : Ddl Relation} {f : Field} {ps : List Piece}
    (h : s.columnPieces t f = .ok ps) : declaration t.dialect f = ps := by
  unfold columnPieces at h
  split at h
  · simp [refuse] at h
  · next typeName hn => simpa [declaration, hn] using h

theorem databaseKeyword_eq_ok {t : Target} {s : Ddl Relation} {limit : OperatorLimit}
    {keyword : String} (h : s.databaseKeyword t limit = .ok keyword) :
    t.dialect.descriptor.ddl.databaseKeyword.getD "" = keyword := by
  unfold databaseKeyword at h
  split at h
  · next k hk =>
    obtain rfl : k = keyword := by simpa using h
    rw [show t.dialect.descriptor = t.descriptor from rfl, hk]
    rfl
  · simp [refuse] at h

/-- A statement that is not refused is written as it is. -/
theorem pieces_eq_ok {t : Target} {s : Ddl Relation} {ps : List Piece} (h : s.pieces t = .ok ps) :
    ∃ s', s.mapQuery (Relation.toSelect t) = .ok s' ∧ s'.written t.dialect = ps := by
  cases s with
  | createTable name fields ifNotExists properties =>
    simp only [pieces, bind_eq_ok, mapM_eq_ok, pure_eq_ok, Except.ok.injEq] at h
    obtain ⟨-, -, -, -, columns, hc, rfl⟩ := h
    have hcols : fields.map (declaration t.dialect) = columns := by
      rw [← List.forall₂_eq_eq_eq, List.forall₂_map_left_iff]
      exact hc.imp fun f ps hf => columnPieces_eq_ok hf
    exact ⟨_, rfl, by rw [written, hcols]⟩
  | createView name query temporary orReplace =>
    simp only [pieces, bind_eq_ok, pure_eq_ok, Except.ok.injEq] at h
    obtain ⟨-, -, -, -, select, hs, rfl⟩ := h
    exact ⟨.createView name select temporary orReplace, by simp [mapQuery, hs], rfl⟩
  | dropTable name ifExists | renameTable name target =>
    exact ⟨_, rfl, by simpa [pieces, written] using h⟩
  | dropView name ifExists temporary | analyzeTable name noScan =>
    simp only [pieces, bind_eq_ok, pure_eq_ok, Except.ok.injEq] at h
    obtain ⟨-, -, rfl⟩ := h
    exact ⟨_, rfl, rfl⟩
  | createDatabase name ifNotExists location =>
    simp only [pieces, bind_eq_ok, pure_eq_ok, Except.ok.injEq] at h
    obtain ⟨keyword, hk, -, -, -, -, rfl⟩ := h
    obtain rfl := databaseKeyword_eq_ok hk
    exact ⟨_, rfl, rfl⟩
  | dropDatabase name ifExists cascade =>
    simp only [pieces, bind_eq_ok, pure_eq_ok, Except.ok.injEq] at h
    obtain ⟨keyword, hk, -, -, rfl⟩ := h
    obtain rfl := databaseKeyword_eq_ok hk
    exact ⟨_, rfl, rfl⟩

section Written

variable {d : Dialect} {ps : List Piece}

theorem spells_keywords (words : List String) (hw : ∀ w ∈ words, isBareText w = true)
    (hp : d.descriptor.Spells ps) : d.descriptor.Spells (keywords words ++ ps) := by
  induction words with
  | nil => exact hp
  | cons w rest ih =>
    obtain ⟨hw, hrest⟩ := List.forall_mem_cons.mp hw
    simpa [keywords] using (ih hrest).keyword w hw

theorem spells_keywordsIf (b : Bool) (words : List String)
    (hw : ∀ w ∈ words, isBareText w = true) (hp : d.descriptor.Spells ps) :
    d.descriptor.Spells (keywordsIf b words ++ ps) := by
  cases b
  · exact hp
  · exact spells_keywords words hw hp

theorem spells_declaration (f : Field) : d.descriptor.Spells (declaration d f) := by
  have hname : isPlainText ((d.columnTypeName? f.dataType).getD "") = true := by
    cases h : d.columnTypeName? f.dataType with
    | none => decide
    | some name => exact Dialect.isPlainText_columnTypeName h
  have htype := (d.descriptor.spells_identifier f.name).glue (g := .space) rfl
    (d.descriptor.spells_word _ (isBareText_of_isPlainText hname))
  have hnull := (d.descriptor.spells_word "NULL" (by decide)).keyword "NOT" (by decide)
  cases hf : f.nullable
  · simpa [declaration, hf] using htype.glue (g := .space) rfl hnull
  · simpa [declaration, hf] using htype

theorem spells_property (p : String × String) : d.descriptor.Spells (propertyPieces p) := by
  have hvalue := (d.descriptor.spells_sign (c := '=') (by decide)).glue (g := .space) rfl
    (d.descriptor.spells_string p.2)
  exact (d.descriptor.spells_string p.1).glue (g := .space) rfl hvalue

theorem isBareText_databaseKeyword :
    isBareText (d.descriptor.ddl.databaseKeyword.getD "") = true := by
  cases d <;> decide

/-- The text of a statement has the tokens of its pieces if that is so for its query. -/
theorem spells_written (s : Ddl Select)
    (hq : ∀ q ∈ s.queries, d.descriptor.Spells (Select.pieces d.descriptor q)) :
    d.descriptor.Spells (s.written d) := by
  have hname := d.descriptor.spells_identifier
  have hkeyword := isBareText_databaseKeyword (d := d)
  cases s with
  | createTable name fields ifNotExists properties =>
    have hcolumns : d.descriptor.Spells
        (parens (separated comma (fields.map (declaration d)))) := by
      refine .parens (.listed ?_)
      simpa using fun f _ => spells_declaration f
    have hproperties : d.descriptor.Spells
        (parens (separated comma (properties.map propertyPieces))) := by
      refine .parens (.listed ?_)
      simp only [List.forall_mem_map]
      exact fun p _ => spells_property p
    have htable := (hname name).glue (g := .space) rfl hcolumns
    have hall : d.descriptor.Spells ([Piece.identifier name, .space] ++
        parens (separated comma (fields.map (declaration d))) ++
        if properties.isEmpty then []
        else Piece.space :: keywords ["WITH"]
          ++ parens (separated comma (properties.map propertyPieces))) := by
      cases properties.isEmpty
      · exact htable.glue (g := .space) rfl (spells_keywords _ (by decide) hproperties)
      · simpa using htable
    simpa [written] using spells_keywords ["CREATE", "TABLE"] (by decide)
      (spells_keywordsIf ifNotExists ["IF", "NOT", "EXISTS"] (by decide) hall)
  | createView name query temporary orReplace =>
    have has := (hname name).around "AS" (by decide) (hq query (by simp [queries]))
    simpa [written] using spells_keywords ["CREATE"] (by decide)
      (spells_keywordsIf orReplace ["OR", "REPLACE"] (by decide)
        (spells_keywordsIf temporary ["TEMPORARY"] (by decide)
          (spells_keywords ["VIEW"] (by decide) has)))
  | dropTable name ifExists =>
    simpa [written] using spells_keywords ["DROP", "TABLE"] (by decide)
      (spells_keywordsIf ifExists ["IF", "EXISTS"] (by decide) (hname name))
  | dropView name ifExists temporary =>
    simpa [written] using spells_keywords ["DROP"] (by decide)
      (spells_keywordsIf (temporary && d = .flink) ["TEMPORARY"] (by decide)
        (spells_keywords ["VIEW"] (by decide)
          (spells_keywordsIf ifExists ["IF", "EXISTS"] (by decide) (hname name))))
  | renameTable source target =>
    have hto := spells_keywords ["RENAME", "TO"] (by decide) (hname target)
    simpa [written] using spells_keywords ["ALTER", "TABLE"] (by decide)
      ((hname source).glue (g := .space) rfl hto)
  | createDatabase name ifNotExists location =>
    clear hq
    have hat : d.descriptor.Spells ([Piece.identifier name] ++ match location with
        | none => []
        | some path => Piece.space :: keywords ["LOCATION"] ++ [Piece.string path]) := by
      cases location with
      | none => exact hname name
      | some path =>
        exact (hname name).glue (g := .space) rfl
          (spells_keywords _ (by decide) (d.descriptor.spells_string path))
    have hif := spells_keywordsIf ifNotExists ["IF", "NOT", "EXISTS"]
      (by decide) hat
    simpa [written] using spells_keywords
      ["CREATE", d.descriptor.ddl.databaseKeyword.getD ""]
      (by simpa using ⟨by decide, hkeyword⟩) hif
  | dropDatabase name ifExists cascade =>
    have hcascade : d.descriptor.Spells
        ([Piece.identifier name] ++ if cascade then [Piece.space, .word "CASCADE"] else []) := by
      cases cascade
      · exact hname name
      · exact (hname name).glue (g := .space) rfl (d.descriptor.spells_word _ (by decide))
    have hif := spells_keywordsIf ifExists ["IF", "EXISTS"] (by decide) hcascade
    simpa [written] using spells_keywords
      ["DROP", d.descriptor.ddl.databaseKeyword.getD ""]
      (by simpa using ⟨by decide, hkeyword⟩) hif
  | analyzeTable name noScan =>
    have hstatistics := d.descriptor.spells_word "STATISTICS" (by decide)
    have hcompute := (hname name).glue (g := .space) rfl
      (hstatistics.keyword "COMPUTE" (by decide))
    have hscan : d.descriptor.Spells ([Piece.identifier name, .space, .word "COMPUTE", .space,
        .word "STATISTICS"] ++ if noScan then [Piece.space, .word "NOSCAN"] else []) := by
      cases noScan
      · exact hcompute
      · exact hcompute.glue (g := .space) rfl (d.descriptor.spells_word _ (by decide))
    simpa [written] using spells_keywords ["ANALYZE", "TABLE"] (by decide) hscan

theorem quoted_keywords (words : List String) : (keywords words).flatMap Piece.quoted = [] := by
  simp [keywords, Piece.quoted, List.flatMap_assoc]

theorem quoted_keywordsIf (b : Bool) (words : List String) : (keywordsIf b words).flatMap Piece.quoted = [] := by
  cases b
  · rfl
  · exact quoted_keywords words

theorem quoted_written (s : Ddl Select) : (s.written d).flatMap Piece.quoted = s.quoted := by
  cases s with
  | createTable name fields ifNotExists properties =>
    have hcolumn : ∀ f, (declaration d f).flatMap Piece.quoted = [.identifier f.name] := by
      intro f
      unfold declaration
      cases f.nullable <;> rfl
    have hproperty : ∀ p, (propertyPieces p).flatMap Piece.quoted = [.string p.1, .string p.2] :=
      fun _ => rfl
    have hcolumns : (separated comma (fields.map (declaration d))).flatMap Piece.quoted =
        fields.map fun f => .identifier f.name := by
      rw [quoted_separated rfl, List.flatMap_map, List.map_eq_flatMap]
      exact List.flatMap_congr fun f _ => hcolumn f
    have hproperties : (if properties.isEmpty then [] else .space :: keywords ["WITH"] ++
        parens (separated comma (properties.map propertyPieces))).flatMap Piece.quoted =
        properties.flatMap fun p => [.string p.1, .string p.2] := by
      cases properties with
      | nil => rfl
      | cons p rest =>
        have hcomma : comma.flatMap Piece.quoted = [] := rfl
        have hlist := quoted_separated hcomma ((p :: rest).map propertyPieces)
        simp only [List.isEmpty_cons, Bool.false_eq_true, if_false, List.flatMap_append,
          quoted_parens, hlist, List.flatMap_map, hproperty, List.flatMap_cons, quoted_keywords]
        simp [Piece.quoted]
    simp only [written, quoted, List.flatMap_append, quoted_keywords, quoted_keywordsIf,
      quoted_parens, hcolumns, hproperties]
    simp [Piece.quoted]
  | createView name query temporary orReplace =>
    simp only [written, quoted, List.flatMap_append, quoted_keywords, quoted_keywordsIf,
      quoted_around, Select.quoted_pieces]
    simp [Piece.quoted]
  | createDatabase name ifNotExists location =>
    simp only [written, quoted, List.flatMap_append, quoted_keywords, quoted_keywordsIf]
    cases location <;> simp [quoted_keywords, Piece.quoted]
  | dropTable | dropView | renameTable =>
    simp [written, quoted, quoted_keywords, quoted_keywordsIf, Piece.quoted]
  | dropDatabase name ifExists cascade =>
    cases cascade <;> simp [written, quoted, quoted_keywords, quoted_keywordsIf, Piece.quoted]
  | analyzeTable name noScan =>
    cases noScan <;> simp [written, quoted, quoted_keywords, Piece.quoted]

/-- The pieces of statements of one shape are of the same kinds. -/
theorem kind_written (d : Dialect) (s : Ddl Select) :
    (s.shape.written d).map kind = (s.written d).map kind := by
  cases s with
  | createTable name fields ifNotExists properties =>
    have hcolumns : (separated comma ((fields.map fun f => { f with name := "" }).map
        (declaration d))).map kind = (separated comma (fields.map (declaration d))).map kind := by
      refine kind_separated_congr ?_
      simp only [List.map_map]
      exact List.map_congr_left fun f _ => by simp [declaration, kind]
    have hproperties : (separated comma ((properties.map fun _ => ("", "")).map
        propertyPieces)).map kind = (separated comma (properties.map propertyPieces)).map kind := by
      refine kind_separated_congr ?_
      simp only [List.map_map]
      exact List.map_congr_left fun _ _ => rfl
    have hempty : (properties.map fun _ => ("", "")).isEmpty = properties.isEmpty := by
      cases properties <;> rfl
    simp only [written, shape, List.map_append, kind_parens, hcolumns, hempty,
      apply_ite (List.map kind), List.map_cons, hproperties]
    rfl
  | createView name query temporary orReplace =>
    simp [written, shape, Select.kind_pieces, kind]
  | createDatabase name ifNotExists location =>
    cases location <;> simp [written, shape, kind]
  | dropTable | dropView | renameTable | dropDatabase | analyzeTable =>
    simp [written, shape, kind]

end Written

end Ddl

/-- What SQL is asked for: the query of a relation, or a definition. -/
inductive Command where
  | query (r : Relation)
  | definition (s : Ddl Relation)

/-- The tree of the SQL that a command becomes. -/
inductive Statement where
  | query (s : Select)
  | definition (s : Ddl Select)

namespace Statement

def pieces (d : Dialect) : Statement → List Piece
  | .query s => Select.pieces d.descriptor s
  | .definition s => s.written d

/-- The names and strings of a statement, as they follow each other in its text. -/
def quoted : Statement → List Token
  | .query s => Select.quoted s
  | .definition s => s.quoted

/-- A statement with every name and string empty. -/
def shape : Statement → Statement
  | .query s => .query (Select.shape s)
  | .definition s => .definition s.shape

theorem quoted_pieces (d : Dialect) (s : Statement) :
    (s.pieces d).flatMap Piece.quoted = s.quoted := by
  cases s with
  | query s => exact Select.quoted_pieces s
  | definition s => exact s.quoted_written

theorem kind_pieces (d : Dialect) (s : Statement) :
    (s.shape.pieces d).map kind = (s.pieces d).map kind := by
  cases s with
  | query s => exact Select.kind_pieces d.descriptor s
  | definition s => exact Ddl.kind_written d s

end Statement

namespace Command

variable {c : Command} {d : Dialect}

/-- The relations of a command come from builder calls. -/
def Valid : Command → Prop
  | .query r => r.Valid
  | .definition s => ∀ r ∈ s.queries, r.Valid

/-- The SQL of a command by the rules that come with the library. -/
def text (d : Dialect) : Command → Except CompileError String
  | .query r => do
    let query ← r.compile (Target.builtin d)
    return query.sql
  | .definition s => s.toSql (Target.builtin d)

def statement (d : Dialect) : Command → Except CompileError Statement
  | .query r => do
    let select ← r.toSelect (Target.builtin d)
    return .query select
  | .definition s => do
    let s ← s.mapQuery (Relation.toSelect (Target.builtin d))
    return .definition s

/-- The text of a command is that of the pieces of its statement. -/
theorem text_eq_ok {text : String} (h : c.text d = .ok text) :
    ∃ s, c.statement d = .ok s ∧ d.descriptor.text (s.pieces d) = text := by
  cases c with
  | query r =>
    obtain ⟨query, hq, h⟩ := bind_eq_ok.mp h
    obtain ⟨select, hs, hq⟩ := bind_eq_ok.mp hq
    obtain rfl := Except.ok.inj hq
    exact ⟨.query select, by simp [statement, hs], Except.ok.inj h⟩
  | definition s =>
    obtain ⟨ps, hp, h⟩ := bind_eq_ok.mp h
    obtain ⟨s', hs, rfl⟩ := Ddl.pieces_eq_ok hp
    exact ⟨.definition s', by simp [statement, hs], Except.ok.inj h⟩

theorem spells_statement (hv : c.Valid) {s : Statement} (hs : c.statement d = .ok s) :
    d.descriptor.Spells (s.pieces d) := by
  cases c with
  | query r =>
    obtain ⟨select, hq, h⟩ := bind_eq_ok.mp hs
    obtain rfl := Except.ok.inj h
    exact Relation.spells_toSelect (Relation.Valid.coherent hv) hq
  | definition s =>
    obtain ⟨s', hq, h⟩ := bind_eq_ok.mp hs
    obtain rfl := Except.ok.inj h
    refine Ddl.spells_written s' fun q hm => ?_
    cases s with
    | createView name r temporary orReplace =>
      obtain ⟨select, hselect, h⟩ := bind_eq_ok.mp hq
      obtain rfl := Except.ok.inj h
      obtain rfl : q = select := by simpa [Ddl.queries] using hm
      exact Relation.spells_toSelect (hv r (by simp [Ddl.queries])).coherent hselect
    | _ =>
      obtain rfl := Except.ok.inj hq
      simp [Ddl.queries] at hm

/-- The text of a command is a sequence of whole tokens without a comment. Between quotes there are
the names and strings of the statement, in their order; and the text of any statement of the same
shape has tokens of the same kinds. -/
theorem lex_text (hv : c.Valid) {text : String} (h : c.text d = .ok text) :
    ∃ s ts, c.statement d = .ok s ∧ d.descriptor.lex text = some ts ∧ Token.comment ∉ ts ∧
      ts.filter Token.isQuoted = s.quoted ∧
      ∀ c' s' text', Command.Valid c' → Command.text d c' = .ok text' →
        Command.statement d c' = .ok s' → s'.shape = s.shape →
        ∃ ts', d.descriptor.lex text' = some ts' ∧ ts'.map Token.kind = ts.map Token.kind := by
  obtain ⟨s, hs, rfl⟩ := text_eq_ok h
  have hsp := spells_statement hv hs
  refine ⟨s, _, hs, hsp.lex, hsp.comment_notMem, ?_, ?_⟩
  · rw [hsp.filter_isQuoted, s.quoted_pieces]
  · intro c' s' text' hv' h' hs' hshape
    obtain ⟨s'', hs'', rfl⟩ := text_eq_ok h'
    obtain rfl : s'' = s' := Except.ok.inj (hs''.symm.trans hs')
    have hsp' := spells_statement hv' hs'
    refine ⟨_, hsp'.lex, ?_⟩
    rw [hsp'.map_kind, hsp.map_kind, ← s''.kind_pieces, ← s.kind_pieces, hshape]

/-- A database whose name and location are full of quotes. -/
def hostile : Command :=
  .definition (.createDatabase "d\x60--" false (some "a\\' OR '1'='1"))

theorem lex_hostile : ∃ s ts, hostile.statement .spark = .ok s ∧
    (Dialect.descriptor .spark).lex
      "CREATE DATABASE \x60d\x60\x60--\x60 LOCATION 'a\\\\\\' OR \\'1\\'=\\'1'" = some ts ∧
    Token.comment ∉ ts ∧ ts.filter Token.isQuoted = s.quoted := by
  have hv : hostile.Valid := by simp [hostile, Valid, Ddl.queries]
  have h : hostile.text .spark = .ok _ := rfl
  obtain ⟨s, ts, hs, hl, hc, hq, -⟩ := lex_text hv h
  exact ⟨s, ts, hs, hl, hc, hq⟩

end Command

end PlanSql
