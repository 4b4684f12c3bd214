import PlanSql.Yaml.Token

/-!
# Nodes of YAML documents

A document is one node: a scalar, a sequence or a mapping of nodes, or a reference to a node with an
anchor. The tokens of a text give the node of its only document.
-/
namespace PlanSql.Yaml

/-- What may stand in front of a node. -/
structure Properties where
  anchor : Option Nat
  tag : Option String
  deriving DecidableEq, Repr, Inhabited

namespace Properties

def none : Properties := ⟨.none, .none⟩

def isNone (p : Properties) : Bool := p.anchor.isNone && p.tag.isNone

/-- The properties at the front of the tokens, each at most once, and what follows them. -/
def ofTokens : List Token → Properties × List Token
  | .anchor n :: .tag t :: rest | .tag t :: .anchor n :: rest => (⟨some n, some t⟩, rest)
  | .anchor n :: rest => (⟨some n, .none⟩, rest)
  | .tag t :: rest => (⟨.none, some t⟩, rest)
  | rest => (.none, rest)

/-- The properties of a scalar, whose tag may say that it has none. -/
def ofScalar (p : Properties) : Properties := if p.tag = some "!" then ⟨p.anchor, .none⟩ else p

end Properties

inductive Node where
  | reference (anchor : Nat)
  | scalar (properties : Properties) (text : String) (style : Style)
  | sequence (properties : Properties) (items : List Node)
  | mapping (properties : Properties) (entries : List (Node × Node))
  deriving Repr, Inhabited

inductive Place where
  /-- An item of a block sequence or a whole document. -/
  | item
  /-- A key or a value of a block mapping, where the dashes of a sequence need no indentation. -/
  | entry
  | flow
  deriving DecidableEq, Repr

namespace Node

/-- The node where nothing is written. -/
def empty : Node := .scalar .none "" .plain

/-- Whether the first token is none or among the given ones. -/
def isBefore (marks : List Token) (ts : List Token) : Bool :=
  match ts with
  | [] => true
  | t :: _ => marks.contains t

mutual

/-- The node at the front of the tokens and what follows it. The fuel bounds the steps; two for each
token are enough. -/
def read? : Nat → Place → List Token → Option (Node × List Token)
  | 0, _, _ => none
  | fuel + 1, place, ts =>
    match ts with
    | .reference n :: rest => some (.reference n, rest)
    | ts =>
      let (properties, ts) := Properties.ofTokens ts
      let missing := if properties.isNone then none else some (.scalar properties "" .plain, ts)
      match ts with
      | .scalar text style :: rest => some (.scalar properties.ofScalar text style, rest)
      | .flowSequence :: rest =>
        (readFlowItems? fuel rest).map fun (items, rest) => (.sequence properties items, rest)
      | .flowMapping :: rest =>
        (readFlowEntries? fuel rest).map fun (entries, rest) => (.mapping properties entries, rest)
      | .dash :: _ =>
        if place = .entry then
          (readDashes? fuel ts).map fun (items, rest) => (.sequence properties items, rest)
        else missing
      | .blockSequence :: rest =>
        if place = .flow then missing
        else (readItems? fuel rest).map fun (items, rest) => (.sequence properties items, rest)
      | .blockMapping :: rest =>
        if place = .flow then missing
        else (readEntries? fuel rest).map fun (entries, rest) => (.mapping properties entries, rest)
      | _ => missing

/-- The node at the front of the tokens, or the empty one before any of the marks. -/
def readUnless? : Nat → Place → List Token → List Token → Option (Node × List Token)
  | 0, _, _, _ => none
  | fuel + 1, place, marks, ts =>
    if isBefore marks ts then some (empty, ts) else read? fuel place ts

/-- The items of a block sequence up to its end. -/
def readItems? : Nat → List Token → Option (List Node × List Token)
  | 0, _ => none
  | fuel + 1, ts =>
    match ts with
    | .blockEnd :: rest => some ([], rest)
    | .dash :: rest => do
      let (item, rest) ← readUnless? fuel .item [.dash, .blockEnd] rest
      let (items, rest) ← readItems? fuel rest
      some (item :: items, rest)
    | _ => none

/-- The items of a sequence without an indentation of its own. -/
def readDashes? : Nat → List Token → Option (List Node × List Token)
  | 0, _ => none
  | fuel + 1, ts =>
    match ts with
    | .dash :: rest => do
      let (item, rest) ← readUnless? fuel .item [.dash, .key, .value, .blockEnd] rest
      let (items, rest) ← readDashes? fuel rest
      some (item :: items, rest)
    | ts => some ([], ts)

/-- The entries of a block mapping up to its end. -/
def readEntries? : Nat → List Token → Option (List (Node × Node) × List Token)
  | 0, _ => none
  | fuel + 1, ts =>
    match ts with
    | .blockEnd :: rest => some ([], rest)
    | .key :: rest => do
      let (key, rest) ← readUnless? fuel .entry [.key, .value, .blockEnd] rest
      let (value, rest) ← readValue? fuel .entry [.key, .value, .blockEnd] rest
      let (entries, rest) ← readEntries? fuel rest
      some ((key, value) :: entries, rest)
    | _ => none

/-- The value behind its mark; without the mark or before any of the others it is empty. -/
def readValue? : Nat → Place → List Token → List Token → Option (Node × List Token)
  | 0, _, _, _ => none
  | fuel + 1, place, marks, ts =>
    match ts with
    | .value :: rest => readUnless? fuel place marks rest
    | ts => some (empty, ts)

/-- The items of a flow sequence up to its end. A key makes an item a mapping with one entry; in
place of an empty key, the mark behind it is left out. -/
def readFlowItems? : Nat → List Token → Option (List Node × List Token)
  | 0, _ => none
  | fuel + 1, ts =>
    match ts with
    | .flowSequenceEnd :: rest => some ([], rest)
    | ts => do
      let marks := [.comma, .flowSequenceEnd]
      let (item, rest) ←
        match ts with
        | .key :: rest => do
          let (key, rest) ←
            if isBefore (.value :: marks) rest then some (empty, rest.tail)
            else read? fuel .flow rest
          let (value, rest) ← readValue? fuel .flow marks rest
          some (Node.mapping .none [(key, value)], rest)
        | ts => read? fuel .flow ts
      match rest with
      | .flowSequenceEnd :: rest => some ([item], rest)
      | .comma :: rest =>
        let (items, rest) ← readFlowItems? fuel rest
        some (item :: items, rest)
      | _ => none

/-- The entries of a flow mapping up to its end. -/
def readFlowEntries? : Nat → List Token → Option (List (Node × Node) × List Token)
  | 0, _ => none
  | fuel + 1, ts =>
    match ts with
    | .flowMappingEnd :: rest => some ([], rest)
    | ts => do
      let marks := [.comma, .flowMappingEnd]
      let (entry, rest) ←
        match ts with
        | .key :: rest => do
          let (key, rest) ← readUnless? fuel .flow (.value :: marks) rest
          let (value, rest) ← readValue? fuel .flow marks rest
          some ((key, value), rest)
        | ts => (read? fuel .flow ts).map fun (key, rest) => ((key, empty), rest)
      match rest with
      | .flowMappingEnd :: rest => some ([entry], rest)
      | .comma :: rest =>
        let (entries, rest) ← readFlowEntries? fuel rest
        some (entry :: entries, rest)
      | _ => none

end

/-- The tokens of the only document. Directives in front of it need a mark at its start. -/
def contentTokens? (ts : List Token) : Option (List Token) :=
  match ts.dropWhile (· = .directive) with
  | .documentStart :: rest => some rest
  | rest => if ts.head? = some .directive then none else some rest

/-- The node of the only document in the tokens; without tokens it is empty. -/
def ofTokens? (ts : List Token) : Option Node := do
  let content ← contentTokens? ts
  let isStarted := content.length < ts.length
  let (node, rest) ←
    if content.isEmpty
        || (isStarted && isBefore [.directive, .documentStart, .documentEnd] content) then
      some (empty, content)
    else read? (2 * content.length + 2) .item content
  if rest.all (· = .documentEnd) then some node else none

/-- The node of the only document of a text. -/
def ofText? (text : String) : Option Node := do ofTokens? (← tokens? text)

end Node

end PlanSql.Yaml
