import PlanSql.Source
import PlanSql.Yaml.Node

/-!
# YAML documents as sources of records

A mapping gives the fields of a record, an empty plain scalar stands for an empty collection, and
what a plain scalar means depends on what is asked for. A reference stands for the last node with
its anchor. A tag of the document's own names an alternative; all other tags say nothing but that a
literal scalar is a number or a truth value.
-/
namespace PlanSql.Yaml

namespace Node

/-- A node by its anchor, if it has one. -/
def labelled (properties : Properties) (n : Node) : List (Nat × Node) :=
  match properties.anchor with
  | some anchor => [(anchor, n)]
  | none => []

mutual

/-- The nodes with anchors in a node, in the order in which they start. -/
def anchored : Node → List (Nat × Node)
  | .reference _ => []
  | .scalar properties text style => labelled properties (.scalar properties text style)
  | .sequence properties items =>
    labelled properties (.sequence properties items) ++ anchoredItems items
  | .mapping properties entries =>
    labelled properties (.mapping properties entries) ++ anchoredEntries entries

def anchoredItems : List Node → List (Nat × Node)
  | [] => []
  | item :: rest => anchored item ++ anchoredItems rest

def anchoredEntries : List (Node × Node) → List (Nat × Node)
  | [] => []
  | (key, value) :: rest => anchored key ++ anchored value ++ anchoredEntries rest

end

def tag? : Node → Option String
  | .reference _ => none
  | .scalar properties _ _ | .sequence properties _ | .mapping properties _ => properties.tag

/-- The name that a tag of the document's own gives to a node, after its exclamation mark. -/
def ownTag? (n : Node) : Option String :=
  n.tag?.bind fun tag =>
    match tag.toList with
    | ['!'] => some "!"
    | '!' :: name => some (.ofList name)
    | _ => none

end Node

structure Part where
  node : Node
  /-- The nodes of the document that have anchors, the latest first. -/
  anchored : List (Nat × Node)

namespace Part

/-- Another part of the same document. -/
def withNode (p : Part) (n : Node) : Part := { p with node := n }

/-- The node itself or what it stands for. -/
def target (p : Part) : Node :=
  match p.node with
  | .reference anchor => (p.anchored.lookup anchor).getD .empty
  | n => n

def ofText? (text : String) : Option Part :=
  (Node.ofText? text).map fun n => ⟨n, n.anchored.reverse⟩

def text? (p : Part) : Option String :=
  match p.target with
  | .scalar _ text _ => some text
  | _ => none

def items? (p : Part) : Option (List Part) :=
  match p.target with
  | .sequence _ items => some (items.map p.withNode)
  | .scalar _ "" .plain => some []
  | _ => none

/-- The keys and the values of a mapping. -/
def entries (p : Part) : List (Part × Part) :=
  match p.target with
  | .mapping _ entries => entries.map fun (key, value) => (p.withNode key, p.withNode value)
  | _ => []

/-- The fields of a record with the given field names. All keys are texts. -/
def fields? (names : List String) (p : Part) : Option (Fields Part) :=
  match p.target with
  | .mapping _ _ => do
    let members ← p.entries.mapM fun (key, value) => key.text?.map fun name => (name, value)
    Fields.ofMembers? names members
  | .scalar _ "" .plain => some []
  | _ => none

/-- The text that may be a number or a truth value: that of a plain scalar, or of a literal one with
the tag for such values. -/
def valueText? (tag : String) (p : Part) : Option String :=
  match p.target with
  | .scalar _ text .plain => some text
  | .scalar properties text .literal => if properties.tag = some tag then some text else none
  | _ => none

/-- The name of an alternative and its content. A node with a tag of the document's own is the
content of the alternative that its tag names. -/
def alternative? (p : Part) : Option (String × Option Part) :=
  match p.target.ownTag?, p.target with
  | some name, n => some (name, some (p.withNode n))
  | none, .scalar _ text _ => some (text, none)
  | none, _ => none

/-- A plain scalar that is empty or a null. -/
def isUnit (p : Part) : Bool :=
  match p.target with
  | .scalar _ text .plain => ["", "~", "null", "Null", "NULL"].contains text
  | _ => false

end Part

/-! What texts mean. -/

/-- Digits in the given base, at least one. -/
def digits? (base : Nat) (cs : List Char) : Option Nat := do
  if cs.isEmpty then none
  else
    let values ← cs.mapM Json.hexDigit?
    if values.all fun v => v < base then some (values.foldl (fun n d => base * n + d) 0) else none

/-- The unsigned number that a text writes: decimal without further zeros in front, or in another
base after its mark; a plus sign may stand first. -/
def unsigned? (text : String) : Option Nat :=
  let cs := match text.toList with
    | '+' :: rest => rest
    | cs => cs
  match cs with
  | '0' :: 'x' :: rest => digits? 16 rest
  | '0' :: 'o' :: rest => digits? 8 rest
  | '0' :: 'b' :: rest => digits? 2 rest
  | '0' :: _ :: _ => none
  | cs => digits? 10 cs

def truth? (text : String) : Option Bool :=
  if text = "true" || text = "True" || text = "TRUE" then some true
  else if text = "false" || text = "False" || text = "FALSE" then some false
  else none

/-- YAML as a source. -/
def source : Source Part where
  fields? := Part.fields?
  items? := Part.items?
  text? := Part.text?
  natUpTo? most p :=
    ((p.valueText? "tag:yaml.org,2002:int").bind unsigned?).filter fun n => n ≤ most
  bool? p := (p.valueText? "tag:yaml.org,2002:bool").bind truth?
  alternative? := Part.alternative?
  isUnit := Part.isUnit

end PlanSql.Yaml
