import PlanSql.Yaml.Document

/-!
# How often references are followed

A reference costs next to nothing to write and as much as its target to read, and targets hold
references again. So what is read of a document may follow references only a limited number of times
for each event in it. Which parts are read is given by a shape; what a shape does not name is left
aside, and so are the references in it.
-/
namespace PlanSql.Yaml

/-- The parts of a document that are read. -/
inductive Shape where
  | leaf
  | list (item : Shape)
  | record (fields : List (String × Shape))

namespace Node

mutual

/-- The number of events in a node: one for each scalar and each reference, two for each collection,
which starts and ends. -/
def eventCount : Node → Nat
  | .reference _ | .scalar _ _ _ => 1
  | .sequence _ items => itemEventCount items + 2
  | .mapping _ entries => entryEventCount entries + 2

def itemEventCount : List Node → Nat
  | [] => 0
  | item :: rest => eventCount item + itemEventCount rest

def entryEventCount : List (Node × Node) → Nat
  | [] => 0
  | (key, value) :: rest => eventCount key + eventCount value + entryEventCount rest

end

end Node

namespace Part

/-- How often a reference is followed to reach what the part stands for. -/
def hops (p : Part) : Nat :=
  match p.node with
  | .reference _ => 1
  | _ => 0

/-- The values of a mapping whose key is the given text. -/
def values (p : Part) (name : String) : List Part :=
  (p.entries.filter fun (key, _) => key.text? = some name).map (·.2)

end Part

namespace Shape

/-- The sum of the numbers that `followed` gives for the parts. -/
def total (followed : Part → Nat) (parts : List Part) : Nat :=
  parts.foldl (fun n p => n + followed p) 0

mutual

/-- How often references are followed when a part is read in a shape. The keys of a record are all
read. -/
def followed : Shape → Part → Nat
  | .leaf, p => p.hops
  | .list item, p => p.hops + total item.followed (p.items?.getD [])
  | .record fields, p =>
    p.hops + total Part.hops (p.entries.map (·.1)) + followedFields fields p

/-- The same for the fields of a record. -/
def followedFields : List (String × Shape) → Part → Nat
  | [], _ => 0
  | (name, shape) :: rest, p =>
    total shape.followed (p.values name) + followedFields rest p

end

/-- How often references may be followed for each event of a document. -/
def maxRepetition : Nat := 100

/-- Whether a document may be read in a shape. -/
def admits (shape : Shape) (document : Part) : Bool :=
  shape.followed document ≤ maxRepetition * document.node.eventCount

end Shape

end PlanSql.Yaml
