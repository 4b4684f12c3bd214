import PlanSql.Plan.Basic
import PlanSql.Source

/-!
# Plans from JSON

A plan is a record tagged by `op`, a term one tagged by `type`. Everything below the outermost tag
has been taken apart before it is read, so there a tag may also be a position. The fuel of a reader
is the depth of its value, which every step into a record lowers.
-/
namespace PlanSql

/-- The greatest whole number in a row limit or an offset. -/
def maxCount : Nat := pow2 64 - 1

/-- A value that has been taken apart. -/
def Json.nested : Source Json := Json.source true

namespace Term

/-- The shapes of terms and their fields in order. -/
def shapes : Json.Shapes := [
  ("literal", ["value", "data_type"]),
  ("column", ["name", "table"]),
  ("unary", ["op", "operand"]),
  ("binary", ["op", "left", "right"]),
  ("call", ["func", "args"]),
  ("extract", ["part", "operand"]),
  ("to_timestamp", ["operand", "unit"]),
  ("in_list", ["operand", "values", "negated"]),
  ("is_null", ["operand", "negated"]),
  ("cast", ["operand", "to"]),
  ("case", ["branches", "otherwise"]),
  ("aggregate", ["func", "arg", "distinct", "filter"]),
  ("window", ["func", "args", "partition_by", "order_by"])]

def optionalName (fields : Fields Json) (name : String) : Option (Option String) :=
  Json.optionalField fields name Json.string?

/-- A flag that is off unless it is given. -/
def flag (fields : Fields Json) (name : String) : Option Bool :=
  fields.withDefault name false Json.bool?

/-- A sort key whose expression is read by `read`; it ascends unless it says otherwise. -/
def keyOf {ε : Type} (read : Json → Option ε) (j : Json) : Option (SortKey ε) := do
  let fields ← j.fields? ["expr", "desc"]
  let expr ← fields.required "expr" read
  let descending ← flag fields "desc"
  some ⟨expr, descending⟩

/-- An output whose expression is read by `read`. -/
def namedOf {ε : Type} (read : Json → Option ε) (j : Json) : Option (Named ε) := do
  let fields ← j.fields? ["expr", "alias"]
  let expr ← fields.required "expr" read
  let aliasName ← optionalName fields "alias"
  some ⟨expr, aliasName⟩

/-- A branch whose condition and result are read by `read`. -/
def branchOf {ε : Type} (read : Json → Option ε) (j : Json) : Option (ε × ε) := do
  let fields ← j.fields? ["when", "then"]
  let condition ← fields.required "when" read
  let result ← fields.required "then" read
  some (condition, result)

/-- A term of the given shape, its parts read by `read`. -/
def ofFields (read : Json → Option Term) (shape : String) (fields : Fields Json) : Option Term :=
  let terms := Json.items? read
  match shape with
  | "literal" => do
    let value ← fields.get? "value"
    let dataType ← Json.optionalField fields "data_type" (DataType.ofSource? Json.nested)
    some (.literal value.sorted dataType)
  | "column" => do
    let name ← fields.required "name" Json.string?
    let table ← optionalName fields "table"
    some (.column name table)
  | "unary" => do
    let op ← fields.required "op" (Json.nested.choice? UnaryOp.choices)
    let operand ← fields.required "operand" read
    some (.unary op operand)
  | "binary" => do
    let op ← fields.required "op" (Json.nested.choice? BinaryOp.choices)
    let left ← fields.required "left" read
    let right ← fields.required "right" read
    some (.binary op left right)
  | "call" => do
    let function ← fields.required "func" Json.string?
    let args ← fields.withDefault "args" [] terms
    some (.call function args)
  | "extract" => do
    let part ← fields.required "part" (Json.nested.choice? DatePart.choices)
    let operand ← fields.required "operand" read
    some (.extract part operand)
  | "to_timestamp" => do
    let operand ← fields.required "operand" read
    let unit ← fields.required "unit" (Json.nested.choice? TimeUnit.choices)
    some (.toTimestamp operand unit)
  | "in_list" => do
    let operand ← fields.required "operand" read
    let values ← fields.required "values" (Json.items? fun v => some v.sorted)
    let negated ← flag fields "negated"
    some (.inList operand values negated)
  | "is_null" => do
    let operand ← fields.required "operand" read
    let negated ← flag fields "negated"
    some (.isNull operand negated)
  | "cast" => do
    let operand ← fields.required "operand" read
    let target ← fields.required "to" (DataType.ofSource? Json.nested)
    some (.cast operand target)
  | "case" => do
    let branches ← fields.required "branches" (Json.items? (branchOf read))
    let otherwise ← Json.optionalField fields "otherwise" read
    some (.case branches otherwise)
  | "aggregate" => do
    let function ← fields.required "func" Json.string?
    let arg ← Json.optionalField fields "arg" read
    let distinct ← flag fields "distinct"
    let filter ← Json.optionalField fields "filter" read
    some (.aggregate function arg distinct filter)
  | "window" => do
    let function ← fields.required "func" Json.string?
    let args ← fields.withDefault "args" [] terms
    let partitionBy ← fields.withDefault "partition_by" [] terms
    let orderBy ← fields.withDefault "order_by" [] (Json.items? (keyOf read))
    some (.window function args partitionBy orderBy)
  | _ => none

/-- A term from a value of at most the given depth. -/
def read : Nat → Json → Option Term
  | 0, _ => none
  | depth + 1, j =>
    match j.tagged? "type" shapes true with
    | none => none
    | some (shape, fields) => ofFields (read depth) shape fields

/-- A term from a value that has been taken apart. -/
def ofJson? (j : Json) : Option Term := read j.depth j

end Term

namespace Plan

/-- The shapes of plans and their fields in order. -/
def shapes : Json.Shapes := [
  ("table", ["name", "alias"]),
  ("project", ["input", "exprs"]),
  ("filter", ["input", "predicates"]),
  ("aggregate", ["input", "keys", "metrics", "having"]),
  ("value_counts", ["input", "expr"]),
  ("sort", ["input", "keys"]),
  ("limit", ["input", "n", "offset"]),
  ("join", ["left", "right", "kind", "predicates"]),
  ("window", ["input", "exprs"]),
  ("distinct", ["input"])]

def namedTerms : Json → Option (List (Named Term)) := Json.items? (Term.namedOf Term.ofJson?)

def terms : Json → Option (List Term) := Json.items? Term.ofJson?

/-- A plan of the given shape, its inputs read by `read`. -/
def ofFields (read : Json → Option Plan) (shape : String) (fields : Fields Json) : Option Plan :=
  match shape with
  | "table" => do
    let name ← fields.required "name" Json.string?
    let aliasName ← Term.optionalName fields "alias"
    some (.table name aliasName)
  | "project" => do
    let input ← fields.required "input" read
    let exprs ← fields.required "exprs" namedTerms
    some (.project input exprs)
  | "filter" => do
    let input ← fields.required "input" read
    let predicates ← fields.required "predicates" terms
    some (.filter input predicates)
  | "aggregate" => do
    let input ← fields.required "input" read
    let keys ← fields.withDefault "keys" [] namedTerms
    let metrics ← fields.withDefault "metrics" [] namedTerms
    let having ← fields.withDefault "having" [] terms
    some (.aggregate input keys metrics having)
  | "value_counts" => do
    let input ← fields.required "input" read
    let expr ← fields.required "expr" (Term.namedOf Term.ofJson?)
    some (.valueCounts input expr)
  | "sort" => do
    let input ← fields.required "input" read
    let keys ← fields.required "keys" (Json.items? (Term.keyOf Term.ofJson?))
    some (.sort input keys)
  | "limit" => do
    let input ← fields.required "input" read
    let count ← Json.optionalField fields "n" (Json.natUpTo? maxCount)
    let offset ← fields.withDefault "offset" 0 (Json.natUpTo? maxCount)
    some (.limit input count offset)
  | "join" => do
    let left ← fields.required "left" read
    let right ← fields.required "right" read
    let kind ← fields.withDefault "kind" .inner (Json.nested.choice? JoinKind.choices)
    let predicates ← fields.withDefault "predicates" [] terms
    some (.join left right kind predicates)
  | "window" => do
    let input ← fields.required "input" read
    let exprs ← fields.required "exprs" namedTerms
    some (.window input exprs)
  | "distinct" => do
    let input ← fields.required "input" read
    some (.distinct input)
  | _ => none

/-- A plan from a value of at most the given depth; `nested` tells whether the value has been taken
apart. -/
def read : Nat → Bool → Json → Option Plan
  | 0, _, _ => none
  | depth + 1, nested, j =>
    match j.tagged? "op" shapes nested with
    | none => none
    | some (shape, fields) => ofFields (read depth true) shape fields

/-- A plan from the value of a text. -/
def ofJson? (j : Json) : Option Plan := read j.depth false j

/-- A plan from a value that has been taken apart. -/
def ofNested? (j : Json) : Option Plan := read j.depth true j

end Plan

end PlanSql
