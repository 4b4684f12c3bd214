import PlanSql.Digest.Sha256
import PlanSql.Json.Text
import PlanSql.Plan.Basic

/-!
# Canonical JSON of plans

The canonical form of a plan puts the tag first and then the fields in order; absent names and
options and empty conditions on groups are left out, all else is written. The digest of its text
identifies the plan.
-/
namespace PlanSql

/-- The name that documents give to one of the choices. -/
def choiceName {α : Type} [DecidableEq α] (choices : List (String × α)) (a : α) : Json :=
  .string (((choices.find? fun c => c.2 = a).map (·.1)).getD "")

/-- A member that is left out in its absence. -/
def optionalMember (name : String) : Option Json → List (String × Json)
  | none => []
  | some j => [(name, j)]

namespace Term

mutual

/-- A term as a tagged record. -/
def toJson : Term → Json
  | .literal value dataType => .object
    ([("type", .string "literal"), ("value", value)]
      ++ optionalMember "data_type" (dataType.map DataType.toJson))
  | .column name table => .object
    ([("type", .string "column"), ("name", .string name)]
      ++ optionalMember "table" (table.map Json.string))
  | .unary op operand => .object
    [("type", .string "unary"), ("op", choiceName UnaryOp.choices op), ("operand", operand.toJson)]
  | .binary op left right => .object
    [("type", .string "binary"), ("op", choiceName BinaryOp.choices op), ("left", left.toJson),
      ("right", right.toJson)]
  | .call function args => .object
    [("type", .string "call"), ("func", .string function), ("args", .array (allToJson args))]
  | .extract part operand => .object
    [("type", .string "extract"), ("part", choiceName DatePart.choices part),
      ("operand", operand.toJson)]
  | .toTimestamp operand unit => .object
    [("type", .string "to_timestamp"), ("operand", operand.toJson),
      ("unit", choiceName TimeUnit.choices unit)]
  | .inList operand values negated => .object
    [("type", .string "in_list"), ("operand", operand.toJson), ("values", .array values),
      ("negated", .bool negated)]
  | .isNull operand negated => .object
    [("type", .string "is_null"), ("operand", operand.toJson), ("negated", .bool negated)]
  | .cast operand target => .object
    [("type", .string "cast"), ("operand", operand.toJson), ("to", target.toJson)]
  | .case branches otherwise => .object
    ([("type", .string "case"), ("branches", .array (branchesToJson branches))]
      ++ optionalMember "otherwise" (optionToJson otherwise))
  | .aggregate function arg distinct filter => .object
    ([("type", .string "aggregate"), ("func", .string function)]
      ++ optionalMember "arg" (optionToJson arg)
      ++ ("distinct", .bool distinct) :: optionalMember "filter" (optionToJson filter))
  | .window function args partitionBy orderBy => .object
    [("type", .string "window"), ("func", .string function), ("args", .array (allToJson args)),
      ("partition_by", .array (allToJson partitionBy)), ("order_by", .array (keysToJson orderBy))]

def allToJson : List Term → List Json
  | [] => []
  | t :: rest => t.toJson :: allToJson rest

def optionToJson : Option Term → Option Json
  | none => none
  | some t => some t.toJson

def branchesToJson : List (Term × Term) → List Json
  | [] => []
  | (condition, result) :: rest =>
    .object [("when", condition.toJson), ("then", result.toJson)] :: branchesToJson rest

def keysToJson : List (SortKey Term) → List Json
  | [] => []
  | ⟨t, descending⟩ :: rest =>
    .object [("expr", t.toJson), ("desc", .bool descending)] :: keysToJson rest

end

/-- An output as a record. -/
def namedToJson (n : Named Term) : Json :=
  .object (("expr", n.expr.toJson) :: optionalMember "alias" (n.aliasName.map Json.string))

end Term

namespace Plan

def namedTermsToJson (exprs : List (Named Term)) : Json := .array (exprs.map Term.namedToJson)

def termsToJson (ts : List Term) : Json := .array (ts.map Term.toJson)

/-- A plan as a tagged record. -/
def toJson : Plan → Json
  | .table name aliasName => .object
    ([("op", .string "table"), ("name", .string name)]
      ++ optionalMember "alias" (aliasName.map Json.string))
  | .project input exprs => .object
    [("op", .string "project"), ("input", input.toJson), ("exprs", namedTermsToJson exprs)]
  | .filter input predicates => .object
    [("op", .string "filter"), ("input", input.toJson), ("predicates", termsToJson predicates)]
  | .aggregate input keys metrics having => .object
    ([("op", .string "aggregate"), ("input", input.toJson), ("keys", namedTermsToJson keys),
      ("metrics", namedTermsToJson metrics)]
      ++ if having.isEmpty then [] else [("having", termsToJson having)])
  | .valueCounts input expr => .object
    [("op", .string "value_counts"), ("input", input.toJson), ("expr", Term.namedToJson expr)]
  | .sort input keys => .object
    [("op", .string "sort"), ("input", input.toJson), ("keys", .array (Term.keysToJson keys))]
  | .limit input count offset => .object
    [("op", .string "limit"), ("input", input.toJson), ("n", (count.map Json.nat).getD .null),
      ("offset", .nat offset)]
  | .join left right kind predicates => .object
    [("op", .string "join"), ("left", left.toJson), ("right", right.toJson),
      ("kind", choiceName JoinKind.choices kind), ("predicates", termsToJson predicates)]
  | .window input exprs => .object
    [("op", .string "window"), ("input", input.toJson), ("exprs", namedTermsToJson exprs)]
  | .distinct input => .object [("op", .string "distinct"), ("input", input.toJson)]

def canonical (p : Plan) : String := p.toJson.text

/-- The digest of the canonical text. -/
def fingerprint (p : Plan) : String := Sha256.ofText p.canonical

end Plan

end PlanSql
