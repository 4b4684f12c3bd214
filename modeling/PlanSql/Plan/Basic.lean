import PlanSql.Relation.Basic

/-!
# Plans as documents

Plans as documents: operators and terms by name, before any column is looked up. Functions keep the
names they are called by, constants the JSON values they are given as.
-/
namespace PlanSql

/-- A scalar term. -/
inductive Term where
  /-- A JSON value; a text may be read as a date or timestamp. -/
  | literal (value : Json) (dataType : Option DataType)
  | column (name : String) (table : Option String)
  | unary (op : UnaryOp) (operand : Term)
  | binary (op : BinaryOp) (left right : Term)
  | call (function : String) (args : List Term)
  | extract (part : DatePart) (operand : Term)
  | toTimestamp (operand : Term) (unit : TimeUnit)
  | inList (operand : Term) (values : List Json) (negated : Bool)
  | isNull (operand : Term) (negated : Bool)
  | cast (operand : Term) (target : DataType)
  | case (branches : List (Term × Term)) (otherwise : Option Term)
  | aggregate (function : String) (arg : Option Term) (distinct : Bool) (filter : Option Term)
  | window (function : String) (args : List Term) (partitionBy : List Term)
      (orderBy : List (SortKey Term))
  deriving Repr

instance : Inhabited Term := ⟨.literal .null none⟩

inductive Plan where
  | table (name : String) (aliasName : Option String)
  | project (input : Plan) (exprs : List (Named Term))
  | filter (input : Plan) (predicates : List Term)
  | aggregate (input : Plan) (keys metrics : List (Named Term)) (having : List Term)
  | valueCounts (input : Plan) (expr : Named Term)
  | sort (input : Plan) (keys : List (SortKey Term))
  | limit (input : Plan) (count : Option Nat) (offset : Nat)
  | join (left right : Plan) (kind : JoinKind) (predicates : List Term)
  | window (input : Plan) (exprs : List (Named Term))
  | distinct (input : Plan)
  deriving Repr

instance : Inhabited Plan := ⟨.table "" none⟩

end PlanSql
