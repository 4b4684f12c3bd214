import PlanSql.Dialect.Basic
import PlanSql.Rule.Template

/-!
# Rule sets

A rule set holds the rules of one dialect by function name. The sets that come with the library are
the common rules with what each dialect does differently.
-/
namespace PlanSql

/-- Rules by function name, each name once. -/
abbrev RuleSet := List (String × Rule)

namespace RuleSet

/-- A rule put into the set, in the place of one for the same function. -/
def insert (name : String) (rule : Rule) : RuleSet → RuleSet
  | [] => [(name, rule)]
  | (n, r) :: rest => if n = name then (name, rule) :: rest else (n, r) :: insert name rule rest

def get? (rules : RuleSet) (name : String) : Option Rule := rules.lookup name

def contains (rules : RuleSet) (name : String) : Bool := (rules.get? name).isSome

/-- The set with further rules, which take the place of earlier ones. -/
def override (rules : RuleSet) (further : List (String × Rule)) : RuleSet :=
  further.foldl (fun rules (name, rule) => insert name rule rules) rules

end RuleSet

namespace Rule

/-- The function under another name. -/
def rename (name : String) : Rule := .template (.rename name)

def call (name : String) (items : List Template) : Rule := .template (.call name items)

/-- The argument divided by a number. -/
def dividedBy (scale : String) : Template := .binary .divide (.arg 0) (.number scale)

/-- The rules that most dialects share. -/
def common : RuleSet := [
  ("abs", rename "ABS"), ("ceil", rename "CEIL"), ("floor", rename "FLOOR"),
  ("round", rename "ROUND"), ("round_digits", rename "ROUND"), ("lower", rename "LOWER"),
  ("upper", rename "UPPER"), ("length", rename "LENGTH"), ("substr", rename "SUBSTR"),
  ("coalesce", rename "COALESCE"), ("count", rename "COUNT"), ("sum", rename "SUM"),
  ("mean", rename "AVG"), ("min", rename "MIN"), ("max", rename "MAX"),
  ("stddev", rename "STDDEV_SAMP"), ("variance", rename "VAR_SAMP"),
  ("row_number", rename "ROW_NUMBER"), ("rank", rename "RANK"),
  ("dense_rank", rename "DENSE_RANK"), ("lag", rename "LAG"), ("lead", rename "LEAD")]

/-- The fields of dates and times by the names that EXTRACT knows them by. -/
def extractFields : List (String × String) := [
  ("year", "YEAR"), ("quarter", "QUARTER"), ("month", "MONTH"), ("week_of_year", "WEEK"),
  ("day_of_year", "DOY"), ("day", "DAY"), ("hour", "HOUR"), ("minute", "MINUTE"),
  ("second", "SECOND")]

/-- Every field by EXTRACT, with something done to the result. -/
def extracts (finish : Template → Template) : List (String × Rule) :=
  extractFields.map fun (name, field) => (name, .template (finish (.extract field (.arg 0))))

/-- The fields by functions of their own, as several dialects name them. -/
def fieldFunctions (weekOfYear : Rule) : List (String × Rule) := [
  ("year", rename "YEAR"), ("quarter", rename "QUARTER"), ("month", rename "MONTH"),
  ("week_of_year", weekOfYear), ("day_of_year", rename "DAYOFYEAR"), ("day", rename "DAYOFMONTH"),
  ("hour", rename "HOUR"), ("minute", rename "MINUTE"), ("second", rename "SECOND")]

/-- Fields are integers; EXTRACT of seconds has a fraction, which is cut off first. -/
def postgres : List (String × Rule) :=
  extracts (fun t => .cast t "INTEGER") ++ [
    ("second", .template (.cast (.call "FLOOR" [.extract "SECOND" (.arg 0)]) "INTEGER")),
    ("to_timestamp_s", rename "TO_TIMESTAMP"),
    ("to_timestamp_ms", call "TO_TIMESTAMP" [dividedBy "1000.0"]),
    ("to_timestamp_us", call "TO_TIMESTAMP" [dividedBy "1000000.0"]),
    ("round_digits", call "ROUND" [.cast (.arg 0) "NUMERIC", .arg 1])]

def duckdb : List (String × Rule) :=
  extracts (fun t => t) ++ [
    ("to_timestamp_s", rename "TO_TIMESTAMP"),
    ("to_timestamp_ms", rename "EPOCH_MS"),
    ("to_timestamp_us", rename "MAKE_TIMESTAMP")]

/-- A timestamp from a number of seconds, by way of its text. -/
def fromUnixTime (seconds : Template) : Rule :=
  call "TO_TIMESTAMP" [.call "FROM_UNIXTIME" [seconds]]

def flink : List (String × Rule) := [
  ("year", .template (.extract "YEAR" (.arg 0))),
  ("quarter", .template (.extract "QUARTER" (.arg 0))),
  ("month", .template (.extract "MONTH" (.arg 0))),
  ("week_of_year", .template (.extract "WEEK" (.arg 0))),
  ("day_of_year", rename "DAYOFYEAR"), ("day", rename "DAYOFMONTH"), ("hour", rename "HOUR"),
  ("minute", rename "MINUTE"), ("second", rename "SECOND"),
  ("to_timestamp_s", fromUnixTime (.arg 0)),
  ("to_timestamp_ms", fromUnixTime (.binary .divide (.arg 0) (.int 1000))),
  ("to_timestamp_us", fromUnixTime (.binary .divide (.arg 0) (.int 1000000))),
  ("length", rename "CHAR_LENGTH"), ("substr", rename "SUBSTRING")]

def spark : List (String × Rule) :=
  fieldFunctions (rename "WEEKOFYEAR") ++ [
    ("to_timestamp_s", rename "TIMESTAMP_SECONDS"),
    ("to_timestamp_ms", rename "TIMESTAMP_MILLIS"),
    ("to_timestamp_us", rename "TIMESTAMP_MICROS")]

/-- Week mode 3 counts weeks as ISO 8601 does. -/
def mysql : List (String × Rule) :=
  fieldFunctions (call "WEEK" [.arg 0, .int 3]) ++ [
    ("to_timestamp_s", rename "FROM_UNIXTIME"),
    ("to_timestamp_ms", call "FROM_UNIXTIME" [dividedBy "1000"]),
    ("to_timestamp_us", call "FROM_UNIXTIME" [dividedBy "1000000"]),
    ("ceil", rename "CEILING"), ("length", rename "CHAR_LENGTH"), ("substr", rename "SUBSTRING")]

/-- A field of a date by its format letter. -/
def strftime (format : String) (date : Template) : Template :=
  .cast (.call "STRFTIME" [.string format, date]) "INTEGER"

/-- The argument without its fraction. -/
def truncated : Template := .cast (.arg 0) "INTEGER"

/-- The Thursday of the argument's ISO week, which decides the year and the number of the week. -/
def isoThursday : Template := .call "DATE" [.arg 0, .string "-3 days", .string "weekday 4"]

def unixEpoch (seconds : Template) : Rule := call "DATETIME" [seconds, .string "unixepoch"]

/-- Without functions for it, rounding compares with the truncated value, and the week is counted
from the day of the year of the week's Thursday. -/
def sqlite : List (String × Rule) := [
  ("year", .template (strftime "%Y" (.arg 0))),
  ("quarter", .template
    (.binary .divide (.binary .plus (strftime "%m" (.arg 0)) (.int 2)) (.int 3))),
  ("month", .template (strftime "%m" (.arg 0))),
  ("week_of_year", .template (.binary .plus
    (.binary .divide (.binary .minus (strftime "%j" isoThursday) (.int 1)) (.int 7)) (.int 1))),
  ("day_of_year", .template (strftime "%j" (.arg 0))),
  ("day", .template (strftime "%d" (.arg 0))),
  ("hour", .template (strftime "%H" (.arg 0))),
  ("minute", .template (strftime "%M" (.arg 0))),
  ("second", .template (strftime "%S" (.arg 0))),
  ("to_timestamp_s", unixEpoch (.arg 0)),
  ("to_timestamp_ms", unixEpoch (dividedBy "1000.0")),
  ("to_timestamp_us", unixEpoch (dividedBy "1000000.0")),
  ("ceil", .template (.binary .plus truncated (.binary .gt (.arg 0) truncated))),
  ("floor", .template (.binary .minus truncated (.binary .lt (.arg 0) truncated))),
  ("stddev", .unsupported "SQLite has no sample standard deviation aggregate"),
  ("variance", .unsupported "SQLite has no sample variance aggregate")]

end Rule

namespace RuleSet

/-- The rules that come with the library for a dialect. -/
def builtin (d : Dialect) : RuleSet :=
  override Rule.common <| match d with
    | .postgres => Rule.postgres
    | .duckdb => Rule.duckdb
    | .flink => Rule.flink
    | .spark => Rule.spark
    | .mysql => Rule.mysql
    | .sqlite => Rule.sqlite

end RuleSet

end PlanSql
