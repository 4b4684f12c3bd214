import PlanSql.Dialect.Basic

/-!
# Counts of requests

Counts of requests by dialect and outcome. A counter lists its series in the order of their names,
so that it depends on how often each series was counted and not on when. Counters are published as
lines of text.
-/
namespace PlanSql.Service

/-- What is counted together: the requests for a dialect that had one outcome. -/
structure Series where
  dialect : Dialect
  outcome : String
  deriving DecidableEq, Repr

/-- Series are in the order of their dialects' names, then of their outcomes. -/
def Series.before (s t : Series) : Bool :=
  s.dialect.name < t.dialect.name || (s.dialect.name = t.dialect.name && s.outcome < t.outcome)

/-- How often each series was counted. -/
abbrev Counter := List (Series × Nat)

namespace Counter

/-- Counts the series once more. -/
def increment (s : Series) : Counter → Counter
  | [] => [(s, 1)]
  | (t, n) :: rest =>
    if s = t then (t, n + 1) :: rest
    else if s.before t then (s, 1) :: (t, n) :: rest
    else (t, n) :: increment s rest

/-- How often the series that satisfy `p` were counted. -/
def tally (p : Series → Bool) : Counter → Nat
  | [] => 0
  | (s, n) :: rest => (if p s then n else 0) + tally p rest

/-- How often the series was counted. -/
def count (c : Counter) (s : Series) : Nat := c.tally fun t => t = s

/-- How often the dialect was counted, whatever the outcome. -/
def total (c : Counter) (d : Dialect) : Nat := c.tally fun t => t.dialect = d

def record (c : Counter) : Option Series → Counter
  | none => c
  | some s => c.increment s

theorem tally_increment (p : Series → Bool) (s : Series) (c : Counter) :
    (c.increment s).tally p = c.tally p + if p s then 1 else 0 := by
  induction c with
  | nil => simp [increment, tally]
  | cons entry rest ih =>
    obtain ⟨t, n⟩ := entry
    unfold increment
    split
    · next h => subst h; cases h : p s <;> simp [tally, h]; omega
    · split
      · simp only [tally]; omega
      · simp only [tally, ih]; omega

/-- The dialects that were counted, in the order of their names. -/
def dialects (c : Counter) : List Dialect := (c.map fun entry => entry.1.dialect).eraseDups

end Counter

/-- The counters of a service. -/
structure Metrics where
  compilations : Counter
  statements : Counter
  deriving DecidableEq, Repr

def Metrics.start : Metrics := ⟨[], []⟩

/-- The lines that are published under one name. -/
structure Family where
  name : String
  help : String
  kind : String
  samples : List String

namespace Family

/-- A family without samples is left out. -/
def lines (f : Family) : List String :=
  if f.samples.isEmpty then []
  else ("# HELP " ++ f.name ++ " " ++ f.help) :: ("# TYPE " ++ f.name ++ " " ++ f.kind) :: f.samples

end Family

/-- A published number with its labels. -/
def sampleLine (name : String) (labels : List (String × String)) (n : Nat) : String :=
  let label (l : String × String) : String := l.1 ++ "=\"" ++ l.2 ++ "\""
  name ++ "\x7b" ++ ",".intercalate (labels.map label) ++ "\x7d " ++ toString n

def Counter.family (name help : String) (c : Counter) : Family :=
  ⟨name, help, "counter", c.map fun (s, n) =>
    sampleLine name [("dialect", s.dialect.name), ("outcome", s.outcome)] n⟩

namespace Metrics

/-- How many compilations were timed; the times are not kept. -/
def timings (m : Metrics) : Family :=
  let name := "relc_compile_duration_seconds"
  ⟨name, "Time spent compiling a query", "histogram", m.compilations.dialects.map fun d =>
    sampleLine (name ++ "_count") [("dialect", d.name)] (m.compilations.total d)⟩

/-- The published text. -/
def lines (m : Metrics) : List String :=
  (m.compilations.family "relc_compilations_total" "Queries compiled, by dialect and outcome").lines
    ++ m.timings.lines
    ++ (m.statements.family "relc_ddl_statements_total"
      "DDL statements rendered, by dialect and outcome").lines

/-- The media type of the published text. -/
def contentType : String := "text/plain; version=0.0.4"

end Metrics

end PlanSql.Service
