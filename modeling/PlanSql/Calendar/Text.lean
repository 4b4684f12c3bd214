import PlanSql.Calendar.Date
import PlanSql.Number.Power
import PlanSql.Text.Blank
import PlanSql.Text.Digits

/-!
# Dates and timestamps as text

Written dates look like `2024-03-01` and timestamps like `2024-03-01 12:30:00.250`. Years outside 0
to 9999 are written with a sign; a fraction is written with three, six or nine digits, or not at
all.

Reading is more liberal than writing. White space may stand before each number, a year has at most
four digits unless it has a sign, the other numbers one or two, and digits of a fraction after the
ninth are dropped.
-/
namespace PlanSql

def yearText (year : Int) : String :=
  if 0 ≤ year ∧ year ≤ 9999 then Text.padded 10 4 year.toNat
  else (if year < 0 then "-" else "+") ++ Text.padded 10 4 year.natAbs

def Date.text (d : Date) : String :=
  yearText d.year ++ "-" ++ Text.padded 10 2 d.month ++ "-" ++ Text.padded 10 2 d.day

/-- The fraction of a second in the fewest of three, six and nine digits that are exact. -/
def fractionText (nanosecond : Nat) : String :=
  if nanosecond = 0 then ""
  else if nanosecond % 1000000 = 0 then "." ++ Text.padded 10 3 (nanosecond / 1000000)
  else if nanosecond % 1000 = 0 then "." ++ Text.padded 10 6 (nanosecond / 1000)
  else "." ++ Text.padded 10 9 nanosecond

def Timestamp.text (t : Timestamp) : String :=
  t.date.text ++ " " ++ Text.padded 10 2 t.hour ++ ":" ++ Text.padded 10 2 t.minute ++ ":"
    ++ Text.padded 10 2 t.second
    ++ fractionText t.nanosecond

/-- Why a text is no date. -/
inductive CalendarFault where
  | unexpected
  | outOfRange
  | tooShort
  | tooLong
  deriving DecidableEq, Repr

def CalendarFault.message : CalendarFault → String
  | .unexpected => "input contains invalid characters"
  | .outOfRange => "input is out of range"
  | .tooShort => "premature end of input"
  | .tooLong => "trailing input"

namespace Calendar

/-- A reader takes a part from the front of a text. -/
abbrev Reader (α : Type) := List Char → Except CalendarFault (α × List Char)

def skipBlank (cs : List Char) : List Char := cs.dropWhile Text.isBlank

/-- An unsigned number of one to `width` digits. -/
def number (width : Nat) : Reader Nat := fun cs =>
  match cs with
  | [] => .error .tooShort
  | _ =>
    let ds := (cs.take width).takeWhile Char.isDigit
    if ds.isEmpty then .error .unexpected else .ok (Text.digitsValue ds, cs.drop ds.length)

/-- A number of one or two digits within bounds, after white space. -/
def field (low high : Nat) : Reader Nat := fun cs => do
  let (n, rest) ← number 2 (skipBlank cs)
  if low ≤ n ∧ n ≤ high then .ok (n, rest) else .error .outOfRange

/-- A year: up to four digits, or a sign and any number of digits. -/
def year : Reader Int := fun cs =>
  match skipBlank cs with
  | '-' :: rest => do
    let (n, rest) ← number rest.length rest
    if n ≤ 2147483648 then .ok (-(n : Int), rest) else .error .outOfRange
  | '+' :: rest => do
    let (n, rest) ← number rest.length rest
    if n ≤ 2147483647 then .ok ((n : Int), rest) else .error .outOfRange
  | cs => do
    let (n, rest) ← number 4 cs
    .ok ((n : Int), rest)

def expect (c : Char) : Reader Unit
  | [] => .error .tooShort
  | d :: rest => if d = c then .ok ((), rest) else .error .unexpected

/-- The parts of a date, which need not be a date of the calendar. -/
def dateParts : Reader (Int × Nat × Nat) := fun cs => do
  let (y, cs) ← year cs
  let ((), cs) ← expect '-' cs
  let (m, cs) ← field 1 12 cs
  let ((), cs) ← expect '-' cs
  let (d, cs) ← field 1 31 cs
  .ok ((y, m, d), cs)

/-- A fraction of a second in nanoseconds; it may be missing. -/
def fraction : Reader Nat := fun cs =>
  match cs with
  | '.' :: [] => .error .tooShort
  | '.' :: rest =>
    let ds := rest.takeWhile Char.isDigit
    if ds.isEmpty then .error .unexpected
    else
      let kept := ds.take 9
      .ok (Text.digitsValue kept * pow10 (9 - kept.length), rest.dropWhile Char.isDigit)
  | cs => .ok (0, cs)

/-- Hour, minute, second and nanosecond. -/
def timeParts : Reader (Nat × Nat × Nat × Nat) := fun cs => do
  let (h, cs) ← field 0 23 cs
  let ((), cs) ← expect ':' cs
  let (m, cs) ← field 0 59 cs
  let ((), cs) ← expect ':' cs
  let (s, cs) ← field 0 60 cs
  let (n, cs) ← fraction cs
  .ok ((h, m, s, n), cs)

end Calendar

/-- The date a text names, or why it names none. -/
def Date.ofText (text : String) : Except CalendarFault Date := do
  let ((y, m, d), rest) ← Calendar.dateParts text.toList
  if rest.isEmpty then
    match Date.of? y m d with
    | some date => .ok date
    | none => .error .outOfRange
  else .error .tooLong

/-- The timestamp a text names, its two parts set apart by `separator`. -/
def Timestamp.ofParts? (separator : List Char → Option (List Char)) (text : String) :
    Option Timestamp := do
  let ((y, m, d), rest) ← (Calendar.dateParts text.toList).toOption
  let rest ← separator rest
  let ((h, mi, s, n), rest) ← (Calendar.timeParts rest).toOption
  if rest.isEmpty then Timestamp.of? (← Date.of? y m d) h mi s n else none

/-- The timestamp a text names; white space or nothing, or a `T`, sets the date apart from the
time. -/
def Timestamp.ofText? (text : String) : Option Timestamp :=
  Timestamp.ofParts? (fun cs => some (Calendar.skipBlank cs)) text <|>
    Timestamp.ofParts? (fun cs => match cs with | 'T' :: rest => some rest | _ => none) text

end PlanSql
