import Egress.Timestamp

/-!
Dates and times as TOML has them.

A moment is a date, a time of day or both, and with both it may have an offset from UTC. `Moment.read`
takes the longest moment off the front of a text, and `Moment.format` writes it in one canonical way.
-/

set_option autoImplicit false

namespace Egress.Toml

/-- A reader takes a value off the front of a text. -/
abbrev Reader (α : Type) := List Char → Option (α × List Char)

/-- A day of the calendar. -/
structure Date where
  year : Nat
  month : Nat
  day : Nat
  deriving DecidableEq

/-- A time of day. -/
structure TimeOfDay where
  hour : Nat
  minute : Nat
  second : Nat
  nanos : Nat
  deriving DecidableEq

/-- How far a clock is from UTC. -/
inductive Offset
  | utc
  | ahead (hours minutes : Nat)
  | behind (hours minutes : Nat)
  deriving DecidableEq

/-- A date, a time, or both. -/
inductive Moment
  | date (date : Date)
  | time (time : TimeOfDay)
  | both (date : Date) (time : TimeOfDay) (offset : Option Offset)
  deriving DecidableEq

def readMark (mark : Char) : Reader Unit
  | c :: rest => if c = mark then some ((), rest) else none
  | [] => none

/-- A number of exactly `count` digits, at most `high`. -/
def readDigits (count high : Nat) : Reader Nat := fun cs =>
  let digits := cs.take count
  let n := Json.digitsValue digits
  if digits.length = count && digits.all Json.isDigit && n ≤ high then some (n, cs.drop count)
  else none

/-- A day that the month has. -/
def Date.read : Reader Date := fun cs => do
  let (year, cs) ← readDigits 4 9999 cs
  let ((), cs) ← readMark '-' cs
  let (month, cs) ← readDigits 2 12 cs
  let ((), cs) ← readMark '-' cs
  let (day, cs) ← readDigits 2 31 cs
  if 1 ≤ month && 1 ≤ day && day ≤ Timestamp.daysInMonth year month then
    return (⟨year, month, day⟩, cs)
  else none

/-- The fraction of a second in nanoseconds; digits after the ninth are dropped. -/
def readNanos : Reader Nat
  | '.' :: cs =>
    match cs.span Json.isDigit with
    | ([], _) => none
    | (digits, rest) =>
      let kept := digits.take 9
      some (Json.digitsValue kept * Nat.pow 10 (9 - kept.length), rest)
  | cs => some (0, cs)

/-- A time of day; the sixtieth second is one that was inserted. -/
def TimeOfDay.read : Reader TimeOfDay := fun cs => do
  let (hour, cs) ← readDigits 2 23 cs
  let ((), cs) ← readMark ':' cs
  let (minute, cs) ← readDigits 2 59 cs
  let ((), cs) ← readMark ':' cs
  let (second, cs) ← readDigits 2 60 cs
  let (nanos, cs) ← readNanos cs
  return (⟨hour, minute, second, nanos⟩, cs)

def readHoursMinutes : Reader (Nat × Nat) := fun cs => do
  let (hours, cs) ← readDigits 2 23 cs
  let ((), cs) ← readMark ':' cs
  let (minutes, cs) ← readDigits 2 59 cs
  return ((hours, minutes), cs)

/-- The offset, if there is one. -/
def Offset.read : Reader (Option Offset)
  | 'Z' :: cs => some (some .utc, cs)
  | 'z' :: cs => some (some .utc, cs)
  | '+' :: cs => do
    let ((hours, minutes), cs) ← readHoursMinutes cs
    return (some (.ahead hours minutes), cs)
  | '-' :: cs => do
    let ((hours, minutes), cs) ← readHoursMinutes cs
    return (some (if hours = 0 && minutes = 0 then .ahead 0 0 else .behind hours minutes), cs)
  | cs => some (none, cs)

/-- The time and offset behind a date and the character between them. -/
def readTimePart : Reader (TimeOfDay × Option Offset)
  | c :: cs =>
    if c = 'T' || c = 't' || c = ' ' then do
      let (time, cs) ← TimeOfDay.read cs
      let (offset, cs) ← Offset.read cs
      return ((time, offset), cs)
    else none
  | [] => none

/-- A moment. What follows a date and is no time is left over. -/
def Moment.read : Reader Moment := fun cs =>
  match Date.read cs with
  | some (d, rest) =>
    match readTimePart rest with
    | some ((t, offset), rest) => some (.both d t offset, rest)
    | none => some (.date d, rest)
  | none => (TimeOfDay.read cs).map fun r => (.time r.1, r.2)

open Timestamp in
def Date.format (d : Date) : String :=
  padded 4 d.year ++ "-" ++ padded 2 d.month ++ "-" ++ padded 2 d.day

open Timestamp in
/-- The time, with a fraction unless it is zero. -/
def TimeOfDay.format (t : TimeOfDay) : String :=
  let fraction :=
    if t.nanos = 0 then ""
    else "." ++ String.ofList (((padded 9 t.nanos).toList.reverse.dropWhile (· = '0')).reverse)
  padded 2 t.hour ++ ":" ++ padded 2 t.minute ++ ":" ++ padded 2 t.second ++ fraction

open Timestamp in
/-- The offset as it is written. -/
def Offset.format : Offset → String
  | .utc => "Z"
  | .ahead hours minutes => "+" ++ padded 2 hours ++ ":" ++ padded 2 minutes
  | .behind hours minutes => "-" ++ padded 2 hours ++ ":" ++ padded 2 minutes

/-- The moment as it is written, a `T` between date and time. -/
def Moment.format : Moment → String
  | .date d => d.format
  | .time t => t.format
  | .both d t offset => d.format ++ "T" ++ t.format ++ offset.elim "" Offset.format

end Egress.Toml
