import Egress.Json.Reader
import Egress.Text.Blank

/-!
Points in time in the manner of RFC 3339.

`Timestamp.parse` reads a date, a separator, a time of day and an offset from UTC. Blanks may stand
around the parts, and a year may have a sign and any number of digits. `Timestamp.format` writes the
point in UTC with as many groups of three fraction digits as it needs.
-/

set_option autoImplicit false

namespace Egress

/-- A point in time: seconds since the start of 1970 in UTC, and nanoseconds within the second. A
second that is inserted before midnight counts as nanoseconds from 10⁹ on. -/
structure Timestamp where
  seconds : Int
  nanos : Nat
  deriving DecidableEq, Inhabited

/-- Why a text is no point in time. -/
inductive TimestampError
  | outOfRange
  | impossible
  | invalid
  | tooShort
  | tooLong
  deriving DecidableEq

def TimestampError.message : TimestampError → String
  | .outOfRange => "input is out of range"
  | .impossible => "no possible date and time matching input"
  | .invalid => "input contains invalid characters"
  | .tooShort => "premature end of input"
  | .tooLong => "trailing input"

namespace Timestamp

/-- The years that have dates. -/
def leastYear : Int := -262143

/-- The last year that has dates. -/
def greatestYear : Int := 262142

/-- Whether the year has a 29th of February. -/
def isLeapYear (year : Int) : Bool :=
  year % 4 = 0 && (year % 100 ≠ 0 || year % 400 = 0)

def daysInMonth (year : Int) (month : Nat) : Nat :=
  if month = 2 then (if isLeapYear year then 29 else 28)
  else if month = 4 || month = 6 || month = 9 || month = 11 then 30
  else 31

/-- Days from the start of 1970 to a date. Years are counted from March, so that the leap day is the
last one. -/
def daysOfDate (year : Int) (month day : Nat) : Int :=
  let y := if month ≤ 2 then year - 1 else year
  let era := y / 400
  let yearOfEra := y % 400
  let dayOfYear : Int := ((153 * ((month : Int) + (if 2 < month then -3 else 9)) + 2) / 5) + day - 1
  era * 146097 + yearOfEra * 365 + yearOfEra / 4 - yearOfEra / 100 + dayOfYear - 719468

/-- Year, month and day that lie `days` after the start of 1970. -/
def dateOfDays (days : Int) : Int × Nat × Nat :=
  let z := days + 719468
  let era := z / 146097
  let dayOfEra := z % 146097
  let yearOfEra := (dayOfEra - dayOfEra / 1460 + dayOfEra / 36524 - dayOfEra / 146096) / 365
  let dayOfYear := dayOfEra - (365 * yearOfEra + yearOfEra / 4 - yearOfEra / 100)
  let m := (5 * dayOfYear + 2) / 153
  let day := dayOfYear - (153 * m + 2) / 5 + 1
  let month := if m < 10 then m + 3 else m - 9
  let year := yearOfEra + era * 400 + (if month ≤ 2 then 1 else 0)
  (year, month.toNat, day.toNat)

/-- A reader takes a value off the front of a text. -/
abbrev Reader (α : Type) := List Char → Except TimestampError (α × List Char)

/-- The text after leading white space. -/
def skipBlank (cs : List Char) : List Char := cs.dropWhile Text.isBlank

/-- A number of one to `width` digits. -/
def readNumber (width : Option Nat) : Reader Nat := fun cs =>
  if cs.isEmpty then .error .tooShort
  else
    let digits := (width.elim cs cs.take).takeWhile Json.isDigit
    if digits.isEmpty then .error .invalid
    else
      let n := Json.digitsValue digits
      if 9223372036854775808 ≤ n then .error .outOfRange else .ok (n, cs.drop digits.length)

/-- A number between the bounds after white space. -/
def readField (low high : Nat) : Reader Nat := fun cs => do
  let (n, rest) ← readNumber (some 2) (skipBlank cs)
  if low ≤ n && n ≤ high then return (n, rest) else throw .outOfRange

/-- A year; with a sign it may have any number of digits. -/
def readYear : Reader Int := fun cs => do
  let (year, rest) ← match skipBlank cs with
    | '-' :: rest => do
      let (n, rest) ← readNumber none rest
      pure (-(n : Int), rest)
    | '+' :: rest => do
      let (n, rest) ← readNumber none rest
      pure ((n : Int), rest)
    | rest => do
      let (n, rest) ← readNumber (some 4) rest
      pure ((n : Int), rest)
  if -2147483648 ≤ year && year < 2147483648 then return (year, rest) else throw .outOfRange

/-- The given character after white space. -/
def readMark (mark : Char) : Reader Unit := fun cs =>
  match skipBlank cs with
  | [] => .error .tooShort
  | c :: rest => if c = mark then .ok ((), rest) else .error .invalid

/-- The fraction of a second in nanoseconds; digits after the ninth are dropped. -/
def readFraction : Reader Nat
  | '.' :: cs => do
    let (n, rest) ← readNumber (some 9) cs
    let places := cs.length - rest.length
    return (n * Nat.pow 10 (9 - places), rest.dropWhile Json.isDigit)
  | cs => .ok (0, cs)

/-- Two digits of an offset; the first one is below `limit`. -/
def readOffsetPart (limit : Nat) : Reader Nat
  | a :: b :: rest =>
    if Json.isDigit a && Json.isDigit b then
      if Json.digitValue a < limit then .ok (10 * Json.digitValue a + Json.digitValue b, rest)
      else .error .outOfRange
    else .error .invalid
  | [c] => if Text.isAscii c then .error .tooShort else .error .invalid
  | [] => .error .tooShort

/-- The offset from UTC in seconds: `Z`, `UTC`, or a sign with hours and minutes. -/
def readOffset : Reader Int
  | 'Z' :: rest => .ok (0, rest)
  | 'z' :: rest => .ok (0, rest)
  | cs =>
    if (cs.take 3).map Char.toLower = ['u', 't', 'c'] then .ok (0, cs.drop 3)
    else
      match cs with
      | [] => .error .tooShort
      | c :: rest =>
        if c = '+' || c = '-' || c = '−' then do
          let (hours, rest) ← readOffsetPart 10 rest
          let (minutes, rest) ← readOffsetPart 6 (rest.dropWhile fun c => c = ':' || Text.isBlank c)
          let seconds : Int := 3600 * hours + 60 * minutes
          return (if c = '+' then seconds else -seconds, rest)
        else throw .invalid

/-- The point of a date and time of day at an offset. -/
def ofParts (year : Int) (month day hour minute second nanos : Nat) (offset : Int) :
    Except TimestampError Timestamp :=
  if year < leastYear || greatestYear < year || daysInMonth year month < day then .error .outOfRange
  else if offset ≤ -86400 || 86400 ≤ offset then .error .outOfRange
  else
    let localSeconds : Int := daysOfDate year month day * 86400 +
      (3600 * hour + 60 * minute + (if second = 60 then 59 else second) : Nat)
    let seconds := localSeconds - offset
    let (utcYear, _, _) := dateOfDays (seconds / 86400)
    if utcYear < leastYear || greatestYear < utcYear then .error .impossible
    else .ok ⟨seconds, if second = 60 then 1000000000 + nanos else nanos⟩

def parse (text : String) : Except TimestampError Timestamp := do
  let (year, cs) ← readYear text.toList
  let ((), cs) ← readMark '-' cs
  let (month, cs) ← readField 1 12 cs
  let ((), cs) ← readMark '-' cs
  let (day, cs) ← readField 1 31 cs
  let cs ← match cs with
    | [] => throw .tooShort
    | c :: rest => if c = 'T' || c = 't' || c = ' ' then pure rest else throw .invalid
  let (hour, cs) ← readField 0 23 cs
  let ((), cs) ← readMark ':' cs
  let (minute, cs) ← readField 0 59 cs
  let ((), cs) ← readMark ':' cs
  let (second, cs) ← readField 0 60 cs
  let (nanos, cs) ← readFraction cs
  let (offset, cs) ← readOffset (skipBlank cs)
  if (skipBlank cs).isEmpty then ofParts year month day hour minute second nanos offset
  else throw .tooLong

/-- The decimal digits of `n`, filled up with zeros to `width`. -/
def padded (width n : Nat) : String :=
  let digits := Nat.toDigits 10 n
  String.ofList (List.replicate (width - digits.length) '0' ++ digits)

/-- Writes the point in UTC. Years outside 0 to 9999 have a sign. -/
def format (t : Timestamp) : String :=
  let (year, month, day) := dateOfDays (t.seconds / 86400)
  let time := (t.seconds % 86400).toNat
  let leap := if 1000000000 ≤ t.nanos then 1 else 0
  let nanos := t.nanos % 1000000000
  let date :=
    if 0 ≤ year && year ≤ 9999 then padded 4 year.toNat
    else (if year < 0 then "-" else "+") ++ padded 4 year.natAbs
  let fraction :=
    if nanos = 0 then ""
    else if nanos % 1000000 = 0 then "." ++ padded 3 (nanos / 1000000)
    else if nanos % 1000 = 0 then "." ++ padded 6 (nanos / 1000)
    else "." ++ padded 9 nanos
  date ++ "-" ++ padded 2 month ++ "-" ++ padded 2 day ++ "T" ++ padded 2 (time / 3600) ++ ":" ++
    padded 2 (time / 60 % 60) ++ ":" ++ padded 2 (time % 60 + leap) ++ fraction ++ "Z"

end Timestamp

end Egress
