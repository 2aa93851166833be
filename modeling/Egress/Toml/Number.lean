import Egress.Double.Nearest
import Egress.Text.Ascii
import Egress.Toml.Moment
import Egress.Toml.Table

/-!
Numbers in TOML.

Digits may be grouped by underscores, each between two digits. A number with a fraction or an exponent
is the nearest double; a whole number has to fit 64 bits with a sign.
-/

set_option autoImplicit false

namespace Egress.Toml

/-- Digits in groups, without the underscores between them. With `due` a digit has to come next. -/
def readGroups (isDigit : Char → Bool) : Bool → Reader (List Char)
  | due, [] => if due then none else some ([], [])
  | due, '_' :: rest => if due then none else readGroups isDigit true rest
  | due, c :: rest =>
    if isDigit c then (readGroups isDigit false rest).map fun r => (c :: r.1, r.2)
    else if due then none
    else some ([], c :: rest)

/-- Digits in groups, at least one. -/
def readGrouped (isDigit : Char → Bool) : Reader (List Char) := readGroups isDigit true

/-- A whole part: a zero alone, or digits in groups that begin with another one. -/
def readWhole : Reader (List Char)
  | '0' :: rest => some (['0'], rest)
  | cs => readGrouped Json.isDigit cs

/-- A sign, whether it is a minus, and the text behind it. -/
def splitSign : List Char → Bool × List Char
  | '-' :: rest => (true, rest)
  | '+' :: rest => (false, rest)
  | cs => (false, cs)

/-- The digits of a fraction, none where there is no point. -/
def readFraction : Reader (List Char)
  | '.' :: rest => readGrouped Json.isDigit rest
  | cs => some ([], cs)

/-- An exponent, zero where there is none. -/
def readExponent : Reader Int
  | c :: rest =>
    if c = 'e' || c = 'E' then do
      let (negative, rest) := splitSign rest
      let (digits, rest) ← readGrouped Json.isDigit rest
      let n : Int := Json.digitsValue digits
      return (if negative then -n else n, rest)
    else some (0, c :: rest)
  | [] => some (0, [])

/-- A number that is not finite, by its name. -/
def readNamed (negative : Bool) : Reader Value
  | 'i' :: 'n' :: 'f' :: rest => some (.double (Double.infinity.withSign negative), rest)
  | 'n' :: 'a' :: 'n' :: rest => some (.double (Double.nan.withSign negative), rest)
  | _ => none

/-- A number with a fraction or an exponent. One above every double is refused, one below becomes
minus infinity. -/
def readDouble : Reader Value := fun cs => do
  let (negative, cs) := splitSign cs
  let (whole, cs) ← readWhole cs
  match cs with
  | '.' :: _ | 'e' :: _ | 'E' :: _ =>
    let (fraction, cs) ← readFraction cs
    let (exponent, cs) ← readExponent cs
    let d := Double.ofDigits negative (Json.digitsValue (whole ++ fraction))
      (exponent - fraction.length)
    if d = Double.infinity then none else return (.double d, cs)
  | _ => none

/-- The bound of whole numbers: 64 bits with a sign. -/
def wordBound : Int := 9223372036854775808

/-- A whole number that fits 64 bits with a sign. -/
def wholeValue? (n : Int) : Option Value :=
  if -wordBound ≤ n && n < wordBound then some (.int n) else none

/-- Digits to a base that is a power of two. -/
def readBase (base : Nat) (cs : List Char) : Option (Value × List Char) := do
  let isDigit := fun c => (Text.hexValue? c).any (· < base)
  let (digits, rest) ← readGrouped isDigit cs
  let n := digits.foldl (fun n c => base * n + (Text.hexValue? c).getD 0) 0
  return (← wholeValue? n, rest)

def readInteger : Reader Value
  | '0' :: 'x' :: rest => readBase 16 rest
  | '0' :: 'o' :: rest => readBase 8 rest
  | '0' :: 'b' :: rest => readBase 2 rest
  | cs => do
    let (negative, cs) := splitSign cs
    let (digits, rest) ← readWhole cs
    let n : Int := Json.digitsValue digits
    return (← wholeValue? (if negative then -n else n), rest)

/-- A moment or a number; the first of the forms that fits is taken. -/
def readWord : Reader Value := fun cs =>
  ((Moment.read cs).map fun r => (.moment r.1, r.2))
    <|> readDouble cs
    <|> readNamed (splitSign cs).1 (splitSign cs).2
    <|> readInteger cs

end Egress.Toml
