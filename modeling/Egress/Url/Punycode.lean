/-!
Punycode.

A label of a domain name in another script is written in ASCII: first its ASCII characters, then, behind
a hyphen, numbers that tell how far up the next character is and where it goes in. The digits of a number
weigh more or less as the numbers before it were large or small. `decode?` gives the characters back.
-/

set_option autoImplicit false

namespace Egress.Url.Punycode

/-- The value of a digit: the letters count from 0, the digits `0` to `9` follow them. -/
def digitValue? (c : Char) : Option Nat :=
  if 'a' ≤ c && c ≤ 'z' then some (c.toNat - 97)
  else if 'A' ≤ c && c ≤ 'Z' then some (c.toNat - 65)
  else if '0' ≤ c && c ≤ '9' then some (c.toNat - 22)
  else none

/-- A digit below the threshold is the last one of its number. Places count in steps of 36. -/
def threshold (bias place : Nat) : Nat := max 1 (min 26 (place - bias))

/-- Reads a number, with what follows; `weight` is that of the next digit. -/
def readNumber (bias : Nat) (place weight : Nat) : List Char → Option (Nat × List Char)
  | [] => none
  | c :: rest => do
    let digit ← digitValue? c
    let last := threshold bias place
    if digit < last then return (digit * weight, rest)
    else
      let (n, rest) ← readNumber bias (place + 36) (weight * (36 - last)) rest
      return (digit * weight + n, rest)

/-- Divides by 35 until the number is at most 455; counts the steps by 36. -/
def scaleDown (delta : Nat) : Nat × Nat :=
  if 455 < delta then
    let (delta, steps) := scaleDown (delta / 35)
    (delta, steps + 36)
  else (delta, 0)
termination_by delta
decreasing_by exact Nat.div_lt_self (by omega) (by decide)

/-- The bias after a number, of which `length` characters came by now. -/
def adapt (first : Bool) (delta length : Nat) : Nat :=
  let delta := delta / (if first then 700 else 2)
  let (delta, steps) := scaleDown (delta + delta / length)
  steps + 36 * delta / (delta + 38)

def char? (n : Nat) : Option Char := if n.isValidChar then some (Char.ofNat n) else none

/-- Inserts the characters that the numbers tell. The next one is at least `code` and, if it is that
one, goes to `position` or behind it. Each number takes a digit, so that `fuel` digits are enough. -/
def insertAll (bias code position : Nat) (first : Bool) (chars : List Char) :
    Nat → List Char → Option (List Char)
  | _, [] => some chars
  | 0, _ :: _ => none
  | fuel + 1, digits => do
    let (delta, rest) ← readNumber bias 36 1 digits
    let length := chars.length + 1
    let code := code + (position + delta) / length
    let position := (position + delta) % length
    let char ← char? code
    insertAll (adapt first delta length) code (position + 1) false
      (chars.take position ++ char :: chars.drop position) fuel rest

/-- The characters of an encoded label; the last hyphen stands behind the ASCII characters, if there
are any. -/
def decode? (label : List Char) : Option (List Char) :=
  match label.reverse.span (· ≠ '-') with
  | (digits, _ :: c :: ascii) =>
    insertAll 72 128 0 true (c :: ascii).reverse digits.length digits.reverse
  | _ => insertAll 72 128 0 true [] label.length label

end Egress.Url.Punycode
