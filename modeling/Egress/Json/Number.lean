import Egress.Json.Basic

/-!
Numbers in JSON texts.

A whole number that fits 64 bits keeps its exact value. Every other number is a double: its leading
digits are taken as a whole number of at most 64 bits, further digits count only as places. A number
above every double has no value. `-0` is the double -0.0.
-/

set_option autoImplicit false

namespace Egress.Json

/-- The parts of a number as written; without a fraction or exponent the part is missing. -/
structure NumberText where
  negative : Bool
  whole : List Char
  fraction : Option (List Char)
  exponent : Option (Bool × List Char)

def digitValue (c : Char) : Nat := c.toNat - 48

/-- The number written by the digits. -/
def digitsValue (digits : List Char) : Nat := digits.foldl (fun n c => 10 * n + digitValue c) 0

/-- Takes digits into `significand` while it stays below `2 ^ 64`; the rest is left over. -/
def growSignificand (significand : Nat) : List Char → Nat × List Char
  | [] => (significand, [])
  | c :: rest =>
    let next := 10 * significand + digitValue c
    if next < UInt64.size then growSignificand next rest else (significand, c :: rest)

namespace NumberText

/-- The number as a double, `none` when it exceeds every double. -/
def double? (t : NumberText) : Option Double :=
  let (whole, more) := growSignificand 0 t.whole
  let fraction := t.fraction.getD []
  let (significand, unused) := growSignificand whole fraction
  let places : Int := (more.length : Int) - (fraction.length - unused.length : Nat)
  match t.exponent with
  | none => Double.ofDecimal? t.negative significand places
  | some (negative, digits) =>
    let exponent := digitsValue digits
    if 2147483648 ≤ exponent then
      if significand ≠ 0 && !negative then none else some (Double.zero t.negative)
    else
      Double.ofDecimal? t.negative significand
        (places + (if negative then -(exponent : Int) else exponent))

def value? (t : NumberText) : Option Json :=
  match t.fraction, t.exponent with
  | none, none =>
    let n := digitsValue t.whole
    if !t.negative && n < UInt64.size then some (.int n)
    else if t.negative && 0 < n && n ≤ 9223372036854775808 then some (.int (-n))
    else t.double?.map .double
  | _, _ => t.double?.map .double

end NumberText

end Egress.Json
