/-!
Double-precision numbers.

A `Double` is the 64 bits of its IEEE 754 form, so that numbers inside documents compare by identity
(0.0 and -0.0 differ). Reading a decimal takes the leading digits as a whole number of at most 64 bits
and scales it by a power of ten in double arithmetic.
-/

set_option autoImplicit false

namespace Egress

/-- A number of IEEE 754 double precision, by its bits. -/
structure Double where
  bits : UInt64
  deriving DecidableEq, Inhabited

namespace Double

/-- The number for arithmetic. -/
def toFloat (d : Double) : Float := Float.ofBits d.bits

/-- The bits of a number. -/
def ofFloat (f : Float) : Double := ⟨f.toBits⟩

/-- The weight of the sign bit. -/
def signBit : Nat := 9223372036854775808

def fractionSize : Nat := 4503599627370496

/-- Whether the sign bit is set. -/
def isNegative (d : Double) : Bool := signBit ≤ d.bits.toNat

def exponentField (d : Double) : Nat := d.bits.toNat / fractionSize % 2048

def fractionField (d : Double) : Nat := d.bits.toNat % fractionSize

/-- Whether the number is neither infinite nor NaN. -/
def isFinite (d : Double) : Bool := d.exponentField ≠ 2047

/-- `10 ^ e` rounded to double precision. -/
def powerOfTen (e : Nat) : Float := Float.ofScientific 1 false e

/-- Scales `f` by `10 ^ exponent` in steps that stay within the table of exact exponents up to 308;
`none` when the result is too large. The step count bounds the descent of a small exponent. -/
def scale (f : Float) (exponent : Int) : Nat → Option Float
  | 0 => some f
  | steps + 1 =>
    if exponent.natAbs ≤ 308 then
      if 0 ≤ exponent then
        let r := f * powerOfTen exponent.natAbs
        if r.isInf then none else some r
      else some (f / powerOfTen exponent.natAbs)
    else if f == 0.0 then some f
    else if 0 ≤ exponent then none
    else scale (f / powerOfTen 308) (exponent + 308) steps

/-- `± significand × 10 ^ exponent`, `none` when its magnitude exceeds every double. Three steps
reach zero from any 64-bit significand. -/
def ofDecimal? (negative : Bool) (significand : Nat) (exponent : Int) : Option Double :=
  (scale (UInt64.ofNat significand).toFloat exponent 4).map fun f =>
    ofFloat (if negative then -f else f)

def zero (negative : Bool) : Double := ⟨UInt64.ofNat (if negative then signBit else 0)⟩

end Double

end Egress
