import Egress.Double

/-!
The double nearest to a decimal.

`nearest` rounds a quotient of natural numbers to the closest double, the even one of two equally
close; `ofDigits` does so for a whole number of units of a power of ten.
-/

set_option autoImplicit false

namespace Egress.Double

/-- The bits of infinity, above those of every finite number. -/
def infinityBits : Nat := 2047 * fractionSize

/-- The quotient rounded to a whole number, a half to the even one. -/
def roundHalfEven (num den : Nat) : Nat :=
  let floor := num / den
  let rest := num % den
  if 2 * rest < den || (2 * rest == den && floor % 2 == 0) then floor else floor + 1

/-- Whether `2 ^ e` is at most the quotient. -/
def powerFits (num den : Nat) (e : Int) : Bool :=
  den * Nat.pow 2 e.toNat ≤ num * Nat.pow 2 (-e).toNat

/-- The largest `e` with `2 ^ e` at most the positive quotient: the difference of the sizes of its two
numbers or one less. -/
def binaryExponent (num den : Nat) : Int :=
  let e : Int := num.log2 - den.log2
  if powerFits num den e then e else e - 1

/-- The bits of the double nearest to a positive quotient. The last place is `2 ^ place`, and no
place lies below that of the least double; a significand that rounds up to `2 ^ 53` carries into the
exponent by itself. -/
def nearestBits (num den : Nat) : Nat :=
  let place := max (binaryExponent num den - 52) (-1074)
  let significand := roundHalfEven (num * Nat.pow 2 (-place).toNat) (den * Nat.pow 2 place.toNat)
  min ((place + 1074).toNat * fractionSize + significand) infinityBits

/-- The double nearest to `num / den`, infinite when the quotient exceeds every double by half a
place. -/
def nearest (num den : Nat) : Double := ⟨UInt64.ofNat (if num = 0 then 0 else nearestBits num den)⟩

/-- The number with its sign bit set if `negative`. -/
def withSign (negative : Bool) (d : Double) : Double :=
  if negative then ⟨d.bits ||| 0x8000000000000000⟩ else d

/-- The double nearest to `± digits × 10 ^ exponent`. Beyond the powers of ten at hand the result is
zero or infinite without computing the power. -/
def ofDigits (negative : Bool) (digits : Nat) (exponent : Int) : Double :=
  let size : Int := (Nat.toDigits 10 digits).length + exponent
  withSign negative <|
    if digits = 0 || size < -330 then ⟨0⟩
    else if 310 < size then ⟨UInt64.ofNat infinityBits⟩
    else nearest (digits * Nat.pow 10 exponent.toNat) (Nat.pow 10 (-exponent).toNat)

def infinity : Double := ⟨UInt64.ofNat infinityBits⟩

/-- A number that is none. -/
def nan : Double := ⟨UInt64.ofNat (infinityBits + fractionSize / 2)⟩

end Egress.Double
