import Egress.Double

/-!
The shortest decimal that reads back.

A finite double stands for all reals that round to it, an interval around its value. `shortest` gives
the decimal in this interval with the fewest digits, and of several the nearest to the value.
`Layout` holds the decisions of an output format about how those digits are written.
-/

set_option autoImplicit false

namespace Egress.Double

/-- A positive real `value / scale` with the interval of reals that round to it. -/
structure Rounding where
  value : Nat
  low : Nat
  high : Nat
  scale : Nat
  /-- The ends belong to the interval. -/
  closed : Bool

/-- The interval of a finite, non-zero double, in units of a quarter of its last place. -/
def rounding (d : Double) : Rounding :=
  let field := d.exponentField
  let fraction := d.fractionField
  let m := if field = 0 then fraction else fraction + fractionSize
  let q : Int := (if field = 0 then 1 else (field : Int)) - 1075 - 2
  let up := Nat.pow 2 q.toNat
  let below := if fraction = 0 && 1 < field then 1 else 2
  ⟨4 * m * up, (4 * m - below) * up, (4 * m + 2) * up, Nat.pow 2 (-q).toNat, m % 2 == 0⟩

/-- Whether `digits × 10 ^ exponent` rounds to the number. -/
def Rounding.holds (r : Rounding) (digits : Nat) (exponent : Int) : Bool :=
  let x := digits * Nat.pow 10 exponent.toNat * r.scale
  let tens := Nat.pow 10 (-exponent).toNat
  if r.closed then r.low * tens ≤ x && x ≤ r.high * tens
  else r.low * tens < x && x < r.high * tens

/-- The largest `k` with `10 ^ k` at most the value. -/
def Rounding.magnitude (r : Rounding) : Int :=
  let whole := r.value / r.scale
  if 0 < whole then ((Nat.toDigits 10 whole).length : Int) - 1
  else
    let places := (Nat.toDigits 10 (r.scale / r.value)).length
    if r.scale ≤ r.value * Nat.pow 10 (places - 1) then 1 - (places : Int) else -(places : Int)

/-- The neighbour of the value on the grid of multiples of `10 ^ exponent` that rounds to it; of two,
the nearer one, and the even one of two equally near. -/
def Rounding.onGrid? (r : Rounding) (exponent : Int) : Option Nat :=
  let unit := Nat.pow 10 exponent.toNat * r.scale
  let value := r.value * Nat.pow 10 (-exponent).toNat
  let floor := value / unit
  let rest := value % unit
  match r.holds floor exponent && 0 < floor, r.holds (floor + 1) exponent with
  | true, true =>
    if 2 * rest < unit || (2 * rest == unit && floor % 2 == 0) then some floor else some (floor + 1)
  | true, false => some floor
  | false, true => some (floor + 1)
  | false, false => none

/-- The first grid with a hit, from the coarsest on; seventeen digits always have one. -/
def Rounding.search (r : Rounding) (exponent : Int) : Nat → Nat × Int
  | 0 => (0, 0)
  | count + 1 =>
    match r.onGrid? exponent with
    | some digits => (digits, exponent)
    | none => r.search (exponent - 1) count

/-- Digits and exponent of the shortest decimal of a finite, non-zero double. -/
def shortest (d : Double) : Nat × Int := d.rounding.search d.rounding.magnitude 18

/-- How the digits of a number are laid out. -/
structure Layout where
  /-- The least decimal exponent that is written positionally. -/
  leastPositional : Int
  /-- The least decimal exponent from which on the exponent is written. -/
  leastExponential : Int
  /-- A whole number keeps a zero after its point. -/
  keepsPoint : Bool
  /-- A positive exponent has a plus sign. -/
  signsExponent : Bool

/-- The decimal digits without the zeros at the end. -/
def trimZeros (digits : List Char) : List Char :=
  (digits.reverse.dropWhile (· == '0')).reverse

/-- Lays out `0.d₁d₂… × 10 ^ (exponent + 1)`, given its digits without zeros at the end. -/
def Layout.place (layout : Layout) (digits : List Char) (exponent : Int) : List Char :=
  let fractionOf := fun (rest : List Char) =>
    if rest.isEmpty then (if layout.keepsPoint then ['.', '0'] else []) else '.' :: rest
  if layout.leastPositional ≤ exponent && exponent < layout.leastExponential then
    if 0 ≤ exponent then
      let whole := exponent.toNat + 1
      digits.take whole ++ List.replicate (whole - digits.length) '0' ++
        fractionOf (digits.drop whole)
    else '0' :: '.' :: List.replicate ((-exponent).toNat - 1) '0' ++ digits
  else
    let sign := if exponent < 0 then ['-'] else if layout.signsExponent then ['+'] else []
    let point := if digits.length ≤ 1 then [] else '.' :: digits.drop 1
    digits.take 1 ++ point ++ 'e' :: sign ++ Nat.toDigits 10 exponent.natAbs

def Layout.format (layout : Layout) (d : Double) : String :=
  let sign := if d.isNegative then ['-'] else []
  let body :=
    if d.exponentField = 0 && d.fractionField = 0 then layout.place ['0'] 0
    else
      let (digits, exponent) := d.shortest
      let text := Nat.toDigits 10 digits
      layout.place (trimZeros text) (exponent + text.length - 1)
  String.ofList (sign ++ body)

end Egress.Double
