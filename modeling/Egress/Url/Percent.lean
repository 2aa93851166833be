import Egress.Text.Ascii
import Egress.Text.Utf8

/-!
Percent encoding.

A set says which bytes have to be written as `%` and two hexadecimal digits; bytes outside ASCII and
control bytes belong to every set.
-/

set_option autoImplicit false

namespace Egress.Url

/-- Bytes that are always encoded. -/
def isControlByte (b : UInt8) : Bool := b < 0x20 || 0x7F ≤ b

/-- Whether the byte is one of the characters. -/
def isByteOf (chars : List Char) (b : UInt8) : Bool := chars.any fun c => c.toNat == b.toNat

/-- The bytes encoded in a fragment. -/
def inFragmentSet (b : UInt8) : Bool := isControlByte b || isByteOf [' ', '"', '<', '>', '\x60'] b

/-- The bytes encoded in a path. -/
def inPathSet (b : UInt8) : Bool := inFragmentSet b || isByteOf ['#', '?', '{', '}'] b

/-- The bytes encoded in a user name or password. -/
def inUserInfoSet (b : UInt8) : Bool :=
  inPathSet b || isByteOf ['/', ':', ';', '=', '@', '[', '\\', ']', '^', '|'] b

/-- The bytes encoded in a query; a special scheme adds the single quote. -/
def inQuerySet (special : Bool) (b : UInt8) : Bool :=
  isControlByte b || isByteOf [' ', '"', '#', '<', '>'] b || (special && b == 0x27)

/-- One byte as `%` and two digits. -/
def percentByte (b : UInt8) : List Char :=
  ['%', Text.hexDigitUpper (b.toNat / 16), Text.hexDigitUpper (b.toNat % 16)]

/-- The text in UTF-8 with the bytes of the set encoded. -/
def percentEncode (inSet : UInt8 → Bool) (cs : List Char) : List Char :=
  (cs.flatMap Text.Utf8.encodeChar).flatMap fun b =>
    if inSet b then percentByte b else [Char.ofNat b.toNat]

/-- The value of a byte that is a hexadecimal digit. -/
def hexByteValue? (b : UInt8) : Option Nat := Text.hexValue? (Char.ofNat b.toNat)

/-- Replaces `%` and two digits by the byte; every other byte stands for itself. -/
def percentDecode : List UInt8 → List UInt8
  | [] => []
  | [a] => [a]
  | [a, b] => [a, b]
  | a :: b :: c :: rest =>
    if a = 0x25 then
      match hexByteValue? b, hexByteValue? c with
      | some high, some low => UInt8.ofNat (16 * high + low) :: percentDecode rest
      | _, _ => a :: percentDecode (b :: c :: rest)
    else a :: percentDecode (b :: c :: rest)

end Egress.Url
