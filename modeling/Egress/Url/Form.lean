import Egress.Url.Percent

/-!
Form-encoded queries.

A query is a list of pairs of texts. Reading splits at `&` and at the first `=`, takes `+` for a space
and decodes percent signs; empty pieces are no pairs. Writing encodes everything but ASCII letters,
digits and `*-._`, so that no separator is left inside a name or value.
-/

set_option autoImplicit false

namespace Egress.Url

def splitAtEach (separator : Char) : List Char → List (List Char)
  | [] => [[]]
  | c :: rest =>
    if c = separator then [] :: splitAtEach separator rest
    else
      match splitAtEach separator rest with
      | [] => [[c]]
      | piece :: pieces => (c :: piece) :: pieces

/-- What stands before the first occurrence of the separator, and what stands behind it. -/
def splitAtFirst (separator : Char) (cs : List Char) : List Char × List Char :=
  match cs.span (· ≠ separator) with
  | (before, []) => (before, [])
  | (before, _ :: after) => (before, after)

/-- The text of an encoded name or value. -/
def decodeFormPart (cs : List Char) : String :=
  Text.Utf8.decodeLossy <| percentDecode <|
    (cs.flatMap Text.Utf8.encodeChar).map fun b => if b = 0x2B then 0x20 else b

def decodeForm (query : String) : List (String × String) :=
  ((splitAtEach '&' query.toList).filter (!·.isEmpty)).map fun piece =>
    let (name, value) := splitAtFirst '=' piece
    (decodeFormPart name, decodeFormPart value)

/-- Whether the byte stands for itself in an encoded name or value. -/
def isFormByte (b : UInt8) : Bool :=
  (0x30 ≤ b && b ≤ 0x39) || (0x41 ≤ b && b ≤ 0x5A) || (0x61 ≤ b && b ≤ 0x7A) ||
    isByteOf ['*', '-', '.', '_'] b

/-- The encoded form of a name or value. -/
def encodeFormPart (s : String) : List Char :=
  (Text.Utf8.encode s).flatMap fun b =>
    if b = 0x20 then ['+'] else if isFormByte b then [Char.ofNat b.toNat] else percentByte b

def encodeForm (pairs : List (String × String)) : String :=
  String.ofList <| ['&'].intercalate <|
    pairs.map fun p => encodeFormPart p.1 ++ '=' :: encodeFormPart p.2

end Egress.Url
