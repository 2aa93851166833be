import Egress.Json.Number
import Egress.Json.Reader
import Egress.Url.Form
import Egress.Url.Punycode

/-!
Hosts.

The host of a special scheme is a domain name in lower case, an IPv4 address in one of its many
spellings, or an IPv6 address in brackets. Other schemes take a host as it stands. Domain names are
ASCII; names in other scripts are taken in their encoded form only (`parseHost`).
-/

set_option autoImplicit false

namespace Egress

/-- Why a text is no URL. -/
inductive UrlError
  | relativeWithoutBase
  | emptyHost
  | invalidPort
  | invalidIpv4
  | invalidIpv6
  | invalidDomain
  | invalidDomainCharacter
  deriving DecidableEq

def UrlError.message : UrlError → String
  | .relativeWithoutBase => "relative URL without a base"
  | .emptyHost => "empty host"
  | .invalidPort => "invalid port number"
  | .invalidIpv4 => "invalid IPv4 address"
  | .invalidIpv6 => "invalid IPv6 address"
  | .invalidDomain => "invalid international domain name"
  | .invalidDomainCharacter => "invalid domain character"

namespace Url

/-- A host. An IPv6 address has eight pieces of 16 bits. -/
inductive Host
  | domain (name : String)
  | ipv4 (address : Nat)
  | ipv6 (pieces : List Nat)
  deriving DecidableEq, Inhabited

/-- The value of the digits in a base, `none` unless all are digits of it. -/
def digitsIn? (base : Nat) (digits : List Char) : Option Nat :=
  digits.foldlM (fun n c => do
    let d ← Text.hexValue? c
    if d < base then some (base * n + d) else none) 0

/-- A part of an IPv4 address: decimal, octal after `0`, or hexadecimal after `0x`. -/
def ipv4Part? : List Char → Option Nat
  | [] => none
  | '0' :: 'x' :: digits => digitsIn? 16 digits
  | '0' :: d :: digits => digitsIn? 8 (d :: digits)
  | digits => digitsIn? 10 digits

/-- The parts between dots, without an empty one at the end. -/
def dottedParts (name : List Char) : List (List Char) :=
  let parts := splitAtEach '.' name
  if 1 < parts.length && parts.getLast? = some [] then parts.dropLast else parts

/-- Whether a domain name has to be an IPv4 address: its last part is a number. -/
def endsInNumber (name : List Char) : Bool :=
  match (dottedParts name).getLast? with
  | none => false
  | some [] => false
  | some last => last.all Json.isDigit || (ipv4Part? last).isSome

/-- The IPv4 address of the dotted parts. The last part fills the bytes that the others leave. -/
def ipv4Address? (name : List Char) : Option Nat := do
  let parts := dottedParts name
  if 4 < parts.length then none
  else
    let numbers ← parts.mapM ipv4Part?
    let last ← numbers.getLast?
    let first := numbers.dropLast
    if first.all (· ≤ 255) && last < Nat.pow 256 (4 - first.length) then
      some (first.foldl (256 * · + ·) 0 * Nat.pow 256 (4 - first.length) + last)
    else none

/-- One byte of an IPv4 address within an IPv6 address: no leading zero. -/
def plainByte? (digits : List Char) : Option Nat :=
  match digits with
  | [] => none
  | '0' :: _ :: _ => none
  | _ => do
    let n ← digitsIn? 10 digits
    if n ≤ 255 then some n else none

/-- One or, for a trailing IPv4 address, two pieces of an IPv6 address. -/
def ipv6Part? (trailing : Bool) (part : List Char) : Option (List Nat) :=
  if part.contains '.' then
    if trailing then
      match (splitAtEach '.' part).mapM plainByte? with
      | some [a, b, c, d] => some [256 * a + b, 256 * c + d]
      | _ => none
    else none
  else if part.isEmpty || 4 < part.length then none
  else (digitsIn? 16 part).map ([·])

/-- The pieces between colons; only the last part may be an IPv4 address. -/
def ipv6Pieces? (trailing : Bool) (cs : List Char) : Option (List Nat) :=
  if cs.isEmpty then some []
  else
    let parts := splitAtEach ':' cs
    do
      let front ← parts.dropLast.mapM (ipv6Part? false)
      let last ← ipv6Part? trailing (parts.getLastD [])
      return front.flatten ++ last

/-- What stands before and behind the first `::`. -/
def splitAtDoubleColon : List Char → Option (List Char × List Char)
  | ':' :: ':' :: rest => some ([], rest)
  | c :: rest => (splitAtDoubleColon rest).map fun (before, after) => (c :: before, after)
  | [] => none

/-- The pieces of an IPv6 address. -/
def ipv6Address? (cs : List Char) : Option (List Nat) :=
  match splitAtDoubleColon cs with
  | some (before, after) => do
    let front ← ipv6Pieces? false before
    let back ← ipv6Pieces? true after
    let known := front.length + back.length
    if known ≤ 7 then some (front ++ List.replicate (8 - known) 0 ++ back) else none
  | none => do
    let pieces ← ipv6Pieces? true cs
    if pieces.length = 8 then some pieces else none

/-- The number of zero pieces at the front. -/
def leadingZeros (pieces : List Nat) : Nat := (pieces.takeWhile (· == 0)).length

/-- Position and length of the first longest run of zero pieces. -/
def longestZeros : List Nat → Nat × Nat
  | [] => (0, 0)
  | p :: rest =>
    let run := leadingZeros (p :: rest)
    let (start, length) := longestZeros rest
    if length ≤ run then (0, run) else (start + 1, length)

def colonSeparated (pieces : List Nat) : String :=
  ":".intercalate (pieces.map fun p => String.ofList (Nat.toDigits 16 p))

/-- The text of a host. An IPv6 address leaves out its longest run of zeros. -/
def Host.text : Host → String
  | .domain name => name
  | .ipv4 n =>
    ".".intercalate ([n / 16777216, n / 65536 % 256, n / 256 % 256, n % 256].map toString)
  | .ipv6 pieces =>
    let (start, length) := longestZeros pieces
    if length < 2 then "[" ++ colonSeparated pieces ++ "]"
    else
      "[" ++ colonSeparated (pieces.take start) ++ "::" ++
        colonSeparated (pieces.drop (start + length)) ++ "]"

/-- Characters that no domain name holds. -/
def isForbiddenInDomain (c : Char) : Bool :=
  c.toNat ≤ 0x20 || 0x7F ≤ c.toNat ||
    ['#', '/', ':', '<', '>', '?', '@', '[', '\\', ']', '^', '|', '%'].contains c

/-- Characters that no host of another scheme holds. -/
def isForbiddenInHost (c : Char) : Bool :=
  ['\x00', '\t', '\n', '\r', ' ', '#', '/', ':', '<', '>', '?', '@', '[', '\\', ']', '^',
    '|'].contains c

def parseBracketed (cs : List Char) : Except UrlError Host :=
  if cs.getLast? = some ']' then
    match ipv6Address? (cs.drop 1).dropLast with
    | some pieces => .ok (.ipv6 pieces)
    | none => .error .invalidIpv6
  else .error .invalidIpv6

/-- Whether the label claims to be an encoded one but does not stand for a name in another script. -/
def isBrokenLabel : List Char → Bool
  | 'x' :: 'n' :: '-' :: '-' :: encoded =>
    match Punycode.decode? encoded with
    | some chars => chars.all Text.isAscii
    | none => true
  | _ => false

/-- The host of a special scheme. Other spellings of a name in another script come to its encoded form by the
tables of Unicode, which are not here: such a name is refused unless it is given in that form, and the form is
taken for any characters outside ASCII. All that is said of URLs that are read, and of endpoints that can be
served, is about names in ASCII in this sense. -/
def parseHost (cs : List Char) : Except UrlError Host :=
  if cs.head? = some '[' then parseBracketed cs
  else
    match Text.Utf8.decode? (percentDecode (cs.flatMap Text.Utf8.encodeChar)) with
    | none => .error .invalidDomain
    | some name =>
      if name.toList.any isForbiddenInDomain then .error .invalidDomain
      else if name.isEmpty then .error .emptyHost
      else
        let name := Text.lower name
        if (splitAtEach '.' name.toList).any isBrokenLabel then .error .invalidDomain
        else if endsInNumber name.toList then
          match ipv4Address? name.toList with
          | some n => .ok (.ipv4 n)
          | none => .error .invalidIpv4
        else .ok (.domain name)

/-- The host of any other scheme. -/
def parseOtherHost (cs : List Char) : Except UrlError Host :=
  if cs.head? = some '[' then parseBracketed cs
  else if cs.any isForbiddenInHost then .error .invalidDomainCharacter
  else .ok (.domain (String.ofList (percentEncode isControlByte cs)))

end Url

end Egress
