/-!
UTF-8.

Bytes are read one at a time. `scan` turns them into characters and marks (`none`) for the longest
ill-formed starts: `decode?` accepts bytes without a mark, `decodeLossy` writes U+FFFD for each mark.
-/

set_option autoImplicit false

namespace Egress.Text.Utf8

/-- A sequence whose first bytes are read: how many bytes follow the next one, the range the next
one has to be in, and the bits so far. -/
structure Pending where
  left : Nat
  low : UInt8
  high : UInt8
  bits : Nat

/-- What the first byte of a sequence says. -/
inductive Lead
  | single (c : Char)
  | start (p : Pending)
  | invalid

/-- Reads the first byte of a sequence. -/
def lead (b : UInt8) : Lead :=
  if b < 0x80 then .single (Char.ofNat b.toNat)
  else if b < 0xC2 then .invalid
  else if b < 0xE0 then .start ⟨0, 0x80, 0xBF, b.toNat % 32⟩
  else if b = 0xE0 then .start ⟨1, 0xA0, 0xBF, 0⟩
  else if b = 0xED then .start ⟨1, 0x80, 0x9F, 13⟩
  else if b < 0xF0 then .start ⟨1, 0x80, 0xBF, b.toNat % 16⟩
  else if b = 0xF0 then .start ⟨2, 0x90, 0xBF, 0⟩
  else if b < 0xF4 then .start ⟨2, 0x80, 0xBF, b.toNat % 8⟩
  else if b = 0xF4 then .start ⟨2, 0x80, 0x8F, 4⟩
  else .invalid

/-- The characters of the bytes after an open sequence, `none` for each ill-formed start. -/
def scanFrom : Option Pending → List UInt8 → List (Option Char)
  | none, [] => []
  | some _, [] => [none]
  | none, b :: rest =>
    match lead b with
    | .single c => some c :: scanFrom none rest
    | .start p => scanFrom (some p) rest
    | .invalid => none :: scanFrom none rest
  | some p, b :: rest =>
    if p.low ≤ b && b ≤ p.high then
      let bits := p.bits * 64 + b.toNat % 64
      match p.left with
      | 0 => some (Char.ofNat bits) :: scanFrom none rest
      | left + 1 => scanFrom (some ⟨left, 0x80, 0xBF, bits⟩) rest
    else
      none ::
        match lead b with
        | .single c => some c :: scanFrom none rest
        | .start q => scanFrom (some q) rest
        | .invalid => none :: scanFrom none rest

/-- The characters of the bytes, `none` for each longest ill-formed start. -/
def scan (bytes : List UInt8) : List (Option Char) := scanFrom none bytes

/-- The text whose encoding is `bytes`. -/
def decode? (bytes : List UInt8) : Option String :=
  ((scan bytes).mapM id).map String.ofList

/-- The text of the bytes, with U+FFFD for each ill-formed start. -/
def decodeLossy (bytes : List UInt8) : String :=
  String.ofList ((scan bytes).map (·.getD (Char.ofNat 0xFFFD)))

/-- The bytes of one character. -/
def encodeChar (c : Char) : List UInt8 := String.utf8EncodeChar c

/-- The bytes of a text. -/
def encode (s : String) : List UInt8 := s.toList.flatMap encodeChar

end Egress.Text.Utf8
