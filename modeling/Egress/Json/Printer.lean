import Egress.Json.Basic
import Egress.Double.Shortest
import Egress.Text.Ascii

/-!
Writing JSON.

`Json.render` writes without blanks, `Json.pretty` one item a line with two blanks a level. Both write
members in the order the value lists them. Quote, backslash and control characters are escaped, all
other characters stand for themselves.
-/

set_option autoImplicit false

namespace Egress.Json

/-- Numbers have the fewest digits that read back; whole doubles keep `.0`, and exponents below -5 or
from 16 on are written with their sign. -/
def numberLayout : Double.Layout := ⟨-5, 16, true, true⟩

def intDigits (n : Int) : List Char :=
  if n < 0 then '-' :: Nat.toDigits 10 n.natAbs else Nat.toDigits 10 n.natAbs

def escapeChar (c : Char) : List Char :=
  if c == '"' then ['\\', '"']
  else if c == '\\' then ['\\', '\\']
  else if 0x20 ≤ c.toNat then [c]
  else if c == '\x08' then ['\\', 'b']
  else if c == '\x0c' then ['\\', 'f']
  else if c == '\n' then ['\\', 'n']
  else if c == '\r' then ['\\', 'r']
  else if c == '\t' then ['\\', 't']
  else ['\\', 'u', '0', '0', Text.hexDigit (c.toNat / 16), Text.hexDigit (c.toNat % 16)]

/-- A quoted string in front of `rest`. -/
def writeString (s : String) (rest : List Char) : List Char :=
  '"' :: s.toList.flatMap escapeChar ++ '"' :: rest

mutual
/-- The value without blanks, in front of `rest`. -/
def write : Json → List Char → List Char
  | .null, rest => 'n' :: 'u' :: 'l' :: 'l' :: rest
  | .bool true, rest => 't' :: 'r' :: 'u' :: 'e' :: rest
  | .bool false, rest => 'f' :: 'a' :: 'l' :: 's' :: 'e' :: rest
  | .int n, rest => intDigits n ++ rest
  | .double d, rest => (numberLayout.format d).toList ++ rest
  | .string s, rest => writeString s rest
  | .array [], rest => '[' :: ']' :: rest
  | .array (j :: items), rest => '[' :: j.write (writeItems items rest)
  | .object [], rest => '{' :: '}' :: rest
  | .object ((key, j) :: fields), rest =>
    '{' :: writeString key (':' :: j.write (writeFields fields rest))

/-- The items behind the first one and the closing bracket. -/
def writeItems : List Json → List Char → List Char
  | [], rest => ']' :: rest
  | j :: items, rest => ',' :: j.write (writeItems items rest)

/-- The members behind the first one and the closing brace. -/
def writeFields : List (String × Json) → List Char → List Char
  | [], rest => '}' :: rest
  | (key, j) :: fields, rest =>
    ',' :: writeString key (':' :: j.write (writeFields fields rest))
end

/-- The value without blanks. -/
def render (j : Json) : String := String.ofList (j.write [])

/-- A line break with the indentation of nesting level `depth`, in front of `rest`. -/
def newline (depth : Nat) (rest : List Char) : List Char :=
  '\n' :: List.replicate (2 * depth) ' ' ++ rest

mutual
/-- The value at nesting level `depth` with one item a line, in front of `rest`. -/
def writePretty : Nat → Json → List Char → List Char
  | _, .array [], rest => '[' :: ']' :: rest
  | depth, .array (j :: items), rest =>
    '[' :: newline (depth + 1) (writePretty (depth + 1) j (writePrettyItems depth items rest))
  | _, .object [], rest => '{' :: '}' :: rest
  | depth, .object ((key, j) :: fields), rest =>
    '{' :: newline (depth + 1) (writeString key
      (':' :: ' ' :: writePretty (depth + 1) j (writePrettyFields depth fields rest)))
  | _, .null, rest => Json.null.write rest
  | _, .bool b, rest => (Json.bool b).write rest
  | _, .int n, rest => (Json.int n).write rest
  | _, .double d, rest => (Json.double d).write rest
  | _, .string s, rest => writeString s rest

/-- The items behind the first one and the closing bracket. -/
def writePrettyItems : Nat → List Json → List Char → List Char
  | depth, [], rest => newline depth (']' :: rest)
  | depth, j :: items, rest =>
    ',' :: newline (depth + 1) (writePretty (depth + 1) j (writePrettyItems depth items rest))

/-- The members behind the first one and the closing brace. -/
def writePrettyFields : Nat → List (String × Json) → List Char → List Char
  | depth, [], rest => newline depth ('}' :: rest)
  | depth, (key, j) :: fields, rest =>
    ',' :: newline (depth + 1) (writeString key
      (':' :: ' ' :: writePretty (depth + 1) j (writePrettyFields depth fields rest)))
end

def pretty (j : Json) : String := String.ofList (writePretty 0 j [])

end Egress.Json
