import Egress.Json.Number
import Egress.Json.Tree
import Egress.Text.Ascii
import Egress.Text.Utf8

/-!
Reading JSON.

`Tree.read?` accepts exactly one well-formed JSON value with blanks around it. `Json.read?` also asks
for its value.
-/

set_option autoImplicit false

namespace Egress.Json

def isSpace (c : Char) : Bool := c == ' ' || c == '\n' || c == '\t' || c == '\r'

/-- Whether the character is one of `0` to `9`. -/
def isDigit (c : Char) : Bool := '0' ≤ c && c ≤ '9'

/-- The text after leading blanks. -/
def skipSpace (cs : List Char) : List Char := cs.dropWhile isSpace

def hexUnit? (a b c d : Char) : Option Nat := do
  return (((← Text.hexValue? a) * 16 + (← Text.hexValue? b)) * 16 + (← Text.hexValue? c)) * 16 +
    (← Text.hexValue? d)

def escaped? : Char → Option Char
  | '"' => some '"'
  | '\\' => some '\\'
  | '/' => some '/'
  | 'b' => some '\x08'
  | 'f' => some '\x0c'
  | 'n' => some '\n'
  | 'r' => some '\r'
  | 't' => some '\t'
  | _ => none

/-- A piece of a string: a character, or the code unit of a `\\u` escape. -/
inductive StringPart
  | char (c : Char)
  | unit (n : Nat)

/-- The pieces of a string after its opening quote, with the text behind the closing one. -/
def readParts : List Char → Option (List StringPart × List Char)
  | [] => none
  | '"' :: rest => some ([], rest)
  | '\\' :: 'u' :: a :: b :: c :: d :: rest => do
    let unit ← hexUnit? a b c d
    let (parts, after) ← readParts rest
    return (.unit unit :: parts, after)
  | '\\' :: c :: rest => do
    let char ← escaped? c
    let (parts, after) ← readParts rest
    return (.char char :: parts, after)
  | c :: rest =>
    if c.toNat < 0x20 || c == '\\' then none
    else do
      let (parts, after) ← readParts rest
      return (.char c :: parts, after)

/-- The characters of the pieces, two units of a surrogate pair making one; `none` where a surrogate
stands alone. -/
def joinParts : List StringPart → Option (List Char)
  | [] => some []
  | .char c :: rest => (joinParts rest).map (c :: ·)
  | .unit n :: rest =>
    if 0xD800 ≤ n && n < 0xDC00 then
      match rest with
      | .unit m :: rest =>
        if 0xDC00 ≤ m && m < 0xE000 then
          let char := Char.ofNat (0x10000 + (n - 0xD800) * 0x400 + (m - 0xDC00))
          (joinParts rest).map (char :: ·)
        else none
      | _ => none
    else if 0xDC00 ≤ n && n < 0xE000 then none
    else (joinParts rest).map (Char.ofNat n :: ·)

/-- A string after its opening quote, with the text behind it. The inner `none` stands for a string
with an unpaired surrogate. -/
def readString (cs : List Char) : Option (Option String × List Char) := do
  let (parts, after) ← readParts cs
  return ((joinParts parts).map String.ofList, after)

/-- The digits after the point, of which there is at least one. -/
def readFraction : List Char → Option (Option (List Char) × List Char)
  | '.' :: rest =>
    match rest.span isDigit with
    | ([], _) => none
    | (digits, after) => some (some digits, after)
  | cs => some (none, cs)

/-- The exponent with its sign and at least one digit. -/
def readExponent : List Char → Option (Option (Bool × List Char) × List Char)
  | c :: rest =>
    if c == 'e' || c == 'E' then
      let (negative, rest) :=
        match rest with
        | '-' :: rest => (true, rest)
        | '+' :: rest => (false, rest)
        | rest => (false, rest)
      match rest.span isDigit with
      | ([], _) => none
      | (digits, after) => some (some (negative, digits), after)
    else some (none, c :: rest)
  | [] => some (none, [])

/-- A number, with the text behind it. The whole part has no leading zero. -/
def readNumber (cs : List Char) : Option (NumberText × List Char) := do
  let (negative, cs) :=
    match cs with
    | '-' :: rest => (true, rest)
    | cs => (false, cs)
  let (whole, cs) := cs.span isDigit
  match whole with
  | [] => none
  | '0' :: _ :: _ => none
  | _ =>
    let (fraction, cs) ← readFraction cs
    let (exponent, cs) ← readExponent cs
    return (⟨negative, whole, fraction, exponent⟩, cs)

def NumberText.tree (t : NumberText) : Tree :=
  match t.value? with
  | some (.int n) => .int n
  | some (.double d) => .double d
  | _ => .unkept

mutual
/-- One value at nesting `depth`, with the text behind it. -/
def readValue : Nat → Nat → List Char → Option (Tree × List Char)
  | 0, _, _ => none
  | fuel + 1, depth, cs =>
    match skipSpace cs with
    | 'n' :: 'u' :: 'l' :: 'l' :: rest => some (.null, rest)
    | 't' :: 'r' :: 'u' :: 'e' :: rest => some (.bool true, rest)
    | 'f' :: 'a' :: 'l' :: 's' :: 'e' :: rest => some (.bool false, rest)
    | '"' :: rest => do
      let (text, after) ← readString rest
      return (text.elim .unkept .string, after)
    | '[' :: rest => do
      let (items, after) ← readItems fuel (depth + 1) rest
      return (if depth < Tree.depthLimit then .array items else .unkept, after)
    | '{' :: rest => do
      let (members, after) ← readMembers fuel (depth + 1) rest
      return (if depth < Tree.depthLimit then .object members else .unkept, after)
    | cs => do
      let (number, after) ← readNumber cs
      return (number.tree, after)

/-- The items of an array after its bracket, with the text behind the closing one. -/
def readItems : Nat → Nat → List Char → Option (List Tree × List Char)
  | 0, _, _ => none
  | fuel + 1, depth, cs =>
    match skipSpace cs with
    | ']' :: rest => some ([], rest)
    | cs => do
      let (item, after) ← readValue fuel depth cs
      readMoreItems fuel depth item after

/-- What follows an item: the end or a comma and the next item. -/
def readMoreItems : Nat → Nat → Tree → List Char → Option (List Tree × List Char)
  | 0, _, _, _ => none
  | fuel + 1, depth, item, cs =>
    match skipSpace cs with
    | ']' :: rest => some ([item], rest)
    | ',' :: rest => do
      let (next, after) ← readValue fuel depth rest
      let (items, after) ← readMoreItems fuel depth next after
      return (item :: items, after)
    | _ => none

/-- The members of an object after its brace, with the text behind the closing one. -/
def readMembers : Nat → Nat → List Char → Option (List (Option String × Tree) × List Char)
  | 0, _, _ => none
  | fuel + 1, depth, cs =>
    match skipSpace cs with
    | '}' :: rest => some ([], rest)
    | cs => do
      let (member, after) ← readMember fuel depth cs
      readMoreMembers fuel depth member after

/-- One member: a quoted key, a colon and a value. -/
def readMember : Nat → Nat → List Char → Option ((Option String × Tree) × List Char)
  | 0, _, _ => none
  | fuel + 1, depth, cs =>
    match skipSpace cs with
    | '"' :: rest => do
      let (key, after) ← readString rest
      match skipSpace after with
      | ':' :: rest =>
        let (value, after) ← readValue fuel depth rest
        return ((key, value), after)
      | _ => none
    | _ => none

/-- What follows a member: the end or a comma and the next member. -/
def readMoreMembers :
    Nat → Nat → (Option String × Tree) → List Char →
      Option (List (Option String × Tree) × List Char)
  | 0, _, _, _ => none
  | fuel + 1, depth, member, cs =>
    match skipSpace cs with
    | '}' :: rest => some ([member], rest)
    | ',' :: rest => do
      let (next, after) ← readMember fuel depth rest
      let (members, after) ← readMoreMembers fuel depth next after
      return (member :: members, after)
    | _ => none
end

/-- The tree of a text that is one JSON value. Every step reads a character or passes to a smaller
task on the same text, so that three steps a character are enough. -/
def Tree.read? (text : List Char) : Option Tree := do
  let (tree, after) ← readValue (3 * text.length + 3) 0 text
  if (skipSpace after).isEmpty then some tree else none

/-- The value of a text that is one JSON value. -/
def read? (text : String) : Option Json := (Tree.read? text.toList).bind Tree.value?

/-- The value of bytes that are the UTF-8 text of one JSON value. -/
def readBytes? (bytes : List UInt8) : Option Json := (Text.Utf8.decode? bytes).bind read?

end Egress.Json
