import Egress.Text.Ascii
import Egress.Toml.Moment

/-!
Quoted texts in TOML.

Double quotes take escapes, single quotes do not; three of either enclose a text of several lines. The
line ends of the document are line feeds by the time it is read.
-/

set_option autoImplicit false

namespace Egress.Toml

/-- A space or a tab. -/
def isSpace (c : Char) : Bool := c = ' ' || c = '\t'

/-- A character that may stand in a text or a comment: no control character but the tab. -/
def isPrintable (c : Char) : Bool := c = '\t' || (0x20 ≤ c.toNat && c.toNat ≠ 0x7F)

def escaped? : Char → Option Char
  | 'b' => some '\x08'
  | 't' => some '\t'
  | 'n' => some '\n'
  | 'f' => some '\x0c'
  | 'r' => some '\r'
  | '"' => some '"'
  | '\\' => some '\\'
  | _ => none

def scalar? (n : Nat) : Option Char := if n.isValidChar then some (Char.ofNat n) else none

/-- Where a reader stands within an escape. -/
inductive Escape
  /-- Behind the backslash. -/
  | start
  /-- Before `left + 1` further digits of a code point. -/
  | code (left value : Nat)
  deriving DecidableEq

/-- What the next character makes of an escape: a longer one, or a character. -/
def Escape.step : Escape → Char → Option (Escape ⊕ Char)
  | .start, 'u' => some (.inl (.code 3 0))
  | .start, 'U' => some (.inl (.code 7 0))
  | .start, c => (escaped? c).map .inr
  | .code left value, c => do
    let value := 16 * value + (← Text.hexValue? c)
    match left with
    | 0 => (scalar? value).map .inr
    | left + 1 => return .inl (.code left value)

/-- Puts a character in front of a text read. -/
def push (c : Char) (r : List Char × List Char) : List Char × List Char := (c :: r.1, r.2)

/-- The rest of a text in double quotes on one line. -/
def readBasic : Option Escape → Reader (List Char)
  | _, [] => none
  | none, c :: rest =>
    if c = '"' then some ([], rest)
    else if c = '\\' then readBasic (some .start) rest
    else if isPrintable c then (readBasic none rest).map (push c)
    else none
  | some escape, c :: rest =>
    match escape.step c with
    | none => none
    | some (.inl escape) => readBasic (some escape) rest
    | some (.inr char) => (readBasic none rest).map (push char)

/-- Where a reader stands in a text of several lines. -/
inductive Place
  | text
  | escape (e : Escape)
  /-- Behind a backslash and blanks, where the line has to end. -/
  | lineEnd
  /-- Behind an escaped line end; blanks and line ends do not count here. -/
  | indent
  deriving DecidableEq

/-- The rest of a text in three quotes, given a reader for the characters that are no quote. Up to
two quotes may stand in front of the three that end it. -/
def closing? (quote : Char) : Reader (List Char) := fun cs =>
  let quotes := (cs.takeWhile (· = quote)).length
  if 3 ≤ quotes then
    let inner := min (quotes - 3) 2
    some (List.replicate inner quote, cs.drop (inner + 3))
  else none

/-- The rest of a text in three double quotes. -/
def readBasicLines : Place → Reader (List Char)
  | _, [] => none
  | .lineEnd, c :: rest =>
    if isSpace c then readBasicLines .lineEnd rest
    else if c = '\n' then readBasicLines .indent rest
    else none
  | .escape e, c :: rest =>
    if e = .start && isSpace c then readBasicLines .lineEnd rest
    else if e = .start && c = '\n' then readBasicLines .indent rest
    else
      match e.step c with
      | none => none
      | some (.inl e) => readBasicLines (.escape e) rest
      | some (.inr char) => (readBasicLines .text rest).map (push char)
  | place, c :: rest =>
    if place = .indent && (isSpace c || c = '\n') then readBasicLines .indent rest
    else
      match closing? '"' (c :: rest) with
      | some r => some r
      | none =>
        if c = '\\' then readBasicLines (.escape .start) rest
        else if isPrintable c || c = '\n' then (readBasicLines .text rest).map (push c)
        else none

/-- The rest of a text in three single quotes. -/
def readLiteralLines : Reader (List Char)
  | [] => none
  | c :: rest =>
    match closing? '\'' (c :: rest) with
    | some r => some r
    | none =>
      if isPrintable c || c = '\n' then (readLiteralLines rest).map (push c) else none

/-- The rest of a text in single quotes on one line. -/
def readLiteral : Reader (List Char) := fun cs =>
  match cs.span fun c => isPrintable c && c ≠ '\'' with
  | (text, '\'' :: rest) => some (text, rest)
  | _ => none

/-- A line end right behind the opening quotes does not belong to the text. -/
def skipLineEnd : List Char → List Char
  | '\n' :: rest => rest
  | cs => cs

/-- A quoted text on one line, as it may be a key. -/
def readQuotedKey : Reader String
  | '"' :: rest => (readBasic none rest).map fun r => (String.ofList r.1, r.2)
  | '\'' :: rest => (readLiteral rest).map fun r => (String.ofList r.1, r.2)
  | _ => none

def readQuoted : Reader String
  | '"' :: '"' :: '"' :: rest =>
    (readBasicLines .text (skipLineEnd rest)).map fun r => (String.ofList r.1, r.2)
  | '\'' :: '\'' :: '\'' :: rest =>
    (readLiteralLines (skipLineEnd rest)).map fun r => (String.ofList r.1, r.2)
  | cs => readQuotedKey cs

end Egress.Toml
