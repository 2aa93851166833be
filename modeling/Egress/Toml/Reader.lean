import Egress.Toml.Number
import Egress.Toml.Quoted

/-!
Keys and values of TOML.

Arrays may go over several lines and hold comments, tables in braces stay on one line. Both nest to a
depth of `nestingLimit`, and the dots of a key make no more tables than that.
-/

set_option autoImplicit false

namespace Egress.Toml

/-- Arrays and tables in braces nest less deep than this, and a key has fewer parts. -/
def nestingLimit : Nat := 80

/-- The text after leading spaces and tabs. -/
def skipSpace (cs : List Char) : List Char := cs.dropWhile isSpace

/-- The text after a comment, if it starts with one. -/
def skipComment : List Char → List Char
  | '#' :: rest => rest.dropWhile isPrintable
  | cs => cs

/-- The text after leading blanks, line ends and comments, where these may stand between tokens. A
comment ends at the line end at the latest. -/
def skipLines (inComment : Bool) : List Char → List Char
  | [] => []
  | c :: rest =>
    if inComment && isPrintable c then skipLines true rest
    else if isSpace c || c = '\n' then skipLines false rest
    else if c = '#' && !inComment then skipLines true rest
    else c :: rest

/-- A character of a key without quotes. -/
def isBare (c : Char) : Bool :=
  ('A' ≤ c && c ≤ 'Z') || ('a' ≤ c && c ≤ 'z') || Json.isDigit c || c = '_' || c = '-'

def readKeyPart : Reader String := fun cs =>
  match cs.span isBare with
  | ([], rest) => readQuotedKey rest
  | (name, rest) => some (String.ofList name, rest)

/-- The parts of a key between dots, blanks around each; the parts of a path and the last one. -/
def readKeyParts : Nat → Reader (List String × String)
  | 0, _ => none
  | fuel + 1, cs => do
    let (part, rest) ← readKeyPart (skipSpace cs)
    match skipSpace rest with
    | '.' :: rest =>
      let ((path, key), rest) ← readKeyParts fuel rest
      return ((part :: path, key), rest)
    | rest => return (([], part), rest)

def readKey : Reader (List String × String) := readKeyParts (nestingLimit - 1)

mutual
/-- One value inside of `depth` others. -/
def readValue : Nat → Nat → Reader Value
  | 0, _, _ => none
  | fuel + 1, depth, cs =>
    match cs with
    | 't' :: 'r' :: 'u' :: 'e' :: rest => some (.bool true, rest)
    | 'f' :: 'a' :: 'l' :: 's' :: 'e' :: rest => some (.bool false, rest)
    | '[' :: rest =>
      if nestingLimit ≤ depth + 1 then none
      else (readItems fuel (depth + 1) rest).map fun r => (.array r.1, r.2)
    | '{' :: rest =>
      if nestingLimit ≤ depth + 1 then none
      else
        match skipSpace rest with
        | '}' :: rest => some (.table .closed [], rest)
        | rest => (readPairs fuel (depth + 1) [] rest).map fun r => (.table .closed r.1, r.2)
    | '"' :: _ | '\'' :: _ => (readQuoted cs).map fun r => (.string r.1, r.2)
    | _ => readWord cs

/-- The items of an array up to its end; a comma may follow the last one. -/
def readItems : Nat → Nat → Reader (List Value)
  | 0, _, _ => none
  | fuel + 1, depth, cs =>
    match skipLines false cs with
    | ']' :: rest => some ([], rest)
    | cs => do
      let (item, rest) ← readValue fuel depth cs
      match skipLines false rest with
      | ']' :: rest => return ([item], rest)
      | ',' :: rest =>
        let (items, rest) ← readItems fuel depth rest
        return (item :: items, rest)
      | _ => none

/-- The pairs of a table in braces, at least one, added to `entries`. -/
def readPairs : Nat → Nat → Entries → Reader Entries
  | 0, _, _, _ => none
  | fuel + 1, depth, entries, cs => do
    let ((path, key), rest) ← readKey cs
    let ((), rest) ← readMark '=' rest
    let (value, rest) ← readValue fuel depth (skipSpace rest)
    let entries ← entries.assign path key value
    match skipSpace rest with
    | '}' :: rest => return (entries, rest)
    | ',' :: rest => readPairs fuel depth entries rest
    | _ => none
end

/-- A key, an equals sign and a value. Each step of the reader takes a character or passes to a smaller
task on the same text, so that three steps a character are enough. -/
def readPair : Reader ((List String × String) × Value) := fun cs => do
  let (key, rest) ← readKey cs
  let ((), rest) ← readMark '=' rest
  let (value, rest) ← readValue (3 * rest.length + 3) 0 (skipSpace rest)
  return ((key, value), rest)

end Egress.Toml
