import Egress.Toml.Reader

/-!
TOML documents.

A document is read into lines first: headers and pairs, without blank lines and comments. The pairs in
front of the first header belong to the document itself, those behind a header to its table.
-/

set_option autoImplicit false

namespace Egress.Toml

/-- A line that says something. -/
inductive Line
  | header (path : List String) (key : String)
  /-- A header in double brackets. -/
  | item (path : List String) (key : String)
  | pair (path : List String) (key : String) (value : Value)

/-- The text with a line feed for each line end; a carriage return stands nowhere else. -/
def unifyLineEnds : List Char → Option (List Char)
  | [] => some []
  | '\r' :: '\n' :: rest => (unifyLineEnds rest).map ('\n' :: ·)
  | '\r' :: _ => none
  | c :: rest => (unifyLineEnds rest).map (c :: ·)

/-- The end of a line, perhaps after blanks and a comment; the end of the text ends a line, too. -/
def readLineEnd : Reader Unit := fun cs =>
  match skipComment (skipSpace cs) with
  | [] => some ((), [])
  | '\n' :: rest => some ((), rest)
  | _ => none

/-- One line that says something. -/
def readLine : Reader Line
  | '[' :: '[' :: rest => do
    let ((path, key), rest) ← readKey rest
    let ((), rest) ← readMark ']' rest
    let ((), rest) ← readMark ']' rest
    return (.item path key, rest)
  | '[' :: rest => do
    let ((path, key), rest) ← readKey rest
    let ((), rest) ← readMark ']' rest
    return (.header path key, rest)
  | cs => do
    let (((path, key), value), rest) ← readPair cs
    return (.pair path key value, rest)

/-- The lines of a text that say something. -/
def readLines : Nat → List Char → Option (List Line)
  | 0, _ => none
  | fuel + 1, cs =>
    match skipComment (skipSpace cs) with
    | [] => some []
    | '\n' :: rest => readLines fuel rest
    | _ => do
      let (line, rest) ← readLine (skipSpace cs)
      let ((), rest) ← readLineEnd rest
      return line :: (← readLines fuel rest)

/-- Adds the pairs in front of the next header; whatever follows is left over. -/
def fillPairs : List Line → Entries → Option Entries
  | .pair path key value :: rest, entries => do fillPairs rest (← entries.assign path key value)
  | _, entries => some entries

/-- Adds the tables of the headers, each with the pairs behind it. -/
def fillTables : List Line → Entries → Option Entries
  | [], entries => some entries
  | .header path key :: rest, entries => do
    fillTables rest (← entries.define path key (fillPairs rest))
  | .item path key :: rest, entries => do
    fillTables rest (← entries.append path key (fillPairs rest))
  | .pair .. :: rest, entries => fillTables rest entries

/-- The document of a text, a byte order mark in front of it left aside. -/
def read? (text : String) : Option Value := do
  let cs :=
    match text.toList with
    | '\uFEFF' :: rest => rest
    | cs => cs
  let cs ← unifyLineEnds cs
  let lines ← readLines (cs.length + 1) cs
  let entries ← fillTables lines (← fillPairs lines [])
  return .table .defined entries

end Egress.Toml
