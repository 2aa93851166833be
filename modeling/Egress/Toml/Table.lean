import Egress.Dict
import Egress.Json.Tree
import Egress.Toml.Moment

/-!
TOML values, and how tables grow.

A table is set up in one of four ways, and that decides what may be added to it later. `assign` puts a
value behind a path of keys, `define` and `append` put the table of a header in its place. All three
fail where the path meets something that is there and must not be added to.
-/

set_option autoImplicit false

namespace Egress.Toml

/-- How a table came about. -/
inductive TableForm
  /-- Written in braces; nothing is added to it. -/
  | closed
  /-- Named by a header of its own. -/
  | defined
  /-- Only on the way to the table of a header, which may still come for this one. -/
  | implied
  /-- Made by the dots of a key; more such keys may add to it. -/
  | dotted
  deriving DecidableEq

/-- A value. -/
inductive Value
  | string (s : String)
  | int (n : Int)
  | double (d : Double)
  | bool (b : Bool)
  | moment (m : Moment)
  | array (items : List Value)
  | table (form : TableForm) (entries : List (String × Value))
  /-- Tables under headers in double brackets, the last one apart and the others from the latest on. -/
  | tables (last : List (String × Value)) (earlier : List (List (String × Value)))
  deriving Inhabited

abbrev Entries := List (String × Value)

namespace Entries

/-- Changes the table behind a path of keys; the change is given the form of that table. Missing
tables on the way are made in the form `made`. Keys with dots never lead into a table with a header;
in a list of tables the way leads into the last one. -/
def within (made : TableForm) (change : TableForm → Entries → Option Entries) :
    List String → TableForm → Entries → Option Entries
  | [], form, entries => change form entries
  | key :: path, _, entries =>
    match Fields.get? key entries with
    | none => do
      let inner ← within made change path made []
      return Fields.insert key (.table made inner) entries
    | some (.table form inner) =>
      if form = .closed || (made = .dotted && form = .defined) then none
      else do
        let inner ← within made change path form inner
        return Fields.insert key (.table form inner) entries
    | some (.tables last earlier) => do
      let last ← within made change path .defined last
      return Fields.insert key (.tables last earlier) entries
    | some _ => none

/-- Adds an entry under a key that is not there yet. -/
def add (key : String) (value : Value) (entries : Entries) : Option Entries :=
  match Fields.get? key entries with
  | none => some (Fields.insert key value entries)
  | some _ => none

/-- Puts a value behind the dots of a key. A key with dots adds only to a table that such keys made. -/
def assign (path : List String) (key : String) (value : Value) (entries : Entries) :
    Option Entries :=
  within .dotted
    (fun form inner => if path.isEmpty || form = .dotted then inner.add key value else none)
    path .defined entries

/-- Puts the table of a header in its place; `fill` adds what follows the header to the entries that
are there. -/
def define (path : List String) (key : String) (fill : Entries → Option Entries)
    (entries : Entries) : Option Entries :=
  within .implied
    (fun _ inner => do
      let start ← match Fields.get? key inner with
        | none => some []
        | some (.table .implied entries) => some entries
        | some _ => none
      return Fields.insert key (.table .defined (← fill start)) inner)
    path .defined entries

/-- Puts the table of a header in double brackets behind those of the same name. -/
def append (path : List String) (key : String) (fill : Entries → Option Entries)
    (entries : Entries) : Option Entries :=
  within .implied
    (fun _ inner => do
      let earlier ← match Fields.get? key inner with
        | none => some []
        | some (.tables last earlier) => some (last :: earlier)
        | some _ => none
      return Fields.insert key (.tables (← fill []) earlier) inner)
    path .defined entries

end Entries

/-- The key under which the text of a moment stands where a format without moments takes it. -/
def momentKey : String := "$__toml_private_datetime"

namespace Value

mutual
/-- The value for the decoders of records. -/
def tree : Value → Json.Tree
  | .string s => .string s
  | .int n => .int n
  | .double d => .double d
  | .bool b => .bool b
  | .moment m => .object [(some momentKey, .string m.format)]
  | .array items => .array (trees items)
  | .table _ entries => .object (members entries)
  | .tables last earlier => .array (tableTrees earlier [.object (members last)])

/-- The items for the decoders. -/
def trees : List Value → List Json.Tree
  | [] => []
  | v :: rest => v.tree :: trees rest

/-- The entries for the decoders. -/
def members : List (String × Value) → List (Option String × Json.Tree)
  | [] => []
  | (key, v) :: rest => (some key, v.tree) :: members rest

/-- Tables from the latest on, in front of `behind` in the order they were given. -/
def tableTrees : List (List (String × Value)) → List Json.Tree → List Json.Tree
  | [], behind => behind
  | entries :: rest, behind => tableTrees rest (.object (members entries) :: behind)
end

end Value

end Egress.Toml
