import Egress.Json.Basic

/-!
JSON texts as read.

A `Tree` keeps the members of an object in the order of the text, with repetitions. A part that is
well-formed but stands for no value is marked `unkept`: a number above every double, a text with an
unpaired surrogate, an array or object nested deeper than `Tree.depthLimit`. Such a part does no harm
where nobody asks for its value.
-/

set_option autoImplicit false

namespace Egress.Json

/-- A JSON text as read. A key is missing where it has an unpaired surrogate. -/
inductive Tree
  | null
  | bool (b : Bool)
  | int (n : Int)
  | double (d : Double)
  | string (s : String)
  | array (items : List Tree)
  | object (members : List (Option String × Tree))
  | unkept
  deriving Inhabited

namespace Tree

/-- How deep arrays and objects may nest where their value is kept. -/
def depthLimit : Nat := 127

mutual
/-- The value of the text; the last member under a key stays, and a number that is not finite stands for
null. -/
def value? : Tree → Option Json
  | .null => some .null
  | .bool b => some (.bool b)
  | .int n => some (.int n)
  | .double d => some (if d.isFinite then .double d else .null)
  | .string s => some (.string s)
  | .array items => (values? items).map .array
  | .object members => (fields? members).map Json.ofFields
  | .unkept => none

def values? : List Tree → Option (List Json)
  | [] => some []
  | t :: rest => do return (← t.value?) :: (← values? rest)

def fields? : List (Option String × Tree) → Option (List (String × Json))
  | [] => some []
  | (key, t) :: rest => do return (← key, ← t.value?) :: (← fields? rest)
end

mutual
/-- The tree of a value, members in key order. -/
def ofJson : Json → Tree
  | .null => .null
  | .bool b => .bool b
  | .int n => .int n
  | .double d => .double d
  | .string s => .string s
  | .array items => .array (ofItems items)
  | .object fields => .object (ofFields fields)

def ofItems : List Json → List Tree
  | [] => []
  | j :: rest => ofJson j :: ofItems rest

def ofFields : List (String × Json) → List (Option String × Tree)
  | [] => []
  | (key, j) :: rest => (some key, ofJson j) :: ofFields rest
end

end Tree

end Egress.Json
