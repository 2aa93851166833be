import Egress.Dict
import Egress.Double

/-!
JSON values.

Objects list their members in ascending key order, each key once; `Json.ofFields` brings members into
this form, and `Json.Ordered` says that a value has it throughout. Whole numbers keep their exact
value, all others are doubles.
-/

set_option autoImplicit false

namespace Egress

/-- A JSON value. -/
inductive Json
  | null
  | bool (b : Bool)
  | int (n : Int)
  | double (d : Double)
  | string (s : String)
  | array (items : List Json)
  | object (fields : List (String × Json))
  deriving Inhabited

namespace Json

/-- A natural number as a value. -/
def nat (n : Nat) : Json := .int n

/-- The object of the members; of several under one key the last one stays. -/
def ofFields (members : List (String × Json)) : Json :=
  .object (members.foldl (fun acc m => Fields.insert m.1 m.2 acc) [])

def ofDict (d : Dict Json) : Json := .object d.entries

/-- The value, or null without one. -/
def ofOption {α : Type} (f : α → Json) : Option α → Json
  | none => .null
  | some a => f a

/-- The member of an object under `key`. -/
def field? (key : String) : Json → Option Json
  | .object fields => Fields.get? key fields
  | _ => none

mutual
/-- Every object within the value lists its members in ascending key order. -/
def Ordered : Json → Prop
  | .array items => OrderedItems items
  | .object fields => Fields.Ascending fields ∧ OrderedFields fields
  | _ => True

/-- Every object within the items lists its members in ascending key order. -/
def OrderedItems : List Json → Prop
  | [] => True
  | j :: rest => j.Ordered ∧ OrderedItems rest

/-- Every object within the members' values lists its members in ascending key order. -/
def OrderedFields : List (String × Json) → Prop
  | [] => True
  | (_, j) :: rest => j.Ordered ∧ OrderedFields rest
end

end Json

end Egress
