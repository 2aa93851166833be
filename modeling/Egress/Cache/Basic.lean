import Egress.Endpoint.Validate

/-!
A store whose entries expire.

An entry is served while its time has not come; an expired one is as good as none, whether it is still
there or not. Keys that start with an id and the separator belong to that id.
-/

set_option autoImplicit false

namespace Egress

/-- A kept value with the time at which it expires. -/
structure Cache.Entry (α : Type) where
  value : α
  expiry : Nat
  deriving DecidableEq

/-- Kept values by key. -/
structure Cache (α : Type) where
  entries : Dict (Cache.Entry α)
  deriving DecidableEq, Inhabited

namespace Cache

variable {α : Type}

def Entry.expired (e : Entry α) (now : Nat) : Bool := e.expiry ≤ now

/-- The store without entries. -/
def empty : Cache α := ⟨∅⟩

/-- The value under a key. An expired entry is removed. -/
def get (c : Cache α) (now : Nat) (key : String) : Option α × Cache α :=
  match c.entries.get? key with
  | none => (none, c)
  | some e => if e.expired now then (none, ⟨c.entries.erase key⟩) else (some e.value, c)

/-- Keeps a value for `ttl` milliseconds. -/
def put (c : Cache α) (now : Nat) (key : String) (value : α) (ttl : Nat) : Cache α :=
  ⟨c.entries.insert key ⟨value, now + ttl⟩⟩

def invalidate (c : Cache α) (key : String) : Cache α := ⟨c.entries.erase key⟩

/-- Whether a key belongs to an endpoint: it is the id, or starts with the id and the separator. -/
def belongsTo (key id : String) : Bool :=
  key = id || (id.toList ++ [keySeparator]).isPrefixOf key.toList

def invalidateEndpoint (c : Cache α) (id : String) : Cache α :=
  ⟨c.entries.filter fun key _ => !belongsTo key id⟩

def sweep (c : Cache α) (now : Nat) : Cache α := ⟨c.entries.filter fun _ e => !e.expired now⟩

/-- The number of entries, expired ones included. -/
def size (c : Cache α) : Nat := c.entries.size

/-- The number of entries a sweep tells to have removed. -/
def swept (c : Cache α) (now : Nat) : Nat := c.size - (c.sweep now).size

end Cache

end Egress
