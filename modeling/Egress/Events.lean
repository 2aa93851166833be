import Egress.Json.Basic

/-!
Events and the channel that brings them to subscribers.

The channel keeps the latest events, as many as its capacity says. A subscriber reads from where it
stopped; what it has not read when it is no longer kept is lost to it, and it learns how many events
that were.
-/

set_option autoImplicit false

namespace Egress

/-- What the service tells its subscribers. -/
inductive Event
  | registered (id : String)
  | updated (id : String)
  | unregistered (id : String)
  | succeeded (id : String) (status : Nat) (duration : Nat) (cached : Bool)
  | failed (id : String) (message : String)
  | rateLimited (id : String)
  /-- Without an id the whole cache was cleared. -/
  | cacheCleared (id : Option String)
  | imported (endpoints : Nat)
  deriving DecidableEq

namespace Event

/-- The endpoint that the event is about. -/
def endpointId? : Event → Option String
  | .registered id => some id
  | .updated id => some id
  | .unregistered id => some id
  | .succeeded id .. => some id
  | .failed id _ => some id
  | .rateLimited id => some id
  | .cacheCleared id => id
  | .imported _ => none

/-- The event as a record with its kind under `type`. -/
def toJson : Event → Json
  | .registered id => about "endpoint_registered" id []
  | .updated id => about "endpoint_updated" id []
  | .unregistered id => about "endpoint_unregistered" id []
  | .succeeded id status duration cached =>
    about "request_succeeded" id
      [("status", .nat status), ("duration_ms", .nat duration), ("cached", .bool cached)]
  | .failed id message => about "request_failed" id [("error", .string message)]
  | .rateLimited id => about "rate_limited" id []
  | .cacheCleared id =>
    .ofFields [("type", .string "cache_cleared"), ("endpoint_id", .ofOption .string id)]
  | .imported endpoints =>
    .ofFields [("type", .string "configuration_imported"), ("endpoints", .nat endpoints)]
where
  /-- An event of a kind about one endpoint. -/
  about (kind id : String) (fields : List (String × Json)) : Json :=
    .ofFields (("type", .string kind) :: ("endpoint_id", .string id) :: fields)

end Event

/-- A channel of events. -/
structure Channel where
  capacity : Nat
  /-- All events so far, the latest first. -/
  log : List Event
  /-- How many events each subscriber has passed. -/
  readers : List Nat
  deriving DecidableEq, Inhabited

namespace Channel

/-- The capacity of a channel unless it is asked for another one. -/
def defaultCapacity : Nat := 256

/-- The least power of two that is at least `n`, found among `steps` candidates from `power` on. -/
def powerFrom (n power : Nat) : Nat → Nat
  | 0 => power
  | steps + 1 => if n ≤ power then power else powerFrom n (2 * power) steps

/-- A channel without events for the number of subscribers. Its capacity is a power of two, at least 1
and at least what was asked for. -/
def create (capacity subscribers : Nat) : Channel :=
  ⟨powerFrom capacity 1 64, [], List.replicate subscribers 0⟩

def publish (c : Channel) (event : Event) : Channel := { c with log := event :: c.log }

def published (c : Channel) : Nat := c.log.length

/-- Adds a subscriber, which reads only later events. -/
def subscribe (c : Channel) : Channel := { c with readers := c.readers ++ [c.published] }

/-- What a subscriber reads. -/
inductive Delivery
  | event (event : Event)
  /-- Events that were lost. -/
  | lagged (count : Nat)
  deriving DecidableEq

/-- What a subscriber that has passed `passed` events reads next. -/
def unread (c : Channel) (passed : Nat) : List Delivery :=
  let missing := c.published - c.capacity - passed
  let kept := ((c.log.take (min c.capacity (c.published - passed))).reverse).map .event
  if missing = 0 then kept else .lagged missing :: kept

/-- What each subscriber reads, and the channel in which all have read everything. -/
def drain (c : Channel) : List (List Delivery) × Channel :=
  (c.readers.map c.unread, { c with readers := c.readers.map fun _ => c.published })

end Channel

end Egress
