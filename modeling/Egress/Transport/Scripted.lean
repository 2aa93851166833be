import Egress.Transport.Wire

/-!
A transport that answers from a script.

Replies are laid out by URL path and used up in order; those under `*` serve the paths that have none
left. When nothing is left every call is answered at once by an empty JSON object.
-/

set_option autoImplicit false

namespace Egress

/-- The replies still to be given, by path. -/
structure Script where
  replies : Dict (List Reply)

namespace Script

/-- The script without replies. -/
def empty : Script := ⟨∅⟩

/-- The path whose replies serve the paths that have none. -/
def anyPath : String := "*"

/-- The headers of a response that names none. -/
def jsonHeaders : List (String × String) := [("content-type", "application/json")]

/-- The reply when nothing is left. -/
def fallback : Reply := ⟨0, .ok ⟨200, "OK", jsonHeaders, Text.Utf8.encode "\x7b\x7d"⟩⟩

/-- Takes the next reply laid out for a path. -/
def take? (s : Script) (path : String) : Option (Reply × Script) :=
  match s.replies.get? path with
  | some (reply :: rest) => some (reply, ⟨s.replies.insert path rest⟩)
  | _ => none

def reply (s : Script) (path : String) : Reply × Script :=
  ((s.take? path).or (s.take? anyPath)).getD (fallback, s)

/-- Lays out replies for a path in place of those there were. -/
def replace (s : Script) (path : String) (replies : List Reply) : Script :=
  ⟨s.replies.insert path replies⟩

end Script

/-- The transport that answers from a script. -/
def Transport.scripted : Transport Script where
  send script _ call := script.reply call.url.path.render

end Egress
