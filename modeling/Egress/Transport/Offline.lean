import Egress.Call.Basic

/-!
A transport without a network.

Calls that cannot be written down are refused as such; every other call fails for want of a network.
-/

set_option autoImplicit false

namespace Egress

namespace Offline

def isTokenChar (c : Char) : Bool :=
  c.isAlphanum || "!#$%&'*+-.^_\x60|~".toList.contains c

/-- Whether a text can be the name of a header. -/
def isHeaderName (s : String) : Bool := !s.isEmpty && s.toList.all isTokenChar

/-- Whether a text can be the value of a header: no control character but the tab. -/
def isHeaderValue (s : String) : Bool :=
  s.toList.all fun c => c = '\t' || (0x20 ≤ c.toNat && c.toNat ≠ 0x7F)

/-- What is wrong with a request that cannot be written down. -/
def unwritable : String := "builder error"

/-- The URL of a call as errors show it, without the secrets in it. -/
def shownUrl (call : Call) : String :=
  " for url (" ++ ({ call.url with username := "", password := "" } : Url).render ++ ")"

def error (call : Call) : TransportError :=
  if !call.headers.entries.all fun h => isHeaderName h.1 && isHeaderValue h.2 then
    .invalid unwritable
  else if call.url.scheme = "http" || call.url.scheme = "https" then
    .network ("error sending request" ++ shownUrl call)
  else .invalid (unwritable ++ shownUrl call)

end Offline

/-- The transport without a network. -/
def Transport.offline : Transport Unit where
  send _ _ call := (⟨0, .error (Offline.error call)⟩, ())

end Egress
