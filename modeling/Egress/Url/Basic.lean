import Egress.Url.Host

/-!
URLs in their parts.
-/

set_option autoImplicit false

namespace Egress

namespace Url

/-- A path: a text of its own, or segments with a slash before each. -/
inductive Path
  | text (s : String)
  | segments (parts : List String)
  deriving DecidableEq, Inhabited

def Path.render : Path → String
  | .text s => s
  | .segments parts => "".intercalate (parts.map ("/" ++ ·))

end Url

/-- A URL. Without a host there is no `//` part; a host may be empty. -/
structure Url where
  scheme : String
  username : String
  password : String
  host : Option Url.Host
  port : Option Nat
  path : Url.Path
  query : Option String
  fragment : Option String
  deriving DecidableEq, Inhabited

namespace Url

/-- The port that a scheme implies. -/
def defaultPort? (scheme : String) : Option Nat :=
  if scheme = "http" || scheme = "ws" then some 80
  else if scheme = "https" || scheme = "wss" then some 443
  else if scheme = "ftp" then some 21
  else none

/-- Whether the scheme has the slashes and hosts of the web. -/
def isSpecial (scheme : String) : Bool := scheme = "file" || (defaultPort? scheme).isSome

/-- User name and password before the host. -/
def userInfo (u : Url) : String :=
  if u.username.isEmpty && u.password.isEmpty then ""
  else u.username ++ (if u.password.isEmpty then "" else ":" ++ u.password) ++ "@"

def authority (u : Url) : String :=
  match u.host with
  | some host =>
    "//" ++ u.userInfo ++ host.text ++ u.port.elim "" fun port => ":" ++ toString port
  | none => if "//".isPrefixOf u.path.render then "/." else ""

def render (u : Url) : String :=
  u.scheme ++ ":" ++ u.authority ++ u.path.render ++ (u.query.elim "" ("?" ++ ·)) ++
    (u.fragment.elim "" ("#" ++ ·))

def queryPairs (u : Url) : List (String × String) := (u.query.elim [] decodeForm)

def withQueryPairs (u : Url) (pairs : List (String × String)) : Url :=
  { u with query := some (encodeForm pairs) }

end Url

end Egress
