import Egress.Config.Validate
import Egress.Service.Document
import Egress.Transport.Offline

/-!
The service of a configuration.

Every endpoint of the configuration is registered in its order; the first one that is refused ends the
attempt.
-/

set_option autoImplicit false

namespace Egress

/-- The id that an error of the registry is about. -/
def RegistryError.id : RegistryError → String
  | .duplicate id => id
  | .notFound id => id
  | .invalid id _ => id

/-- Why a configuration gives no service. -/
inductive SetupError
  /-- Calls tell who sends them, and this name cannot be told. -/
  | userAgent
  | refused (error : RegistryError)
  deriving DecidableEq

def SetupError.message : SetupError → String
  | .userAgent => (TransportError.invalid Offline.unwritable).message
  | .refused error => "failed to register endpoint '" ++ error.id ++ "': " ++ error.message

/-- The service of a configuration, without subscribers and without a source of tokens. -/
def Config.service (c : Config) : Except SetupError Service :=
  if Offline.isHeaderValue c.client.userAgent then
    let service := Service.create c.keyStrategy none (.create Channel.defaultCapacity 0)
    match service.registerAll c.endpoints with
    | (none, service) => .ok service
    | (some error, _) => .error (.refused error)
  else .error .userAgent

end Egress
