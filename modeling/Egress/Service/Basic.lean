import Egress.Cache.Key
import Egress.Call.Envelope
import Egress.Events
import Egress.Maintenance
import Egress.Metrics.Basic
import Egress.Registry

/-!
The service: a registry of endpoints with what is kept about the calls to them.

The operations here take no time. An operation that fails changes nothing.
-/

set_option autoImplicit false

namespace Egress

/-- The endpoints and all that is kept about the calls to them. -/
structure Service where
  strategy : KeyStrategy
  tokens : Tokens
  registry : Registry
  limiter : Limiter
  cache : Cache Envelope
  metrics : Metrics
  events : Channel
  maintenance : Option Maintenance
  deriving Inhabited

namespace Service

/-- A service without endpoints. -/
def create (strategy : KeyStrategy) (tokens : Tokens) (events : Channel) : Service where
  strategy := strategy
  tokens := tokens
  registry := .empty
  limiter := .empty
  cache := .empty
  metrics := .empty
  events := events
  maintenance := none

def publish (s : Service) (event : Event) : Service := { s with events := s.events.publish event }

/-- Adds an endpoint and starts its statistics from zero. -/
def register (s : Service) (e : Endpoint) : Except RegistryError Service :=
  match s.registry.register e with
  | .error error => .error error
  | .ok registry =>
    .ok (({ s with registry, metrics := s.metrics.reset e.id } : Service).publish (.registered e.id))

/-- Removes an endpoint and everything kept about it. -/
def unregister (s : Service) (id : String) : Except RegistryError Service :=
  match s.registry.unregister id with
  | .error error => .error error
  | .ok (_, registry) =>
    .ok (({ s with
      registry
      cache := s.cache.invalidateEndpoint id
      limiter := s.limiter.reset id
      metrics := s.metrics.remove id } : Service).publish (.unregistered id))

/-- Sets fields of an endpoint. Responses kept from it may not suit it any more and are dropped. -/
def update (s : Service) (id : String) (u : EndpointUpdate) :
    Except RegistryError (Endpoint × Service) :=
  match s.registry.update id u with
  | .error error => .error error
  | .ok (e, registry) =>
    .ok (e, ({ s with registry, cache := s.cache.invalidateEndpoint id } : Service).publish
      (.updated id))

/-- Drops the responses kept from one endpoint, or all of them. -/
def clearCache (s : Service) (id : Option String) : Service :=
  ({ s with cache := id.elim .empty s.cache.invalidateEndpoint } : Service).publish
    (.cacheCleared id)

/-- Sets or revokes the token of an endpoint, where there is a source of tokens. -/
def setToken (s : Service) (id : String) (token : Option String) : Service :=
  { s with tokens := s.tokens.map fun known =>
      token.elim (known.erase id) fun token => known.insert id token }

def startMaintenance (s : Service) (periods : SweepPeriods) (now : Nat) : Service :=
  { s with maintenance := some (.begin periods now) }

def stopMaintenance (s : Service) : Service := { s with maintenance := none }

/-- The service after the periodic sweeps that fall after `since` and up to `now`. -/
def pass (since now : Nat) (s : Service) : Service :=
  match s.maintenance with
  | none => s
  | some m =>
    { s with
      cache := m.sweepCache since now s.cache
      limiter := m.sweepLimiter since now s.limiter }

/-- Sweeps cache and limiter at once. -/
def sweep (s : Service) (now : Nat) : Service :=
  { s with cache := s.cache.sweep now, limiter := s.limiter.sweep now }

end Service

end Egress
