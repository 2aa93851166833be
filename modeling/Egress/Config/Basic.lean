import Egress.Cache.Key
import Egress.Endpoint.Decode
import Egress.Endpoint.Encode
import Egress.Maintenance

/-!
Configurations: the settings of the program and the endpoints to serve.

Every section and every setting may be missing and then has its standard value.
-/

set_option autoImplicit false

namespace Egress

/-- How log lines are written. -/
inductive LogFormat
  | pretty
  | json
  deriving DecidableEq, Inhabited

def LogFormat.name : LogFormat → String
  | .pretty => "pretty"
  | .json => "json"

def LogFormat.variants : Json.Variants LogFormat := [("pretty", .pretty), ("json", .json)]

/-- The format of a name in any case of its letters. -/
def LogFormat.parse (text : String) : Except String LogFormat :=
  if Text.sameIgnoringCase text "pretty" then .ok .pretty
  else if Text.sameIgnoringCase text "json" then .ok .json
  else .error ("unknown log format '" ++ text ++ "', expected pretty or json")

/-- What is logged. -/
structure Logging where
  level : String
  format : LogFormat
  /-- Levels by module. -/
  modules : Dict String
  deriving DecidableEq

namespace Logging

/-- The logging unless asked for otherwise. -/
def standard : Logging := ⟨"info", .pretty, ∅⟩

/-- The level, and that of each module. -/
def filter (l : Logging) : String :=
  l.level ++ String.join
    (l.modules.entries.map fun e => ",conduit::" ++ e.1 ++ "=" ++ e.2)

def decode : Json.Decoder Logging :=
  Json.readRecord "struct LoggingConfig"
    [.optional "level" Json.decodeString fun v r => { r with level := v },
      .optional "format" (Json.decodeVariant LogFormat.variants) fun v r => { r with format := v },
      .optional "modules" (Json.decodeDict Json.decodeString) fun v r => { r with modules := v }]
    standard

/-- The section as a record. -/
def toJson (l : Logging) : Json :=
  .ofFields ([("level", .string l.level), ("format", .string l.format.name)] ++
    Json.textsField "modules" l.modules)

end Logging

/-- How calls are sent. -/
structure ClientSettings where
  userAgent : String
  /-- Seconds to wait for a connection. -/
  connectTimeout : Nat
  deriving DecidableEq

namespace ClientSettings

/-- The settings unless asked for otherwise. -/
def standard : ClientSettings := ⟨"conduit/0.1.0", 10⟩

/-- The milliseconds to wait for a connection, in 64 bits. -/
def connectMillis (c : ClientSettings) : UInt64 := 1000 * UInt64.ofNat c.connectTimeout

def decode : Json.Decoder ClientSettings :=
  Json.readRecord "struct ClientConfig"
    [.optional "user_agent" Json.decodeString fun v r => { r with userAgent := v },
      .optional "connect_timeout_seconds" (Json.decodeNat 64) fun v r =>
        { r with connectTimeout := v }]
    standard

/-- The section as a record. -/
def toJson (c : ClientSettings) : Json :=
  .ofFields [("user_agent", .string c.userAgent),
    ("connect_timeout_seconds", .nat c.connectTimeout)]

end ClientSettings

/-- The cache section: what responses are kept by. -/
def KeyStrategy.decodeSection : Json.Decoder KeyStrategy :=
  Json.readRecord "struct CacheSettings"
    [.optional "key_strategy" (Json.decodeVariant KeyStrategy.variants) fun v _ => v] .endpoint

/-- The cache section as a record. -/
def KeyStrategy.sectionJson (strategy : KeyStrategy) : Json :=
  .ofFields [("key_strategy", .string strategy.name)]

namespace SweepPeriods

def decode : Json.Decoder SweepPeriods :=
  Json.readRecord "struct MaintenanceConfig"
    [.optional "cache_sweep_seconds" (Json.decodeNat 64) fun v r => { r with cache := v },
      .optional "rate_limit_sweep_seconds" (Json.decodeNat 64) fun v r => { r with limiter := v }]
    standard

/-- The section as a record. -/
def toJson (p : SweepPeriods) : Json :=
  .ofFields [("cache_sweep_seconds", .nat p.cache), ("rate_limit_sweep_seconds", .nat p.limiter)]

end SweepPeriods

/-- A configuration. -/
structure Config where
  logging : Logging
  client : ClientSettings
  keyStrategy : KeyStrategy
  sweeps : SweepPeriods
  endpoints : List Endpoint

namespace Config

/-- The configuration without any setting. -/
def standard : Config := ⟨.standard, .standard, .endpoint, .standard, []⟩

instance : Inhabited Config := ⟨standard⟩

def decode : Json.Decoder Config :=
  Json.readRecord "struct ConduitConfig"
    [.optional "logging" Logging.decode fun v r => { r with logging := v },
      .optional "client" ClientSettings.decode fun v r => { r with client := v },
      .optional "cache" KeyStrategy.decodeSection fun v r => { r with keyStrategy := v },
      .optional "maintenance" SweepPeriods.decode fun v r => { r with sweeps := v },
      .optional "endpoints" (Json.decodeList Endpoint.decode) fun v r => { r with endpoints := v }]
    standard

/-- The configuration as a record. -/
def toJson (c : Config) : Json :=
  .ofFields [("logging", c.logging.toJson), ("client", c.client.toJson),
    ("cache", c.keyStrategy.sectionJson), ("maintenance", c.sweeps.toJson),
    ("endpoints", .array (c.endpoints.map Endpoint.toJson))]

end Config

end Egress
