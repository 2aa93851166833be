/-!
The configuration that a new file starts from.
-/

set_option autoImplicit false

namespace Egress.Config

/-- The lines of the configuration to start from: all sections with their standard settings, and an
endpoint for each of caching, retries and authentication. -/
def exampleLines : List String :=
  [
    "# Conduit configuration",
    "#",
    "# Precedence: CLI flags > CONDUIT_* environment variables > this file > defaults.",
    "# Endpoint keys use camelCase, matching the JSON import/export format.",
    "",
    "[logging]",
    "level = \"info\"          # trace, debug, info, warn, error",
    "format = \"pretty\"       # pretty or json",
    "",
    "# [logging.modules]",
    "# retry = \"debug\"",
    "# rate_limit = \"trace\"",
    "",
    "[client]",
    "user_agent = \"conduit/0.1\"",
    "connect_timeout_seconds = 10",
    "",
    "[cache]",
    "# endpoint_id: one cached response per endpoint",
    "# request: key includes call-level query, headers and body",
    "key_strategy = \"endpoint_id\"",
    "",
    "[maintenance]",
    "cache_sweep_seconds = 300",
    "rate_limit_sweep_seconds = 3600",
    "",
    "[[endpoints]]",
    "id = \"httpbin-get\"",
    "name = \"httpbin GET\"",
    "url = \"https://httpbin.org/get\"",
    "method = \"GET\"",
    "timeout = 5000",
    "",
    "[endpoints.queryParams]",
    "source = \"conduit\"",
    "",
    "[endpoints.cache]",
    "enabled = true",
    "ttl = 60000",
    "strategy = \"memory\"",
    "",
    "[endpoints.rateLimit]",
    "requests = 10",
    "window = 60000",
    "queue = true",
    "throttleDelay = 500",
    "",
    "[[endpoints]]",
    "id = \"httpbin-status\"",
    "name = \"httpbin flaky status\"",
    "url = \"https://httpbin.org/status/503\"",
    "retries = 2",
    "",
    "[endpoints.retryPolicy]",
    "maxAttempts = 3",
    "backoffStrategy = \"exponential\"",
    "baseDelay = 200",
    "maxDelay = 2000",
    "retryableStatusCodes = [429, 502, 503, 504]",
    "",
    "[[endpoints]]",
    "id = \"httpbin-bearer\"",
    "name = \"httpbin bearer auth\"",
    "url = \"https://httpbin.org/bearer\"",
    "",
    "[endpoints.auth]",
    "type = \"bearer\"",
    "",
    "[endpoints.auth.credentials]",
    "token = \"replace-me\""
  ]

/-- The text of the configuration to start from. -/
def exampleText : String := String.join (exampleLines.map (· ++ "\n"))

end Egress.Config
