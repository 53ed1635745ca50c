import Ingress.Config.Aggregator
import Ingress.Config.Limits
import Ingress.Config.Metrics
import Ingress.Config.RateLimit

/-!
# The configuration of a gateway

* `Log.Config` : the filter and the form of log lines;
* `Gateway.Config` : everything a gateway is configured by;
* `ConfigError` : broken rules, or settings that do not go together (`Conflict`, with its text);
* `Gateway.Config.check` : the configuration can be run.
-/

namespace Ingress

open Config

/-- Which log records are written, and whether as JSON. -/
structure Log.Config where
  filter : String
  json : Bool

def Log.config : Section Log.Config :=
  { typeName := "LogConfig"
    standard := { filter := "info", json := false }
    settings :=
      [.text "filter" .free (·.filter) fun s c => { c with filter := s },
        .bool "json" (·.json) fun b c => { c with json := b }] }

namespace Gateway

structure Config where
  host : String
  port : Nat
  wsPath : String
  ackRejections : Bool
  healthLogInterval : Nat
  log : Log.Config
  limits : Limits
  rateLimit : RateLimit.Config
  aggregator : Aggregator.Config
  metrics : Metrics.Config

/-- A gateway without configuration. -/
def Config.standard : Config :=
  { host := "127.0.0.1"
    port := 8765
    wsPath := "/ws"
    ackRejections := false
    healthLogInterval := 60
    log := Log.config.standard
    limits := .standard
    rateLimit := .standard
    aggregator := .standard
    metrics := .standard }

def config : Section Gateway.Config :=
  { typeName := "GatewayConfig"
    standard := .standard
    settings :=
      [.text "host" .free (·.host) fun s c => { c with host := s },
        .nat "port" .u16 .free (·.port) fun n c => { c with port := n },
        .text "ws_path" (.between 1 128) (·.wsPath) fun s c => { c with wsPath := s },
        .bool "ack_rejections" (·.ackRejections) fun b c => { c with ackRejections := b },
        .nat "health_log_interval_secs" .u64 .free (·.healthLogInterval)
          fun n c => { c with healthLogInterval := n },
        .nested "log" Log.config (·.log) fun l c => { c with log := l },
        .nested "validation" Limits.config (·.limits) fun l c => { c with limits := l },
        .nested "rate_limit" RateLimit.config (·.rateLimit) fun r c => { c with rateLimit := r },
        .nested "aggregator" Aggregator.config (·.aggregator)
          fun a c => { c with aggregator := a },
        .nested "metrics" Metrics.config (·.metrics) fun m c => { c with metrics := m }] }

def builtInPaths : List String :=
  ["/health", "/health/ready", "/health/live", "/metrics", "/metrics/json"]

/-- Settings that do not go together. -/
inductive Conflict where
  | pathNotAbsolute (path : String)
  | pathTaken (path : String)
  | burstLongerThanSustained
  | securityLogTooSmall (size threshold : Nat)
deriving DecidableEq, Repr

def Conflict.text : Conflict → String
  | .pathNotAbsolute path => "ws_path must start with '/': " ++ path
  | .pathTaken path => "ws_path " ++ path ++ " collides with a built-in route"
  | .burstLongerThanSustained =>
    "rate_limit.burst_window_ms must not exceed sustained_window_ms"
  | .securityLogTooSmall size threshold =>
    "metrics.security_log_size (" ++ toString size
      ++ ") must exceed metrics.health.security_events (" ++ toString threshold ++ ")"

namespace Config

def bindAddress (c : Config) : String := c.host ++ ":" ++ toString c.port

/-- The first pair of settings that do not go together. -/
def conflict? (c : Config) : Option Conflict :=
  if c.wsPath.toList.head? ≠ some '/' then some (.pathNotAbsolute c.wsPath)
  else if builtInPaths.contains c.wsPath then some (.pathTaken c.wsPath)
  else if c.rateLimit.sustainedWindow < c.rateLimit.burstWindow then
    some .burstLongerThanSustained
  else if c.metrics.securityLogSize ≤ c.metrics.health.securityEvents then
    some (.securityLogTooSmall c.metrics.securityLogSize c.metrics.health.securityEvents)
  else none

end Config

end Gateway

/-- The words in front of the text of a configuration error. -/
def configErrorText (text : String) : String := "invalid configuration: " ++ text

/-- Why a configuration cannot be run. -/
inductive ConfigError where
  | rules (violations : List Violation)
  | conflict (c : Gateway.Conflict)

/-- The broken rules of a section, if there are any. -/
def Config.Section.check {α : Type} (s : Section α) (a : α) : Except ConfigError Unit :=
  match s.sortedViolations a with
  | [] => .ok ()
  | violations => .error (.rules violations)

/-- Every rule is kept and no settings are in conflict. -/
def Gateway.Config.check (c : Gateway.Config) : Except ConfigError Unit :=
  match Gateway.config.check c with
  | .error e => .error e
  | .ok () =>
    match c.conflict? with
    | some conflict => .error (.conflict conflict)
    | none => .ok ()

end Ingress
