import Ingress.Health.Status
import Ingress.Metrics.Collector

/-!
# The health verdict

* `Health.ratio` : a share of two counts, `0` of none;
* `Health.Signal` : one threshold: when it is crossed, how bad that is, and what is said about it;
* `Health.signals` : the thresholds in order: processing errors, delivery errors, invalid messages,
  security events;
* `Collector.health` : the report at a time; the worst crossed threshold is the verdict.
-/

namespace Ingress.Health

open Metrics

/-- The share of two counts; `0` of none. -/
def ratio (part whole : Nat) : Double :=
  if whole = 0 then .zero else (Double.ofNat part).div (.ofNat whole)

/-- A rate in percent with one decimal. -/
def percentText (rate : Double) : String := (rate.mul (.ofNat 100)).fixed 1 ++ "%"

structure Counts where
  received : Nat
  processed : Nat
  invalid : Nat
  processingErrors : Nat
  deliveries : Nat
  deliveryErrors : Nat
  securityEvents : Nat

namespace Counts

/-- The share of accepted payloads that were no event. -/
def processingErrorRate (c : Counts) : Double := ratio c.processingErrors c.processed

def deliveryErrorRate (c : Counts) : Double := ratio c.deliveryErrors c.deliveries

def invalidRate (c : Counts) : Double := ratio c.invalid c.received

end Counts

/-- One threshold of the verdict. -/
structure Signal where
  crossed : Bool
  status : Status
  issue : String

def signals (t : Thresholds) (c : Counts) : List Signal :=
  [{ crossed := t.errorRate.lt c.processingErrorRate
     status := .unhealthy
     issue := "High error rate: " ++ percentText c.processingErrorRate },
    { crossed := t.errorRate.lt c.deliveryErrorRate
      status := .unhealthy
      issue := "High delivery error rate: " ++ percentText c.deliveryErrorRate },
    { crossed := t.invalidRate.lt c.invalidRate
      status := .degraded
      issue := "High invalid message rate: " ++ percentText c.invalidRate },
    { crossed := decide (t.securityEvents < c.securityEvents)
      status := .securityAlert
      issue := "High security event rate: " ++ toString c.securityEvents ++ " in last "
        ++ toString t.securityWindow ++ "s" }]

def report (t : Thresholds) (c : Counts) (nowMs : Int) : Report :=
  let crossed := (signals t c).filter Signal.crossed
  { status := (crossed.map Signal.status).foldl Status.worst .healthy
    issues := crossed.map Signal.issue
    errorRate := c.processingErrorRate.max c.deliveryErrorRate
    deliveryErrorRate := c.deliveryErrorRate
    invalidRate := c.invalidRate
    recentSecurityEvents := c.securityEvents
    timestamp := .ofMillis nowMs }

end Ingress.Health

namespace Ingress.Metrics.Collector

def healthCounts (c : Collector) (nowMs : Int) : Health.Counts :=
  let t := c.config.health
  let windowed := fun name => c.windowed name (nowMs - t.rateWindow * 1000)
  { received := windowed Name.received
    processed := windowed Name.processed
    invalid := (windowed Name.invalidMessages + windowed Name.invalidEvents) % counterBound
    processingErrors := windowed Name.processingErrors
    deliveries := windowed Name.deliveries
    deliveryErrors := windowed Name.deliveryErrors
    securityEvents := c.securitySince (nowMs - t.securityWindow * 1000) }

def health (c : Collector) (nowMs : Int) : Health.Report :=
  Health.report c.config.health (c.healthCounts nowMs) nowMs

end Ingress.Metrics.Collector
