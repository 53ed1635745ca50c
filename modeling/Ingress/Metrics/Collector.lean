import Ingress.Config.Metrics
import Ingress.Metrics.Histogram
import Ingress.Metrics.Key
import Ingress.Metrics.Name
import Ingress.Metrics.Rolling
import Ingress.Metrics.SecurityEvent

/-!
# Collected metrics

* `Collector` : counters, gauges, histograms, recent security events, and rolling counts;
* `Collector.increment`, `setGauge`, `observe`, `security` : what is recorded;
* `Collector.counter`, `counterTotal`, `windowed`, `gauge`, `summary`, `securitySince` : what is
  read;
* `Collector.reset` : everything forgotten;
* `elapsedMs` : a span of time as it is observed.

Counters are 64-bit words and wrap. Times are milliseconds since the epoch.
-/

namespace Ingress.Metrics

/-- Counters are words. -/
def counterBound : Nat := Nat.pow 2 64

/-- Counters, gauges, histograms, recent security events, and rolling counts. -/
structure Collector where
  config : Metrics.Config
  counters : Table Key Nat
  gauges : Table Key Double
  histograms : Table Key Histogram
  securityLog : List SecurityEvent
  rates : Rolling

/-- A span of milliseconds as it is observed: whole seconds and the rest are added as doubles, then
scaled. -/
def elapsedMs (ms : Nat) : Double :=
  ((Double.ofNat (ms / 1000)).add
    ((Double.ofNat (ms % 1000 * 1000000)).div (.ofNat 1000000000))).mul (.ofNat 1000)

def secondOf (ms : Int) : Int := ms.fdiv 1000

namespace Collector

def ofConfig (config : Metrics.Config) : Collector :=
  { config
    counters := .empty
    gauges := .empty
    histograms := .empty
    securityLog := []
    rates := .ofSpan config.health.rateWindow }

/-! ## Counters -/

/-- A counter raised by `n` at a time; tracked counters also count by time. -/
def increment (c : Collector) (name : String) (n : Nat) (labels : Labels) (atMs : Int) :
    Collector :=
  { c with
    counters := c.counters.alter (.of name labels) fun old => (old.getD 0 + n) % counterBound
    rates := if Name.rateTracked.contains name then c.rates.record name n (secondOf atMs)
      else c.rates }

def count (c : Collector) (name : String) (atMs : Int) : Collector := c.increment name 1 [] atMs

def counter (c : Collector) (name : String) (labels : Labels) : Nat :=
  (c.counters.get? (.of name labels)).getD 0

/-- The sum of a counter over all its labels, as a word. -/
def counterTotal (c : Collector) (name : String) : Nat :=
  ((c.counters.entries.filter fun e => e.1.name == name).map Prod.snd).foldl (· + ·) 0 % counterBound

/-- The amount of a tracked counter since a time. -/
def windowed (c : Collector) (name : String) (sinceMs : Int) : Nat :=
  c.rates.sumSince name (secondOf sinceMs)

/-! ## Gauges and histograms -/

def setGauge (c : Collector) (name : String) (value : Double) (labels : Labels) : Collector :=
  { c with gauges := c.gauges.insert (.of name labels) value }

def gauge (c : Collector) (name : String) : Double := (c.gauges.get? (.of name [])).getD .zero

def observe (c : Collector) (name : String) (value : Double) (labels : Labels) : Collector :=
  { c with
    histograms := c.histograms.alter (.of name labels) fun old =>
      (old.getD (.ofCapacity c.config.historySize)).observe value }

def summary (c : Collector) (name : String) (labels : Labels) : Summary :=
  ((c.histograms.get? (.of name labels)).map Histogram.summary).getD .none

/-! ## Security events -/

/-- A log with one more event; at capacity the oldest goes. -/
def pushSecurity (capacity : Nat) (log : List SecurityEvent) (e : SecurityEvent) :
    List SecurityEvent :=
  (if capacity ≤ log.length then log.drop 1 else log) ++ [e]

/-- A security event at a time: it is counted by its type and kept in the log. -/
def security (c : Collector) (type client : String) (details : Json.Value) (nowMs : Int) :
    Collector :=
  let c := c.count (Name.securityEvents type) nowMs
  { c with
    securityLog := pushSecurity c.config.securityLogSize c.securityLog
      ⟨type, client, details, .ofMillis nowMs⟩ }

def securitySince (c : Collector) (sinceMs : Int) : Nat :=
  (c.securityLog.reverse.takeWhile fun e =>
    (Instant.ofMillis sinceMs).total ≤ e.timestamp.total).length

def reset (c : Collector) : Collector :=
  { c with
    counters := .empty
    gauges := .empty
    histograms := .empty
    securityLog := []
    rates := c.rates.clear }

end Collector

end Ingress.Metrics
