import Ingress.Metrics.Collector

/-!
# Exported metrics

* `Snapshot` : every metric under the text of its key;
* `Collector.snapshot` : the snapshot at a time;
* `Collector.exportText` : one line per number, counters first, then gauges, then histograms.
-/

namespace Ingress.Metrics

open Json

/-- Every metric under the text of its key, and the number of kept security events. -/
structure Snapshot where
  timestamp : Instant
  counters : List (String × Nat)
  gauges : List (String × Double)
  histograms : List (String × Summary)
  securityEvents : Nat

namespace Snapshot

def record : Record Snapshot :=
  { name := "MetricsSnapshot"
    blank := ⟨.epoch, [], [], [], 0⟩
    fields :=
      [.of "timestamp" .instant fun t s => { s with timestamp := t },
        .of "counters" (.map .u64) fun c s => { s with counters := c },
        .of "gauges" (.map .double) fun g s => { s with gauges := g },
        .of "histograms" (.map Summary.record.decode) fun h s => { s with histograms := h },
        .of "security_events" .size fun n s => { s with securityEvents := n }] }

def sortedValue {α : Type} (write : α → Value) (entries : List (String × α)) : Value :=
  .object (sortFields (entries.map fun e => (e.1, write e.2)))

def toValue (s : Snapshot) : Value :=
  .object [("timestamp", .string s.timestamp.render), ("counters", sortedValue .ofNat s.counters),
    ("gauges", sortedValue .ofDouble s.gauges),
    ("histograms", sortedValue Summary.toValue s.histograms),
    ("security_events", .ofNat s.securityEvents)]

end Snapshot

namespace Collector

def snapshot (c : Collector) (nowMs : Int) : Snapshot :=
  { timestamp := .ofMillis nowMs
    counters := c.counters.entries.map fun e => (e.1.text, e.2)
    gauges := c.gauges.entries.map fun e => (e.1.text, e.2)
    histograms := c.histograms.entries.map fun e => (e.1.text, e.2.summary)
    securityEvents := c.securityLog.length }

/-- Entries in the order of their keys. -/
def sorted {ν : Type} (t : Table Key ν) : List (Key × ν) :=
  t.entries.mergeSort fun a b => a.1.le b.1

def line (c : Collector) (k : Key) (suffix value : String) : String :=
  k.render c.config.exportName suffix ++ " " ++ value

def summaryLines (c : Collector) (k : Key) (s : Summary) : List String :=
  c.line k "_count" (toString s.count) ::
    [("_min", s.min), ("_max", s.max), ("_mean", s.mean), ("_p50", s.p50), ("_p95", s.p95),
      ("_p99", s.p99)].map fun e => c.line k e.1 (Layout.plain.text e.2)

/-- Every number of the metrics, one line each. -/
def exportText (c : Collector) : String :=
  "\n".intercalate <|
    (sorted c.counters).map (fun e => c.line e.1 "" (toString e.2))
      ++ (sorted c.gauges).map (fun e => c.line e.1 "" (Layout.plain.text e.2))
      ++ (sorted c.histograms).flatMap fun e => c.summaryLines e.1 e.2.summary

end Collector

end Ingress.Metrics
