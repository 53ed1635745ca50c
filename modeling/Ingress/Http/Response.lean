import Ingress.Gateway.Basic
import Ingress.Metrics.Export

/-!
# Bodies of responses

* `Http.Request`, `Http.Response` : a request by its path, and its answer;
* `HealthResponse` : the health report with the load of the gateway;
* `MetricsResponse` : everything that is known about the gateway.
-/

namespace Ingress

open Json

structure Http.Request where
  method : String
  path : String
  headers : List (String × String)

/-- A response: its status, the headers that matter, and its body. -/
structure Http.Response where
  status : Nat
  contentType : Option String
  allow : Option String
  body : String
deriving DecidableEq, Repr

structure HealthResponse where
  report : Health.Report
  connections : Nat
  queueDepth : Nat
  running : Bool

namespace HealthResponse

/-- The report of no gateway. -/
def blank : HealthResponse := ⟨Health.Report.record.blank, 0, 0, false⟩

/-- The own fields of a response; those of its report stand beside them. -/
def record : Record HealthResponse :=
  { name := "HealthResponse"
    blank := blank
    fields :=
      [.of "connections" .size fun n r => { r with connections := n },
        .of "queue_depth" .size fun n r => { r with queueDepth := n },
        .of "aggregator_running" .bool fun b r => { r with running := b }] }

def decode : Decoder HealthResponse :=
  record.decodeWith Health.Report.record fun r report => { r with report }

def toValue (r : HealthResponse) : Value :=
  .object <| r.report.toFields
    ++ [("connections", .ofNat r.connections), ("queue_depth", .ofNat r.queueDepth),
      ("aggregator_running", .bool r.running)]

def ofGateway (g : Gateway) : HealthResponse :=
  { report := g.ledger.metrics.health g.clock
    connections := g.registry.size
    queueDepth := g.aggregator.queue.length
    running := g.aggregator.isRunning }

end HealthResponse

/-- Everything that is known about a gateway. -/
structure MetricsResponse where
  metrics : Metrics.Snapshot
  aggregator : Batch.Summary
  batches : List Batch.Stats
  limiterClients : Nat
  topClients : List RateLimit.ClientReport
  connections : List Connection

namespace MetricsResponse

def listedClients : Nat := 10

def toValue (r : MetricsResponse) : Value :=
  .object [("metrics", r.metrics.toValue), ("aggregator", r.aggregator.toValue),
    ("batches", .array (r.batches.map Batch.Stats.toValue)),
    ("rate_limiter_clients", .ofNat r.limiterClients),
    ("top_clients", .array (r.topClients.map RateLimit.ClientReport.toValue)),
    ("connections", .ofNat r.connections.length),
    ("open_connections", .array (r.connections.map Connection.toValue))]

def ofGateway (g : Gateway) : MetricsResponse × Gateway :=
  let (topClients, limiter) := g.pipeline.limiter.top listedClients g.clock
  ({ metrics := g.ledger.metrics.snapshot g.clock
     aggregator := g.aggregator.summary
     batches := g.aggregator.stats.recent
     limiterClients := g.pipeline.limiter.count
     topClients
     connections := g.registry.listed },
    { g with pipeline := { g.pipeline with limiter } })

end MetricsResponse

end Ingress
