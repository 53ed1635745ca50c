import Ingress.Http.Response
import Ingress.Text.Class

/-!
# Routes of the gateway

* `Http.Route` : the routes, with `Http.route?` for a path;
* `Http.upgradeRefusal` : why a request on the path of sessions opens none;
* `Http.answerRoute` : the answer of a route to a `GET`;
* `Http.answer` : the answer to a request of any method.

An answer can change the gateway: the metrics refresh their gauges before they are written.
-/

namespace Ingress.Http

inductive Route where
  | sessions
  | health
  | ready
  | live
  | metrics
  | metricsJson
deriving DecidableEq, Repr

def pathOnly (path : String) : String := String.ofList (path.toList.takeWhile fun c => c ≠ '?')

def route? (wsPath path : String) : Option Route :=
  let path := pathOnly path
  if path = "/health" then some .health
  else if path = "/health/ready" then some .ready
  else if path = "/health/live" then some .live
  else if path = "/metrics" then some .metrics
  else if path = "/metrics/json" then some .metricsJson
  else if path = wsPath then some .sessions
  else none

def plainType : String := "text/plain; charset=utf-8"

def jsonType : String := "application/json"

/-- The methods of every route. -/
def allowed : String := "GET,HEAD"

def bare (status : Nat) : Response := ⟨status, none, none, ""⟩

def plain (status : Nat) (body : String) : Response := ⟨status, some plainType, none, body⟩

def json (v : Json.Value) : Response := ⟨200, some jsonType, none, v.render⟩

def lower (s : String) : String := String.ofList (s.toList.map Text.lowerAscii)

/-- The first value of a header; names do not mind their case. -/
def Request.header? (r : Request) (name : String) : Option String :=
  (r.headers.find? fun h => lower h.1 == name).map Prod.snd

def Request.headerHas (r : Request) (name word : String) : Bool :=
  (r.header? name).any fun value => ((lower value).splitOn word).length ≠ 1

def Request.headerIs (r : Request) (name word : String) : Bool :=
  (r.header? name).any fun value => lower value == word

/-- The answer to a request on the path of sessions that does not come from a connection which could
become one. -/
def upgradeRefusal (r : Request) : Response :=
  if !r.headerHas "connection" "upgrade" then
    plain 400 "Connection header did not include 'upgrade'"
  else if !r.headerIs "upgrade" "websocket" then
    plain 400 "`Upgrade` header did not include 'websocket'"
  else if !r.headerIs "sec-websocket-version" "13" then
    plain 400 "`Sec-WebSocket-Version` header did not include '13'"
  else if (r.header? "sec-websocket-key").isNone then
    plain 400 "`Sec-WebSocket-Key` header missing"
  else plain 426 "WebSocket request couldn't be upgraded since no upgrade state was present"

/-- The gauges that are read when metrics are written. -/
def refreshGauges (g : Gateway) : Gateway :=
  g.write fun l =>
    (l.setGauge Metrics.Name.limiterClients g.pipeline.limiter.count).setGauge
      Metrics.Name.queueDepth g.aggregator.queue.length

/-- The gateway batches and is not about to stop. -/
def isReady (g : Gateway) : Bool := g.aggregator.isRunning && !g.stopping

def answerRoute (g : Gateway) (r : Request) : Route → Response × Gateway
  | .sessions => (upgradeRefusal r, g)
  | .health => (json (HealthResponse.ofGateway g).toValue, g)
  | .ready => (bare (if isReady g then 200 else 503), g)
  | .live => (bare 200, g)
  | .metrics =>
    let g := refreshGauges g
    (plain 200 g.ledger.metrics.exportText, g)
  | .metricsJson =>
    let (body, g) := MetricsResponse.ofGateway (refreshGauges g)
    (json body.toValue, g)

/-- The answer to a `HEAD`: that to a `GET` without its body. -/
def answerHead (g : Gateway) (r : Request) (route : Route) : Response × Gateway :=
  if route = .sessions then (⟨405, some plainType, none, ""⟩, g)
  else
    let (response, g) := answerRoute g r route
    ({ response with body := "" }, g)

def answer (g : Gateway) (r : Request) : Response × Gateway :=
  let route := route? g.settings.wsPath r.path
  if r.method = "OPTIONS" then (⟨200, none, route.map fun _ => allowed, ""⟩, g)
  else
    match route with
    | none => (bare 404, g)
    | some route =>
      if r.method = "GET" then answerRoute g r route
      else if r.method = "HEAD" then answerHead g r route
      else (⟨405, none, some allowed, ""⟩, g)

end Ingress.Http
