import Ingress.Json.Decode

/-!
# Health

* `Health.Status` : the verdicts, from best to worst;
* `Status.worst` : the worse of two;
* `Health.Report` : a verdict with the rates it comes from, and its JSON value.
-/

namespace Ingress.Health

open Json

/-- A verdict, from best to worst. -/
inductive Status where
  | healthy
  | degraded
  | unhealthy
  | securityAlert
deriving DecidableEq, Repr

namespace Status

def all : List Status := [.healthy, .degraded, .unhealthy, .securityAlert]

def name : Status → String
  | .healthy => "healthy"
  | .degraded => "degraded"
  | .unhealthy => "unhealthy"
  | .securityAlert => "security_alert"

/-- The place of a verdict, worse ones higher. -/
def severity : Status → Nat
  | .healthy => 0
  | .degraded => 1
  | .unhealthy => 2
  | .securityAlert => 3

def worst (a b : Status) : Status := if a.severity < b.severity then b else a

/-- A gateway keeps taking traffic while it is at worst degraded. -/
def isServing (s : Status) : Bool := s.severity ≤ 1

def decoder : Decoder Status := .variant (all.map fun s => (s.name, s))

end Status

/-- A verdict with the rates it comes from. -/
structure Report where
  status : Status
  issues : List String
  errorRate : Double
  deliveryErrorRate : Double
  invalidRate : Double
  recentSecurityEvents : Nat
  timestamp : Instant

namespace Report

def record : Record Report :=
  { name := "HealthReport"
    blank := ⟨.healthy, [], .zero, .zero, .zero, 0, .epoch⟩
    fields :=
      [.of "status" Status.decoder fun s r => { r with status := s },
        .of "issues" (.list .string) fun l r => { r with issues := l },
        .of "error_rate" .double fun d r => { r with errorRate := d },
        .of "delivery_error_rate" .double fun d r => { r with deliveryErrorRate := d },
        .of "invalid_rate" .double fun d r => { r with invalidRate := d },
        .of "recent_security_events" .size fun n r => { r with recentSecurityEvents := n },
        .of "timestamp" .instant fun t r => { r with timestamp := t }] }

def toFields (r : Report) : Fields :=
  [("status", .string r.status.name), ("issues", .ofStrings r.issues),
    ("error_rate", .ofDouble r.errorRate), ("delivery_error_rate", .ofDouble r.deliveryErrorRate),
    ("invalid_rate", .ofDouble r.invalidRate),
    ("recent_security_events", .ofNat r.recentSecurityEvents),
    ("timestamp", .string r.timestamp.render)]

def toValue (r : Report) : Value := .object r.toFields

end Report

end Ingress.Health
