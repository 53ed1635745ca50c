import Ingress.Json.Decode

/-!
# Security events

* `SecurityEvent` : a rejection that matters for security: its type, the client, details, the time;
* `SecurityEvent.record`, `SecurityEvent.toValue` : its JSON value.
-/

namespace Ingress.Metrics

open Json

/-- A rejection that matters for security. -/
structure SecurityEvent where
  type : String
  client : String
  details : Value
  timestamp : Instant

namespace SecurityEvent

def record : Record SecurityEvent :=
  { name := "SecurityEvent"
    blank := ⟨"", "", .null, .epoch⟩
    fields :=
      [.of "type" .string fun s e => { e with type := s },
        .of "client_id" .string fun s e => { e with client := s },
        .of "details" .any fun v e => { e with details := v },
        .of "timestamp" .instant fun t e => { e with timestamp := t }] }

def toValue (e : SecurityEvent) : Value :=
  .object [("type", .string e.type), ("client_id", .string e.client), ("details", e.details),
    ("timestamp", .string e.timestamp.render)]

end SecurityEvent

end Ingress.Metrics
