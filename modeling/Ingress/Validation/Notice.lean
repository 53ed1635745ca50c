import Ingress.Json.Decode

/-!
# Notices of validation

* `Severity` : an error rejects the event, a warning only says what the sanitizer will change;
* `Notice` : what a client is told of one finding, and its JSON value.
-/

namespace Ingress

open Json

inductive Severity where
  | error
  | warning
deriving DecidableEq, Repr

namespace Severity

def name : Severity → String
  | .error => "error"
  | .warning => "warning"

def decoder : Decoder Severity := .variant ([Severity.error, .warning].map fun s => (s.name, s))

end Severity

/-- What a client is told of one finding. -/
structure Notice where
  field : String
  message : String
  severity : Severity
deriving DecidableEq, Repr

namespace Notice

def record : Record Notice :=
  { name := "ValidationError"
    blank := ⟨"", "", .error⟩
    fields :=
      [.of "field" .string fun s n => { n with field := s },
        .of "message" .string fun s n => { n with message := s },
        .of "severity" Severity.decoder fun s n => { n with severity := s }] }

def toValue (n : Notice) : Value :=
  .object [("field", .string n.field), ("message", .string n.message),
    ("severity", .string n.severity.name)]

end Notice

end Ingress
