import Ingress.Decimal.Layout
import Ingress.Health.Status
import Ingress.Text.Quoted

/-!
# Log records

* `Log.Entry` : the things that are worth a log record;
* `Entry.level`, `Entry.message`, `Entry.fields` : the record of a thing, its fields as texts.
-/

namespace Ingress.Log

inductive Level where
  | debug
  | info
  | warn
deriving DecidableEq, Repr

def Level.name : Level → String
  | .debug => "debug"
  | .info => "info"
  | .warn => "warn"

/-- What the periodic health record counts. -/
structure Vitals where
  status : Health.Status
  issues : List String
  connections : Nat
  queue : Nat
  received : Nat
  processed : Nat
  dropped : Nat

inductive Entry where
  | batchReceived (events games : Nat) (kinds : String)
  | slowBatch (id : String) (processingMs : Double) (windowMs : Nat)
  | deliveriesDetached (outstanding timeoutMs : Nat)
  | clientsReaped (removed remaining : Nat)
  | healthCheck (vitals : Vitals)

/-- A list of texts, each quoted. -/
def listText (texts : List String) : String := "[" ++ ", ".intercalate (texts.map Text.quoted) ++ "]"

namespace Entry

def level : Entry → Level
  | .batchReceived .. => .info
  | .slowBatch .. => .warn
  | .deliveriesDetached .. => .warn
  | .clientsReaped .. => .debug
  | .healthCheck v => if v.status = .healthy then .info else .warn

def message : Entry → String
  | .batchReceived .. => "Batch received"
  | .slowBatch .. => "Batch processing exceeded target window"
  | .deliveriesDetached .. => "Deliveries still running after drain timeout, detaching"
  | .clientsReaped .. => "Reaped idle rate limiter clients"
  | .healthCheck _ => "Health check"

/-- The fields of the health record; issues only when there is something wrong. -/
def vitalFields (v : Vitals) : List (String × String) :=
  (if v.status = .healthy then [] else [("issues", listText v.issues)])
    ++ [("status", v.status.name), ("connections", toString v.connections),
      ("queue", toString v.queue), ("received", toString v.received),
      ("processed", toString v.processed), ("dropped", toString v.dropped)]

def fields : Entry → List (String × String)
  | .batchReceived events games kinds =>
    [("events", toString events), ("games", toString games), ("kinds", kinds)]
  | .slowBatch id processingMs windowMs =>
    [("batch_id", id), ("processing_time_ms", Layout.debug.text processingMs),
      ("window_ms", toString windowMs)]
  | .deliveriesDetached outstanding timeoutMs =>
    [("outstanding", toString outstanding), ("timeout_ms", toString timeoutMs)]
  | .clientsReaped removed remaining =>
    [("removed", toString removed), ("remaining", toString remaining)]
  | .healthCheck v => vitalFields v

end Entry

end Ingress.Log
