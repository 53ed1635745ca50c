import Ingress.Event.Basic
import Ingress.Log.Entry
import Ingress.Metrics.Collector

/-!
# The ledger of a gateway

Every part of a gateway reads one clock, counts in one set of metrics, and writes one journal.

* `Occurrence`, `Happening` : something that happened, and when;
* `Ledger` : the clock, the metrics, and the journal, oldest first;
* `Ledger.note`, `log`, `count`, `increment`, `observe`, `setGauge`, `security` : what is written,
  at the present time;
* `Ledger.dispatched`, `logged`, `arrivals` : what the journal holds of each sort.

Time is in milliseconds since the epoch.
-/

namespace Ingress

/-- The place of a handler: the batch handler, or one of the delivery handlers. -/
inductive Place where
  | first
  | delivery (index : Nat)
deriving DecidableEq, Repr

/-- Something that is worth remembering: a batch leaves its window, a handler is given a batch, a
handler keeps a batch, or a log record is written. -/
inductive Occurrence where
  | dispatched (batch : List Event)
  | invoked (place : Place) (batch : List Event)
  | kept (handler : String) (batch : List Event)
  | logged (entry : Log.Entry)

structure Happening where
  time : Int
  what : Occurrence

structure Arrival where
  handler : String
  time : Int
  batch : List Event

/-- The clock, the metrics, and the journal. -/
structure Ledger where
  clock : Int
  metrics : Metrics.Collector
  journal : List Happening

namespace Ledger

def ofConfig (config : Metrics.Config) (clock : Int) : Ledger := ⟨clock, .ofConfig config, []⟩

/-! ## Writing -/

def note (l : Ledger) (what : Occurrence) : Ledger :=
  { l with journal := l.journal ++ [⟨l.clock, what⟩] }

def log (l : Ledger) (entry : Log.Entry) : Ledger := l.note (.logged entry)

def increment (l : Ledger) (name : String) (n : Nat) (labels : Metrics.Labels) : Ledger :=
  { l with metrics := l.metrics.increment name n labels l.clock }

def count (l : Ledger) (name : String) : Ledger := l.increment name 1 []

def observe (l : Ledger) (name : String) (value : Double) (labels : Metrics.Labels) : Ledger :=
  { l with metrics := l.metrics.observe name value labels }

def setGauge (l : Ledger) (name : String) (n : Nat) : Ledger :=
  { l with metrics := l.metrics.setGauge name (.ofNat n) [] }

def security (l : Ledger) (type client : String) (details : Json.Value) : Ledger :=
  { l with metrics := l.metrics.security type client details l.clock }

/-- The milliseconds since an earlier time as they are observed. -/
def elapsedSince (l : Ledger) (time : Int) : Double := Metrics.elapsedMs (l.clock - time).toNat

def pass (l : Ledger) (ms : Nat) : Ledger := { l with clock := l.clock + ms }

/-! ## Reading -/

/-- The batches of a journal that left their window, oldest first. -/
def dispatchedIn (journal : List Happening) : List (List Event) :=
  journal.filterMap fun h =>
    match h.what with
    | .dispatched batch => some batch
    | _ => none

def dispatched (l : Ledger) : List (List Event) := dispatchedIn l.journal

def loggedIn (journal : List Happening) : List Log.Entry :=
  journal.filterMap fun h =>
    match h.what with
    | .logged entry => some entry
    | _ => none

/-- The batches of a journal that a handler kept, oldest first. -/
def arrivalsIn (journal : List Happening) : List Arrival :=
  journal.filterMap fun h =>
    match h.what with
    | .kept handler batch => some ⟨handler, h.time, batch⟩
    | _ => none

/-- The order of arrivals: by handler, then by time. -/
def arrivalLe (a b : Arrival) : Bool :=
  if a.handler = b.handler then decide (a.time ≤ b.time) else decide (a.handler < b.handler)

/-- Arrivals by handler, then by time, then as they came. -/
def sortArrivals (arrivals : List Arrival) : List Arrival := arrivals.mergeSort arrivalLe

end Ledger

end Ingress
