import Ingress.Json.Decode
import Ingress.Ledger
import Ingress.Text.Uuid

/-!
# Open sessions

* `Connection` : what is told about an open session, and its JSON value;
* `Session` : an open session, known inside by its serial number;
* `Registry` : the open sessions, in the order in which they were opened;
* `Registry.add`, `Registry.remove` : a session opens or ends;
* `Registry.listed` : the connections, oldest first;
* `Figure` : what is told of the registry after a change;
* `Registry.figures`, `Registry.entryFigures` : the figures that follow an end and an opening.

A change of the registry is made under a lock, and its figures are written once that is released. So
figures of several sessions may come in another order than the changes that they tell of.
-/

namespace Ingress

open Json

/-- What is told about an open session. -/
structure Connection where
  id : String
  client : String
  connectedAt : Instant

namespace Connection

def decodeId : Decoder String
  | .string s => ((Uuid.parse s).map Uuid.text).mapError fun e => .badId e.message
  | v => mismatch "a formatted UUID string" v

def record : Record Connection :=
  { name := "ConnectionInfo"
    blank := ⟨"", "", .epoch⟩
    fields :=
      [.of "id" decodeId fun s c => { c with id := s },
        .of "client_id" .string fun s c => { c with client := s },
        .of "connected_at" .instant fun t c => { c with connectedAt := t }] }

def toValue (c : Connection) : Value :=
  .object [("id", .string c.id), ("client_id", .string c.client),
    ("connected_at", .string c.connectedAt.render)]

end Connection

structure Session where
  serial : Nat
  connection : Connection

/-- What is told of the registry after a change: the gauge and the published number of open sessions, which
are the number right after the change, and the counter of all sessions. -/
inductive Figure where
  | gauge (size : Nat)
  | published (size : Nat)
  | opened
deriving DecidableEq, Repr

/-- The open sessions, and the number of sessions opened so far. -/
structure Registry where
  live : List Session
  opened : Nat

namespace Registry

def empty : Registry := ⟨[], 0⟩

def size (r : Registry) : Nat := r.live.length

/-- A session opens; its serial number comes back. -/
def add (r : Registry) (connection : Connection) : Nat × Registry :=
  (r.opened, ⟨r.live ++ [⟨r.opened, connection⟩], r.opened + 1⟩)

def remove (r : Registry) (serial : Nat) : Registry :=
  { r with live := r.live.filter fun s => s.serial != serial }

def isOpen (r : Registry) (serial : Nat) : Bool := r.live.any fun s => s.serial == serial

def serialOf? (r : Registry) (client : String) : Option Nat :=
  (r.live.find? fun s => s.connection.client == client).map Session.serial

/-- The connections, oldest first. -/
def listed (r : Registry) : List Connection :=
  (r.live.map Session.connection).mergeSort fun a b =>
    decide (a.connectedAt.total ≤ b.connectedAt.total)

/-- The figures of the number of open sessions, in the order in which they are written. -/
def figures (r : Registry) : List Figure := [.gauge r.size, .published r.size]

/-- The figures of a session that has been opened. -/
def entryFigures (r : Registry) : List Figure := r.figures ++ [.opened]

end Registry

end Ingress
