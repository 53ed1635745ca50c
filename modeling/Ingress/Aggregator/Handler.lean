import Ingress.Ledger
import Ingress.Text.Order

/-!
# Handlers of batches

* `Outcome`, `Response` : how a handler ends with a batch, and how long it takes;
* `Sink` : what a handler does with a batch when it is through;
* `Handler` : a name, a sink, and the response to each batch by its number;
* `Handler.log`, `Handler.counter` : the two handlers that every gateway has;
* `failureText` : how a failure is told;
* `Sink.take` : the effect of a sink on the ledger;
* `kindCounts` : the events of a batch by kind.
-/

namespace Ingress.Aggregator

inductive Outcome where
  | done
  | failed
  | panicked
deriving DecidableEq, Repr

/-- How a handler takes a batch: after how many milliseconds it ends, and how. -/
structure Response where
  delay : Nat
  outcome : Outcome
deriving DecidableEq, Repr

def Response.atOnce : Response := ⟨0, .done⟩

/-- What a handler does with a batch. -/
inductive Sink where
  | drop
  | keep
  | log
  | count
deriving DecidableEq, Repr

structure Handler where
  name : String
  sink : Sink
  respond : Nat → Response

def Handler.log : Handler := ⟨"log", .log, fun _ => .atOnce⟩

def Handler.counter : Handler := ⟨"metrics", .count, fun _ => .atOnce⟩

def failureText (reason : String) : String := "delivery failed: " ++ reason

/-- The kinds in a batch with the number of their events, in the order of the kinds. -/
def kindCounts (batch : List Event) : List (Kind × Nat) :=
  (Kind.all.map fun k => (k, batch.countP fun e => e.kind == k)).filter fun c => c.2 ≠ 0

def gameCount (batch : List Event) : Nat := ((batch.map Event.gameId).mergeSort Text.le).eraseReps.length

def kindsText (batch : List Event) : String :=
  ",".intercalate ((kindCounts batch).map fun c => c.1.name ++ "=" ++ toString c.2)

def Sink.take (sink : Sink) (handler : String) (batch : List Event) (l : Ledger) : Ledger :=
  match sink with
  | .drop => l
  | .keep => l.note (.kept handler batch)
  | .log => l.log (.batchReceived batch.length (gameCount batch) (kindsText batch))
  | .count =>
    (kindCounts batch).foldl
      (fun l c => l.increment Metrics.Name.batchedEvents c.2 [("type", c.1.name)]) l

end Ingress.Aggregator
