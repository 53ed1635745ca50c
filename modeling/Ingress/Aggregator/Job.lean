import Ingress.Aggregator.Handler

/-!
# Dispatched batches

A dispatched batch is a job of its own: the batch handler takes it first, and when that one has
ended, whatever its result, all delivery handlers take it at the same time.

* `Handlers` : the batch handler, if there is one, and the delivery handlers;
* `Delivery` : a handler that has been given a batch, and when it will end;
* `Job`, `Stage` : a dispatched batch and how far it is;
* `Job.lead`, `Job.spread` : the two steps of a job at an instant;
* `Delivery.finish` : what the end of a handler does to the ledger.
-/

namespace Ingress.Aggregator

open Metrics

/-- The batch handler, if there is one, and the delivery handlers. -/
structure Handlers where
  batchHandler : Option Handler
  deliveryHandlers : List Handler

/-- A handler that has been given a batch. -/
structure Delivery where
  handler : Handler
  begun : Int
  response : Response

/-- How far a dispatched batch is. -/
inductive Stage where
  | dispatched
  | leading (d : Delivery)
  | led
  | spreading (ds : List Delivery)

/-- A dispatched batch: its number, the run of the aggregator it belongs to, and how far it is. -/
structure Job where
  number : Nat
  run : Nat
  batch : List Event
  stage : Stage

namespace Delivery

def due (d : Delivery) : Int := d.begun + d.response.delay

def isDue (d : Delivery) (now : Int) : Bool := decide (d.due ≤ now)

/-- The end of a handler: its sink takes the batch, and the delivery is counted. -/
def finish (d : Delivery) (batch : List Event) (l : Ledger) : Ledger :=
  let labels := [("handler", d.handler.name)]
  let l := d.handler.sink.take d.handler.name batch l
  let l := l.increment Name.deliveries 1 labels
  let l := l.observe Name.deliveryMs (l.elapsedSince d.begun) labels
  if d.response.outcome = .done then l else l.increment Name.deliveryErrors 1 labels

end Delivery

namespace Job

def isFinished (j : Job) : Bool :=
  match j.stage with
  | .spreading [] => true
  | _ => false

def invoke (j : Job) (place : Place) (handler : Handler) (l : Ledger) : Delivery × Ledger :=
  (⟨handler, l.clock, handler.respond j.number⟩, l.note (.invoked place j.batch))

def endLead (j : Job) (d : Delivery) (l : Ledger) : Job × Ledger :=
  if d.isDue l.clock then ({ j with stage := .led }, d.finish j.batch l)
  else ({ j with stage := .leading d }, l)

/-- The first step of a job at an instant: the batch handler is given the batch, or ends. -/
def lead (handlers : Handlers) (j : Job) (l : Ledger) : Job × Ledger :=
  match j.stage with
  | .dispatched =>
    match handlers.batchHandler with
    | none => ({ j with stage := .led }, l)
    | some handler =>
      let (d, l) := j.invoke .first handler l
      j.endLead d l
  | .leading d => j.endLead d l
  | _ => (j, l)

/-- Gives the batch to the delivery handlers from the one of an index on. -/
def invokeAll (j : Job) (index : Nat) : List Handler → Ledger → List Delivery × Ledger
  | [], l => ([], l)
  | handler :: rest, l =>
    let (d, l) := j.invoke (.delivery index) handler l
    let (ds, l) := j.invokeAll (index + 1) rest l
    (d :: ds, l)

/-- The deliveries that are due end, in order; the others remain. -/
def endDue (j : Job) : List Delivery → Ledger → List Delivery × Ledger
  | [], l => ([], l)
  | d :: rest, l =>
    if d.isDue l.clock then j.endDue rest (d.finish j.batch l)
    else
      let (ds, l) := j.endDue rest l
      (d :: ds, l)

def endSpread (j : Job) (ds : List Delivery) (l : Ledger) : Job × Ledger :=
  let (ds, l) := j.endDue ds l
  ({ j with stage := .spreading ds }, l)

/-- The second step of a job at an instant: the delivery handlers are given the batch, or end. -/
def spread (handlers : Handlers) (j : Job) (l : Ledger) : Job × Ledger :=
  match j.stage with
  | .led =>
    let (ds, l) := j.invokeAll 0 handlers.deliveryHandlers l
    j.endSpread ds l
  | .spreading ds => j.endSpread ds l
  | _ => (j, l)

/-- One step of every job, in the order in which they were dispatched. -/
def stepAll (step : Job → Ledger → Job × Ledger) : List Job → Ledger → List Job × Ledger
  | [], l => ([], l)
  | j :: rest, l =>
    let (j, l) := step j l
    let (js, l) := stepAll step rest l
    (j :: js, l)

/-- Everything that is due at the present time: first the first step of every job, then the second
one; finished jobs go. -/
def settleAll (handlers : Handlers) (jobs : List Job) (l : Ledger) : List Job × Ledger :=
  let (jobs, l) := stepAll (lead handlers) jobs l
  let (jobs, l) := stepAll (spread handlers) jobs l
  (jobs.filter fun j => !j.isFinished, l)

end Job

end Ingress.Aggregator
