import Ingress.Aggregator.Job
import Ingress.Batch.Stats
import Ingress.Config.Aggregator

/-!
# The aggregator

Accepted events wait in a bounded queue. A collector moves them into the open window; the window
closes when its time is up or when it is full, its events are dispatched as one batch, and the next
window opens at once.

* `Aggregator` : queue, collector, jobs, statistics, and the ledger it writes to;
* `Aggregator.add` : an event enters the queue, unless it is full or the aggregator is stopped;
* `Aggregator.start` : the collector is to run;
* `Aggregator.settle` : everything that is due at the present time;
* `Aggregator.flush` : what a stop does at once: all that is accepted leaves as one batch;
* `Aggregator.tick`, `sleep`, `leap`, `stop` : the passing of time.
-/

namespace Ingress

open Metrics

/-- The open window: when it opened, how long the queue was then, and the events so far. -/
structure Aggregator.Window where
  opened : Int
  queued : Nat
  batch : List Event

/-- What the collector does: nothing, it has yet to open its first window, it gathers events, or it
waits for deliveries up to a time. -/
inductive Aggregator.Phase where
  | idle
  | starting
  | gathering (w : Aggregator.Window)
  | draining (deadline : Int)

/-- Batches accepted events and hands them to handlers. -/
structure Aggregator where
  settings : Aggregator.Config
  handlers : Aggregator.Handlers
  accepting : Bool
  queue : List Event
  phase : Aggregator.Phase
  run : Nat
  jobs : List Aggregator.Job
  stats : Batch.Ring
  ledger : Ledger

namespace Aggregator

/-- An aggregator that has not been started; it accepts events already. -/
def ofConfig (settings : Aggregator.Config) (handlers : Handlers) (ledger : Ledger) : Aggregator :=
  { settings, handlers, ledger
    accepting := true
    queue := []
    phase := .idle
    run := 0
    jobs := []
    stats := .ofCapacity settings.statsHistory }

/-- The room of the queue, at least for one event. -/
def capacity (a : Aggregator) : Nat := Max.max a.settings.maxQueueSize 1

/-- The size at which a window closes, at least one event. -/
def batchLimit (a : Aggregator) : Nat := Max.max a.settings.maxBatchSize 1

def clock (a : Aggregator) : Int := a.ledger.clock

/-- Started and not stopped. -/
def isRunning (a : Aggregator) : Bool :=
  match a.phase with
  | .starting => true
  | .gathering _ => true
  | _ => false

def drainDeadline? (a : Aggregator) : Option Int :=
  match a.phase with
  | .draining deadline => some deadline
  | _ => none

/-- When the collector is due whatever comes in, and how long it waited for that: its window
closes, or it gives up waiting for deliveries. -/
def timer? (a : Aggregator) : Option (Int × Nat) :=
  match a.phase with
  | .gathering w => some (w.opened + a.settings.batchWindow, a.settings.batchWindow)
  | .draining deadline => some (deadline, a.settings.drainTimeout)
  | _ => none

def openBatch (a : Aggregator) : List Event :=
  match a.phase with
  | .gathering w => w.batch
  | _ => []

def summary (a : Aggregator) : Batch.Summary := a.stats.summary a.queue.length a.isRunning

def write (a : Aggregator) (f : Ledger → Ledger) : Aggregator := { a with ledger := f a.ledger }

/-! ## Intake -/

/-- An event enters the queue; it is dropped when the queue is full or the aggregator is stopped. -/
def add (a : Aggregator) (e : Event) : Bool × Aggregator :=
  if a.accepting && decide (a.queue.length < a.capacity) then
    (true, { a with queue := a.queue ++ [e] })
  else (false, a.write fun l => l.count Name.dropped)

/-- The collector is to run; nothing when it runs already or still waits for deliveries. -/
def start (a : Aggregator) : Aggregator :=
  match a.phase with
  | .idle => { a with accepting := true, phase := .starting, run := a.run + 1 }
  | _ => a

/-! ## The collector -/

def openWindow (a : Aggregator) (queue : List Event) : Window × Aggregator :=
  (⟨a.clock, queue.length, []⟩, a.write fun l => l.setGauge Name.queueDepth queue.length)

/-- The ledger after a batch of a size has been dispatched. -/
def recordDispatch (a : Aggregator) (batch : List Event) (elapsed : Double) (l : Ledger) : Ledger :=
  let l := l.note (.dispatched batch)
  let l := l.count Name.batches
  let l := l.observe Name.batchSize (.ofNat batch.length) []
  let l := l.observe Name.batchMs elapsed []
  if a.settings.slowThreshold.lt elapsed then
    (l.count Name.slowBatches).log
      (.slowBatch a.stats.nextId.1 elapsed a.settings.batchWindow)
  else l

/-- The events of a window leave as one batch, unless there are none. -/
def dispatch (a : Aggregator) (w : Window) : Aggregator :=
  if w.batch.isEmpty then a
  else
    let elapsed := a.ledger.elapsedSince w.opened
    let (id, stats) := a.stats.nextId
    { a with
      jobs := a.jobs ++ [⟨stats.issued, a.run, w.batch, .dispatched⟩]
      ledger := a.recordDispatch w.batch elapsed a.ledger
      stats := stats.record ⟨id, w.batch.length, elapsed, w.queued, .ofMillis a.clock⟩ }

/-- Moves queued events into the window; a full window is dispatched and the next one opens. -/
def gather (a : Aggregator) (w : Window) : List Event → Aggregator
  | [] => { a with phase := .gathering w, queue := [] }
  | e :: rest =>
    let w := { w with batch := w.batch ++ [e] }
    if a.batchLimit ≤ w.batch.length then
      let (w, a) := (a.dispatch w).openWindow rest
      a.gather w rest
    else a.gather w rest

def gatherAnew (a : Aggregator) : Aggregator :=
  let (w, a) := a.openWindow a.queue
  a.gather w a.queue

def isOver (a : Aggregator) (w : Window) : Bool :=
  decide (w.opened + a.settings.batchWindow ≤ a.clock)

/-- What the collector does at the present time: a window whose time is up closes before events are
taken. -/
def collect (a : Aggregator) : Aggregator :=
  match a.phase with
  | .starting => a.gatherAnew
  | .gathering w => if a.isOver w then (a.dispatch w).gatherAnew else a.gather w a.queue
  | _ => a

/-! ## Deliveries -/

/-- The unfinished jobs of the present run. -/
def outstanding (a : Aggregator) : Nat := a.jobs.countP fun j => j.run == a.run && !j.isFinished

def endDrained (a : Aggregator) : Aggregator :=
  match a.phase with
  | .draining _ => if a.outstanding = 0 then { a with phase := .idle } else a
  | _ => a

/-- A stop that waits gives up at its deadline; what is outstanding goes on by itself. -/
def endExpired (a : Aggregator) : Aggregator :=
  match a.phase with
  | .draining deadline =>
    if deadline ≤ a.clock then
      { a with
        phase := .idle
        ledger := a.ledger.log (.deliveriesDetached a.outstanding a.settings.drainTimeout) }
    else a
  | _ => a

def deliver (a : Aggregator) : Aggregator :=
  let (jobs, ledger) := Job.settleAll a.handlers a.jobs a.ledger
  { a with jobs, ledger }

/-- What is due of the collector, and of a stop that waits: it sees its deadline before deliveries
end at the same time. -/
def advance (a : Aggregator) : Aggregator := a.collect.endDrained.endExpired

/-- What is due of the deliveries. -/
def conclude (a : Aggregator) : Aggregator := a.deliver.endDrained

/-- Everything that is due at the present time. -/
def settle (a : Aggregator) : Aggregator := a.advance.conclude

/-! ## Stopping -/

/-- All that is accepted leaves as one batch, and the wait for deliveries begins. -/
def flushWindow (a : Aggregator) (w : Window) : Aggregator :=
  let a := a.dispatch { w with batch := w.batch ++ a.queue }
  { a with
    accepting := false
    queue := []
    phase := .draining (a.clock + a.settings.drainTimeout) }

/-- What a stop does at once; nothing when the aggregator is not running. -/
def flush (a : Aggregator) : Aggregator :=
  match a.phase with
  | .starting =>
    let (w, a) := a.openWindow a.queue
    a.flushWindow w
  | .gathering w => a.flushWindow w
  | _ => a

/-! ## Time -/

def pass (a : Aggregator) (ms : Nat) : Aggregator := a.write fun l => l.pass ms

def tick (a : Aggregator) : Aggregator := (a.pass 1).settle

def ticks : Nat → Aggregator → Aggregator
  | 0, a => a
  | n + 1, a => ticks n a.tick

/-- What is due is done, then so many milliseconds pass one by one. -/
def sleep (a : Aggregator) (ms : Nat) : Aggregator := ticks ms a.settle

/-- What is due is done, time passes at once, and what is due then is done. -/
def leap (a : Aggregator) (ms : Nat) : Aggregator := (a.settle.pass ms).settle

/-- Time passes until no stop waits, at most `n` milliseconds. -/
def awaitDrain : Nat → Aggregator → Aggregator
  | 0, a => a
  | n + 1, a => if a.drainDeadline?.isSome then awaitDrain n a.tick else a

/-- What is due is done; then the aggregator stops, and waits for deliveries. -/
def stop (a : Aggregator) : Aggregator :=
  awaitDrain a.settings.drainTimeout a.settle.flush.settle

end Aggregator

end Ingress
