import Ingress.Config.Gateway
import Ingress.Health.Verdict
import Ingress.Pipeline.Basic
import Ingress.Session.Registry

/-!
# The gateway

* `Gateway` : the pipeline, the open sessions, and the tasks in the background;
* `Gateway.ofConfig` : a gateway of a configuration that can be run;
* `Task`, `Gateway.runTasks` : the reaper of idle clients and the periodic health record;
* `Gateway.settle` : everything that is due at the present time;
* `Gateway.tick`, `sleep`, `leap`, `stopBatching`, `awaitIdle` : the passing of time.
-/

namespace Ingress

open Metrics

/-- What a task in the background does. -/
inductive Duty where
  | reap
  | report
deriving DecidableEq, Repr

/-- A task in the background: its period in milliseconds, and when it is due once it has begun. -/
structure Task where
  duty : Duty
  period : Nat
  next : Option Int

namespace Task

def fresh (duty : Duty) (seconds : Nat) : Task := ⟨duty, seconds * 1000, none⟩

/-- How often a task is due at a time: the reaper also when it begins, and both once for each period
that has passed. -/
def passes (t : Task) (now : Int) : Nat :=
  match t.next, t.duty with
  | none, .reap => 1
  | none, .report => 0
  | some due, _ => if due ≤ now then ((now - due) / t.period).toNat + 1 else 0

/-- Whether a task comes before something else that fell due at a time and is due at a distance:
what fell due earlier comes first, and of two that fell due together the one that is due less
often. -/
def precedes (t : Task) (due : Int) (distance : Nat) : Bool :=
  match t.next with
  | none => false
  | some own => decide (own < due) || (own == due && decide (distance < t.period))

/-- The order in which tasks do what is due; those that have yet to begin come last. -/
def le (t u : Task) : Bool :=
  match t.next with
  | none => u.next.isNone
  | some due => !u.precedes due t.period

/-- A task after it has done what was due. -/
def rescheduled (t : Task) (now : Int) : Task :=
  match t.next with
  | none => { t with next := some (now + t.period) }
  | some due => { t with next := some (due + t.passes now * t.period) }

end Task

/-- The pipeline, the open sessions and their number as it was last published, and the tasks in the
background. -/
structure Gateway where
  settings : Gateway.Config
  pipeline : Pipeline
  registry : Registry
  published : Nat
  listening : Bool
  stopping : Bool
  tasks : List Task

namespace Gateway

/-- A gateway of a configuration that has been checked. -/
def build (c : Gateway.Config) (handlers : Aggregator.Handlers) (clock : Int) : Gateway :=
  { settings := c
    pipeline :=
      { limits := c.limits
        limiter := .ofConfig c.rateLimit
        aggregator := .ofConfig c.aggregator handlers (.ofConfig c.metrics clock) }
    registry := .empty
    published := 0
    listening := false
    stopping := false
    tasks := [] }

def ofConfig (c : Gateway.Config) (handlers : Aggregator.Handlers) (clock : Int) :
    Except ConfigError Gateway := do
  c.check
  pure (build c handlers clock)

def aggregator (g : Gateway) : Aggregator := g.pipeline.aggregator

def ledger (g : Gateway) : Ledger := g.pipeline.ledger

def clock (g : Gateway) : Int := g.pipeline.clock

def write (g : Gateway) (f : Ledger → Ledger) : Gateway :=
  { g with pipeline := g.pipeline.write f }

def onAggregator (g : Gateway) (f : Aggregator → Aggregator) : Gateway :=
  { g with pipeline := { g.pipeline with aggregator := f g.aggregator } }

/-! ## Background -/

def reap (g : Gateway) : Gateway :=
  let (removed, limiter) := g.pipeline.limiter.cleanup g.clock
  let g := { g with pipeline := { g.pipeline with limiter } }
  g.write fun l =>
    let l := l.setGauge Name.limiterClients limiter.count
    if removed = 0 then l else l.log (.clientsReaped removed limiter.count)

/-- What the health record counts at the present time. -/
def vitals (g : Gateway) : Log.Vitals :=
  let metrics := g.ledger.metrics
  let report := metrics.health g.clock
  { status := report.status
    issues := report.issues
    connections := g.registry.size
    queue := g.aggregator.queue.length
    received := metrics.counter Name.received []
    processed := metrics.counter Name.processed []
    dropped := metrics.counter Name.dropped [] }

def report (g : Gateway) : Gateway := g.write fun l => l.log (.healthCheck g.vitals)

def perform (g : Gateway) : Duty → Gateway
  | .reap => g.reap
  | .report => g.report

def performTimes (duty : Duty) : Nat → Gateway → Gateway
  | 0, g => g
  | n + 1, g => performTimes duty n (g.perform duty)

def runTasks : List Task → Gateway → Gateway
  | [], g => g
  | t :: rest, g => runTasks rest (performTimes t.duty (t.passes g.clock) g)

/-- Whether a task comes before what is due of the collector. -/
def isAhead (g : Gateway) (t : Task) : Bool :=
  match g.aggregator.timer? with
  | some (due, distance) => decide (due ≤ g.clock) && t.precedes due distance
  | none => false

/-- Everything that is due of the collector and of the tasks. -/
def advance (g : Gateway) : Gateway :=
  let now := g.clock
  let (early, late) := (g.tasks.mergeSort Task.le).partition g.isAhead
  let g := runTasks late ((runTasks early g).onAggregator .advance)
  { g with tasks := g.tasks.map fun t => t.rescheduled now }

def spawn (g : Gateway) (t : Task) : Gateway := { g with tasks := g.tasks ++ [t] }

def startReaper (g : Gateway) : Gateway :=
  g.spawn (.fresh .reap g.settings.rateLimit.cleanupInterval)

/-- Starts the health record, unless its interval is zero. -/
def startReport (g : Gateway) : Bool × Gateway :=
  if g.settings.healthLogInterval = 0 then (false, g)
  else (true, g.spawn (.fresh .report g.settings.healthLogInterval))

/-! ## Time -/

/-- Everything that is due at the present time: the collector and the tasks, then the deliveries. -/
def settle (g : Gateway) : Gateway := g.advance.onAggregator .conclude

def pass (g : Gateway) (ms : Nat) : Gateway := g.onAggregator fun a => a.pass ms

def tick (g : Gateway) : Gateway := (g.pass 1).settle

def ticks : Nat → Gateway → Gateway
  | 0, g => g
  | n + 1, g => ticks n g.tick

/-- What is due is done, then so many milliseconds pass one by one. -/
def sleep (g : Gateway) (ms : Nat) : Gateway := ticks ms g.settle

/-- What is due is done, time passes at once, and what is due then is done. -/
def leap (g : Gateway) (ms : Nat) : Gateway := (g.settle.pass ms).settle

/-- Time passes until no stop waits, at most `n` milliseconds. -/
def awaitDrain : Nat → Gateway → Gateway
  | 0, g => g
  | n + 1, g => if g.aggregator.drainDeadline?.isSome then awaitDrain n g.tick else g

/-- The collector is to run. -/
def startBatching (g : Gateway) : Gateway := g.onAggregator .start

/-- What is due is done; then the aggregator stops, and waits for deliveries. -/
def stopBatching (g : Gateway) : Gateway :=
  awaitDrain g.settings.aggregator.drainTimeout (g.settle.onAggregator .flush).settle

/-- Waits until no session is open, at most `ms` milliseconds; nothing closes one meanwhile. -/
def awaitIdle (g : Gateway) (ms : Nat) : Bool × Gateway :=
  let g := g.settle
  if g.published = 0 then (true, g) else (false, ticks ms g)

end Gateway

end Ingress
