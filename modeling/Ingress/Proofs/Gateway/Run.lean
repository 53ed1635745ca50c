import Ingress.Gateway.Basic
import Ingress.Gateway.Service
import Ingress.Proofs.Aggregator.Invariant
import Ingress.Proofs.Aggregator.Conservation
import Ingress.Proofs.Pipeline.Message
import Mathlib

/-!
# Runs of a gateway

* `Background` : what happens to a gateway apart from messages: tasks, time, starts and stops of the
  aggregator;
* `Action`, `Exchange` : what can happen, and a message with its outcome;
* `Gateway.act`, `Gateway.exec` : an action, and any number of them one after the other, with the
  messages and their outcomes;
* `exec_keeps`, `act_answers` : what every action keeps, every run keeps; an action is a message with
  its answer, or happens in the background;
* `KeptInBackground` : what nothing in the background undoes; `of_aggregator` : of the aggregator,
  what time, a start and the records of tasks do not undo.

Events enter through messages only. Time passes in leaps of any length, and what is due is done by
`Background.advance` and `Background.conclude`; a stop is one action that waits for deliveries, or only
its beginning, after which the run goes on.
-/

namespace Ingress

namespace Gateway

/-- What happens to a gateway apart from messages. -/
inductive Background where
  | spawn (t : Task)
  | perform (duty : Duty)
  | start
  | stop
  | halt
  | pass (ms : Nat)
  | advance
  | conclude

/-- What can happen to a gateway. -/
inductive Action where
  | message (client text : String)
  | binary (client : String) (bytes : ByteArray)
  | background (b : Background)

def Action.text? : Action → Option String
  | .message _ text => some text
  | .binary _ bytes => String.fromUTF8? bytes
  | .background _ => none

/-- A message of a client: when it came, and what happened to it. -/
structure Exchange where
  client : String
  time : Int
  outcome : Outcome

def proceed (g : Gateway) : Background → Gateway
  | .spawn t => g.spawn t
  | .perform duty => g.perform duty
  | .start => g.startBatching
  | .stop => g.stopBatching
  | .halt => g.onAggregator .flush
  | .pass ms => g.pass ms
  | .advance => g.advance
  | .conclude => g.onAggregator .conclude

def act (g : Gateway) : Action → List Exchange × Gateway
  | .message client text => ([⟨client, g.clock, (g.message client text).1⟩], (g.message client text).2)
  | .binary client bytes => ([⟨client, g.clock, (g.binary client bytes).1⟩], (g.binary client bytes).2)
  | .background b => ([], g.proceed b)

def exec (g : Gateway) : List Action → List Exchange × Gateway
  | [] => ([], g)
  | x :: rest => ((g.act x).1 ++ ((g.act x).2.exec rest).1, ((g.act x).2.exec rest).2)

theorem exec_cons (g : Gateway) (x : Action) (rest : List Action) :
    g.exec (x :: rest) = ((g.act x).1 ++ ((g.act x).2.exec rest).1, ((g.act x).2.exec rest).2) := rfl

/-- What every action keeps, every run keeps, whatever is known of its messages. -/
theorem exec_keeps {I : Gateway → Prop} {S : Exchange → Prop}
    (hact : ∀ g x, (∀ y ∈ (g.act x).1, S y) → I g → I (g.act x).2) (actions : List Action) :
    ∀ g : Gateway, (∀ y ∈ (g.exec actions).1, S y) → I g → I (g.exec actions).2 := by
  induction actions with
  | nil => exact fun _ _ hg => hg
  | cons x rest ih =>
    intro g hS hg
    obtain ⟨hfirst, hrest⟩ := List.forall_mem_append.1 hS
    exact ih _ hrest (hact g x hfirst hg)

/-- An action is a message with its answer, or happens in the background. -/
theorem act_answers (g : Gateway) (x : Action) :
    (∃ b, x = .background b) ∨ ∃ client outcome, (g.act x).1 = [⟨client, g.clock, outcome⟩] ∧
      Pipeline.Answers g.pipeline client
        (fun e => ∃ text, x.text? = some text ∧ g.pipeline.StandsFor client text e)
        (outcome, (g.act x).2.pipeline) := by
  cases x with
  | background b => exact .inl ⟨b, rfl⟩
  | message client text =>
    exact .inr ⟨client, _, rfl, (Pipeline.message_answers_text g.pipeline client text).mono
      fun e he => ⟨text, rfl, he⟩⟩
  | binary client bytes =>
    refine .inr ⟨client, _, rfl, ?_⟩
    cases htext : String.fromUTF8? bytes with
    | none => exact Pipeline.binary_answers_garbled htext
    | some text =>
      have hanswers := (Pipeline.message_answers_text g.pipeline client text).mono
        (T := fun e => ∃ text, Action.text? (.binary client bytes) = some text ∧
          g.pipeline.StandsFor client text e) fun e he => ⟨text, htext, he⟩
      rwa [← Pipeline.binary_of_text htext] at hanswers

theorem act_cases (g : Gateway) (x : Action) :
    (∃ b, x = .background b) ∨ ∃ client outcome, (g.act x).1 = [⟨client, g.clock, outcome⟩] ∧
      Pipeline.Answers g.pipeline client (Pipeline.FromText g.pipeline client)
        (outcome, (g.act x).2.pipeline) := by
  obtain hbackground | ⟨client, outcome, hexchange, hanswers⟩ := g.act_answers x
  · exact .inl hbackground
  · exact .inr ⟨client, outcome, hexchange, hanswers.mono fun _ ⟨_, _, h⟩ => h.fromText⟩

/-! ## The background -/

/-- What nothing in the background undoes. -/
structure KeptInBackground (I : Gateway → Prop) : Prop where
  perform : ∀ g duty, I g → I (g.perform duty)
  tasks : ∀ g tasks, I g → I { g with tasks := tasks }
  start : ∀ g, I g → I (g.onAggregator .start)
  halt : ∀ g, I g → I (g.onAggregator .flush)
  pass : ∀ g ms, I g → I (g.pass ms)
  advance : ∀ g, I g → I (g.onAggregator .advance)
  conclude : ∀ g, I g → I (g.onAggregator .conclude)

namespace KeptInBackground

variable {I : Gateway → Prop}

theorem keeps_performTimes (h : KeptInBackground I) (duty : Duty) (n : Nat) : ∀ g : Gateway,
    I g → I (performTimes duty n g) := by
  induction n with
  | zero => exact fun _ hg => hg
  | succ n ih => exact fun g hg => ih _ (h.perform g duty hg)

theorem keeps_runTasks (h : KeptInBackground I) (tasks : List Task) : ∀ g : Gateway,
    I g → I (runTasks tasks g) := by
  induction tasks with
  | nil => exact fun _ hg => hg
  | cons t rest ih => exact fun g hg => ih _ (h.keeps_performTimes t.duty _ g hg)

theorem keeps_advance (h : KeptInBackground I) (g : Gateway) (hg : I g) : I g.advance :=
  h.tasks _ _ (h.keeps_runTasks _ _ (h.advance _ (h.keeps_runTasks _ g hg)))

theorem keeps_settle (h : KeptInBackground I) (g : Gateway) (hg : I g) : I g.settle :=
  h.conclude _ (h.keeps_advance g hg)

theorem keeps_awaitDrain (h : KeptInBackground I) (n : Nat) : ∀ g : Gateway,
    I g → I (awaitDrain n g) := by
  induction n with
  | zero => exact fun _ hg => hg
  | succ n ih =>
    intro g hg
    unfold awaitDrain
    split
    · exact ih _ (h.keeps_settle _ (h.pass g 1 hg))
    · exact hg

/-- A stop waits for deliveries, and what is due in the meantime is done. -/
theorem keeps_stopBatching (h : KeptInBackground I) (g : Gateway) (hg : I g) : I g.stopBatching :=
  h.keeps_awaitDrain _ _ (h.keeps_settle _ (h.halt _ (h.keeps_settle g hg)))

theorem keeps_proceed (h : KeptInBackground I) (g : Gateway) (b : Background) (hg : I g) :
    I (g.proceed b) := by
  cases b with
  | spawn t => exact h.tasks g _ hg
  | perform duty => exact h.perform g duty hg
  | start => exact h.start g hg
  | stop => exact h.keeps_stopBatching g hg
  | halt => exact h.halt g hg
  | pass ms => exact h.pass g ms hg
  | advance => exact h.keeps_advance g hg
  | conclude => exact h.conclude g hg

/-- Of the aggregator nothing changes in the background but with time, by a start, and by what the
tasks write. -/
theorem of_aggregator {Q : Aggregator → Prop} (h : Aggregator.KeptByTime Q)
    (hstart : ∀ a, Q a → Q a.start)
    (hgauge : ∀ a name n, name ≠ Metrics.Name.connections → Q a →
      Q (a.write fun l => l.setGauge name n))
    (hlog : ∀ a entry, Q a → Q (a.write fun l => l.log entry)) :
    KeptInBackground fun g => Q g.aggregator where
  perform := fun g duty hg => by
    cases duty with
    | reap =>
      have hgauge' := hgauge _ Metrics.Name.limiterClients
        (g.pipeline.limiter.cleanup g.clock).2.count (by decide) hg
      show Q g.reap.aggregator
      unfold Gateway.reap
      dsimp only
      split
      · exact hgauge'
      · exact hlog _ _ hgauge'
    | report => exact hlog _ _ hg
  tasks := fun _ _ hg => hg
  start := fun _ hg => hstart _ hg
  halt := fun _ hg => h.halt _ hg
  pass := fun _ ms hg => h.pass _ ms hg
  advance := fun _ hg => h.advance _ hg
  conclude := fun _ hg => h.conclude _ hg

end KeptInBackground

theorem limits_keptInBackground (l : Limits) : KeptInBackground fun g => g.pipeline.limits = l where
  perform := fun g duty hg => by cases duty <;> exact hg
  tasks := fun _ _ hg => hg
  start := fun _ hg => hg
  halt := fun _ hg => hg
  pass := fun _ _ hg => hg
  advance := fun _ hg => hg
  conclude := fun _ hg => hg

/-- No action changes the limits. -/
theorem limits_act (g : Gateway) (x : Action) :
    (g.act x).2.pipeline.limits = g.pipeline.limits := by
  obtain ⟨b, rfl⟩ | ⟨client, outcome, -, hanswers⟩ := g.act_answers x
  · exact (limits_keptInBackground g.pipeline.limits).keeps_proceed g b rfl
  · exact hanswers.limits

theorem holds_keptInBackground {E : Event → Prop} {P : Ledger → Prop}
    (h : Aggregator.KeptByWriting E P) :
    KeptInBackground fun g => Aggregator.Holds E P g.aggregator :=
  .of_aggregator (Aggregator.Holds.keptByTime h) (fun _ ha => ha.start)
    (fun _ _ _ hname ha => ⟨ha.queue, ha.openBatch, ha.jobs, h.setGauge _ _ _ hname ha.ledger⟩)
    (fun _ entry ha =>
      ⟨ha.queue, ha.openBatch, ha.jobs, h.note _ (.logged entry) trivial ha.ledger⟩)

theorem contents_keptInBackground (es : List Event) :
    KeptInBackground fun g => g.aggregator.contents = es := by
  refine .of_aggregator (Aggregator.contents_keptByTime es)
    (fun a ha => (Aggregator.contents_start a).trans ha) (fun _ _ _ _ ha => ha) ?_
  intro a entry ha
  have hlog := (Ledger.frame_log a.ledger entry).dispatched
  rw [← ha]
  unfold Aggregator.contents Aggregator.write
  dsimp only
  rw [hlog]
  rfl

end Gateway

end Ingress
