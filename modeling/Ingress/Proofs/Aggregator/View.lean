import Ingress.Proofs.Aggregator.Conservation
import Mathlib

/-!
# What shows of an aggregator

Whether an event is taken depends on little of the aggregator, and this little goes its way without the
rest: how events are spread over windows and batches, and what the handlers do with them, does not come
back to it.

* `View`, `Aggregator.view` : the present time, whether events are taken and the collector runs, the queue,
  and all events that were taken;
* `View.advanced`, `View.halted`, `View.started`, `View.taking` : what becomes of it;
* `view_advance`, `view_flush`, ... : the steps of the aggregator as steps of its view.
-/

namespace Ingress

namespace Aggregator

/-! ## Whether the collector runs -/

theorem phase_of_running {a : Aggregator} (h : a.isRunning = true) :
    a.phase = .starting ∨ ∃ w, a.phase = .gathering w := by
  unfold isRunning at h
  cases hphase : a.phase with
  | starting => exact .inl rfl
  | gathering w => exact .inr ⟨w, rfl⟩
  | idle => rw [hphase] at h; cases h
  | draining d => rw [hphase] at h; cases h

theorem phase_ne_gathering {a : Aggregator} (h : a.isRunning = false) (w : Window) :
    a.phase ≠ .gathering w := by
  intro hphase
  unfold isRunning at h
  rw [hphase] at h
  cases h

/-- No stop waits while the collector runs. -/
theorem drainDeadline?_of_running {a : Aggregator} (h : a.isRunning = true) :
    a.drainDeadline? = none := by
  unfold drainDeadline?
  rcases phase_of_running h with hphase | ⟨w, hphase⟩ <;> rw [hphase]

theorem isRunning_advance (a : Aggregator) : a.advance.isRunning = a.isRunning := by
  unfold advance
  rw [(rest_endExpired _).1, (rest_endDrained _).1]
  cases hrun : a.isRunning with
  | true => exact isRunning_collect hrun
  | false => rw [collect_of_not_running hrun, hrun]

theorem isRunning_conclude (a : Aggregator) : a.conclude.isRunning = a.isRunning :=
  (rest_endDrained a.deliver).1.trans (isRunning_of_frame (frame_deliver a))

theorem isRunning_flush (a : Aggregator) : a.flush.isRunning = false := by
  cases hrun : a.isRunning with
  | true =>
    unfold isRunning
    rw [(flush_of_running hrun).2.2]
  | false => rw [flush_of_not_running hrun, hrun]

theorem settings_flush (a : Aggregator) : a.flush.settings = a.settings := by
  unfold flush
  split
  · exact (frame_dispatch _ _).settings.trans (frame_openWindow a a.queue).settings
  · exact (frame_dispatch a _).settings
  · rfl

/-! ## Gathering leaves nothing behind -/

theorem phase_gather (queue : List Event) : ∀ (a : Aggregator) (w : Window),
    (a.gather w queue).queue = [] ∧ ∃ w', (a.gather w queue).phase = .gathering w' ∧
      (w'.opened = w.opened ∨ w'.opened = a.clock) := by
  induction queue with
  | nil => exact fun a w => ⟨rfl, w, rfl, .inl rfl⟩
  | cons e rest ih =>
    intro a w
    unfold gather
    dsimp only
    split
    · obtain ⟨hqueue, w', hphase, hopened⟩ :=
        ih ((a.dispatch { w with batch := w.batch ++ [e] }).openWindow rest).2
          ((a.dispatch { w with batch := w.batch ++ [e] }).openWindow rest).1
      have hclock : (a.dispatch { w with batch := w.batch ++ [e] }).clock = a.clock :=
        (frame_dispatch a _).clock
      exact ⟨hqueue, w', hphase, .inr (hopened.elim (·.trans hclock) (·.trans hclock))⟩
    · exact ih a _

theorem queue_collect {a : Aggregator} (h : a.isRunning = true) : a.collect.queue = [] := by
  unfold collect
  rcases phase_of_running h with hphase | ⟨w, hphase⟩
  · rw [hphase]
    exact (phase_gather _ _ _).1
  · rw [hphase]
    dsimp only
    split
    · exact (phase_gather _ _ _).1
    · exact (phase_gather _ _ _).1

theorem queue_advance (a : Aggregator) :
    a.advance.queue = if a.isRunning then [] else a.queue := by
  unfold advance
  rw [(rest_endExpired _).2, (rest_endDrained _).2]
  cases hrun : a.isRunning with
  | true => exact queue_collect hrun
  | false => rw [collect_of_not_running hrun]; rfl

end Aggregator

/-! ## Views -/

/-- What shows of an aggregator: its settings, the present time, whether events are taken and the collector
runs, the events that wait, and all events that were taken. -/
structure View where
  settings : Aggregator.Config
  clock : Int
  accepting : Bool
  running : Bool
  queue : List Event
  contents : List Event

namespace View

/-- A collector that runs leaves nothing waiting. -/
def advanced (v : View) : View := { v with queue := if v.running then [] else v.queue }

/-- A stop begins; nothing when the collector does not run. -/
def halted (v : View) : View :=
  if v.running then { v with accepting := false, running := false, queue := [] } else v

def started (v : View) : View := { v with accepting := true, running := true }

def passed (v : View) (ms : Nat) : View := { v with clock := v.clock + ms }

def taking (v : View) (e : Event) : View :=
  { v with queue := v.queue ++ [e], contents := v.contents ++ [e] }

/-- The view without the events that fail a test. -/
def sieve (v : View) (keep : Event → Bool) : View :=
  { v with queue := v.queue.filter keep, contents := v.contents.filter keep }

variable (v : View) (keep : Event → Bool)

theorem sieve_advanced : v.advanced.sieve keep = (v.sieve keep).advanced := by
  obtain ⟨settings, clock, accepting, running, queue, contents⟩ := v
  cases running <;> rfl

theorem sieve_halted : v.halted.sieve keep = (v.sieve keep).halted := by
  obtain ⟨settings, clock, accepting, running, queue, contents⟩ := v
  cases running <;> rfl

theorem sieve_taking_of_keep {e : Event} (h : keep e = true) :
    (v.taking e).sieve keep = (v.sieve keep).taking e := by
  unfold taking sieve
  simp [h]

theorem sieve_taking_of_not_keep {e : Event} (h : keep e = false) :
    (v.taking e).sieve keep = v.sieve keep := by
  unfold taking sieve
  simp [h]

end View

namespace Aggregator

variable {a b : Aggregator}

/-- What shows of an aggregator. -/
def view (a : Aggregator) : View where
  settings := a.settings
  clock := a.clock
  accepting := a.accepting
  running := a.isRunning
  queue := a.queue
  contents := a.contents

theorem view_of_stays (h : Stays a b) (hrun : b.isRunning = a.isRunning)
    (hcontents : b.contents = a.contents) : b.view = { a.view with queue := b.queue } := by
  unfold view
  rw [h.settings, h.clock, h.accepting, hrun, hcontents]

theorem view_advance (a : Aggregator) : a.advance.view = a.view.advanced := by
  rw [view_of_stays (stays_advance a) (isRunning_advance a) (contents_advance a), queue_advance]
  rfl

theorem view_conclude (a : Aggregator) : a.conclude.view = a.view := by
  have hqueue : a.conclude.queue = a.queue :=
    (rest_endDrained a.deliver).2.trans (frame_deliver a).queue
  rw [view_of_stays (stays_conclude a) (isRunning_conclude a) (contents_conclude a), hqueue]
  rfl

theorem view_flush (a : Aggregator) : a.flush.view = a.view.halted := by
  unfold View.halted
  cases hrun : a.isRunning with
  | true =>
    obtain ⟨haccepting, hqueue, _⟩ := flush_of_running hrun
    rw [show a.view.running = true from hrun, if_pos rfl]
    unfold view
    rw [settings_flush, clock_flush, haccepting, isRunning_flush, hqueue, contents_flush]
  | false =>
    rw [flush_of_not_running hrun, show a.view.running = false from hrun]
    rfl

/-- A start changes nothing while the collector runs or a stop waits. -/
theorem view_start (a : Aggregator) :
    a.start.view = if a.isRunning ∨ a.drainDeadline?.isSome then a.view else a.view.started := by
  have hcontents := contents_start a
  unfold start at hcontents ⊢
  cases hphase : a.phase with
  | idle =>
    rw [hphase] at hcontents
    unfold view View.started isRunning drainDeadline?
    rw [hphase]
    dsimp only at hcontents ⊢
    rw [hcontents]
    rfl
  | starting | gathering w | draining d =>
    simp [isRunning, drainDeadline?, hphase]

theorem view_enqueue (a : Aggregator) (e : Event) :
    ({ a with queue := a.queue ++ [e] } : Aggregator).view = a.view.taking e := by
  have hcontents : ({ a with queue := a.queue ++ [e] } : Aggregator).contents = a.contents ++ [e] :=
    (List.append_assoc _ a.queue [e]).symm
  unfold View.taking view
  rw [hcontents]
  rfl

theorem view_pass (a : Aggregator) (ms : Nat) : (a.pass ms).view = a.view.passed ms := rfl

/-- What is written about anything but batches does not show. -/
theorem view_write {f : Ledger → Ledger} (hclock : (f a.ledger).clock = a.ledger.clock)
    (hdispatched : (f a.ledger).dispatched = a.ledger.dispatched) : (a.write f).view = a.view := by
  have hframe : Frame a (a.write f) := ⟨⟨rfl, rfl, rfl, rfl, hclock⟩, rfl, rfl⟩
  rw [view_of_stays hframe.toStays (isRunning_of_frame hframe) (contents_of_frame hframe hdispatched)]
  rfl

end Aggregator

end Ingress
