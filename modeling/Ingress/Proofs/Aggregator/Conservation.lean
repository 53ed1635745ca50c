import Ingress.Proofs.Aggregator.Frame
import Ingress.Proofs.Aggregator.Run
import Mathlib

/-!
# No accepted event is lost, duplicated or reordered

An accepted event is in one of three places: in a batch that left its window, in the open window, or
in the queue. Read in this order the three places hold exactly the accepted events, in the order of
their acceptance, at every point of every run: an offer that is taken adds its event at the end, and
every other step only moves events from one place to the place in front of it.

A stop closes intake and moves everything into the first place; from then on nothing enters the
other two until the aggregator is started again (`Sealed`). A stop of a running aggregator always
returns: what is due at its deadline ends the wait (`phase_stop`).
-/

namespace Ingress.Aggregator

/-! ## The three places -/

/-- The events that the aggregator accounts for: those that left, those of the open window, and
those that wait. -/
def contents (a : Aggregator) : List Event :=
  a.ledger.dispatched.flatten ++ a.openBatch ++ a.queue

theorem contents_of_frame {a b : Aggregator} (h : Frame a b)
    (hd : b.ledger.dispatched = a.ledger.dispatched) : b.contents = a.contents := by
  unfold contents
  rw [hd, h.openBatch, h.queue]

/-- Whatever window was open, gathering accounts for its events and for those that waited. -/
theorem contents_gather (queue : List Event) : ∀ (a : Aggregator) (w : Window),
    (a.gather w queue).contents = a.ledger.dispatched.flatten ++ w.batch ++ queue := by
  induction queue with
  | nil => exact fun a w => rfl
  | cons e rest ih =>
    intro a w
    unfold gather
    dsimp only
    split
    · -- the window is full: its events leave, and a window without events opens
      rw [ih, dispatched_openWindow, dispatched_dispatch]
      simp [openWindow]
    · rw [ih]
      simp

theorem contents_gatherAnew (a : Aggregator) :
    a.gatherAnew.contents = a.ledger.dispatched.flatten ++ a.queue := by
  unfold gatherAnew
  dsimp only
  rw [contents_gather, dispatched_openWindow]
  simp [openWindow, write]

theorem contents_collect (a : Aggregator) : a.collect.contents = a.contents := by
  unfold collect
  split
  · next hphase =>
    rw [contents_gatherAnew]
    simp [contents, openBatch, hphase]
  · next w hphase =>
    split
    · rw [contents_gatherAnew, dispatched_dispatch, (frame_dispatch a w).queue]
      simp [contents, openBatch, hphase]
    · rw [contents_gather]
      simp [contents, openBatch, hphase]
  · rfl

theorem contents_endDrained (a : Aggregator) : a.endDrained.contents = a.contents := by
  obtain heq | ⟨⟨d, hphase⟩, -, heq⟩ := endDrained_cases a <;> rw [heq]
  simp [contents, openBatch, hphase]

theorem contents_endExpired (a : Aggregator) : a.endExpired.contents = a.contents := by
  obtain heq | ⟨d, hphase, -, heq⟩ := endExpired_cases a <;> rw [heq]
  have hlog := (Ledger.frame_log a.ledger
    (.deliveriesDetached a.outstanding a.settings.drainTimeout)).dispatched
  simp [contents, openBatch, hphase, hlog]

theorem contents_advance (a : Aggregator) : a.advance.contents = a.contents := by
  unfold advance
  rw [contents_endExpired, contents_endDrained, contents_collect]

theorem contents_conclude (a : Aggregator) : a.conclude.contents = a.contents := by
  unfold conclude
  rw [contents_endDrained, contents_of_frame (frame_deliver a) (dispatched_deliver a)]

theorem contents_flushWindow (a : Aggregator) (w : Window) :
    (a.flushWindow w).contents = a.ledger.dispatched.flatten ++ w.batch ++ a.queue := by
  have h := dispatched_dispatch a { w with batch := w.batch ++ a.queue }
  unfold flushWindow
  simp only [contents, openBatch, h, List.append_nil, List.append_assoc]

theorem contents_flush (a : Aggregator) : a.flush.contents = a.contents := by
  unfold flush
  split
  · next hphase =>
    dsimp only
    rw [contents_flushWindow, dispatched_openWindow, (frame_openWindow a a.queue).queue]
    simp [contents, openBatch, openWindow, hphase]
  · next w hphase =>
    rw [contents_flushWindow]
    simp [contents, openBatch, hphase]
  · rfl

theorem contents_keptByTime (es : List Event) : KeptByTime fun a => a.contents = es where
  pass := fun _ _ h => h
  advance := fun a h => (contents_advance a).trans h
  conclude := fun a h => (contents_conclude a).trans h
  halt := fun a h => (contents_flush a).trans h

theorem contents_start (a : Aggregator) : a.start.contents = a.contents := by
  unfold start
  split
  · next hphase => simp [contents, openBatch, hphase]
  · rfl

theorem contents_add (a : Aggregator) (e : Event) :
    (a.add e).2.contents = a.contents ++ accepted (a.act (.add e)).1 := by
  unfold act add
  split
  · exact (List.append_assoc _ a.queue [e]).symm
  · exact (List.append_nil a.contents).symm

/-- An action adds what it accepts behind everything the aggregator accounts for. -/
theorem contents_act (a : Aggregator) (x : Action) :
    (a.act x).2.contents = a.contents ++ accepted (a.act x).1 := by
  cases x with
  | add e => exact contents_add a e
  | start => rw [act, accepted_nil, List.append_nil, contents_start]
  | stop =>
    rw [act, accepted_nil, List.append_nil]
    exact (contents_keptByTime a.contents).stop a rfl
  | halt => rw [act, accepted_nil, List.append_nil, contents_flush]
  | pass ms => exact (List.append_nil a.contents).symm
  | advance => rw [act, accepted_nil, List.append_nil, contents_advance]
  | conclude => rw [act, accepted_nil, List.append_nil, contents_conclude]

/-- **A run adds what it accepts behind everything the aggregator accounts for.** -/
theorem contents_exec (a : Aggregator) (xs : List Action) :
    (a.exec xs).2.contents = a.contents ++ accepted (a.exec xs).1 := by
  induction xs generalizing a with
  | nil => exact (List.append_nil a.contents).symm
  | cons x rest ih =>
    rw [exec_cons, ih, contents_act, accepted_append, List.append_assoc]

/-! ## Intake that is closed -/

/-- While intake is closed, the collector does not run and nothing waits. -/
def Sealed (a : Aggregator) : Prop := a.accepting = false → a.isRunning = false ∧ a.queue = []

theorem openBatch_of_not_running {a : Aggregator} (h : a.isRunning = false) : a.openBatch = [] := by
  unfold openBatch
  split
  · next hphase => simp [isRunning, hphase] at h
  · rfl

theorem collect_of_not_running {a : Aggregator} (h : a.isRunning = false) : a.collect = a := by
  unfold collect
  split
  · next hphase => simp [isRunning, hphase] at h
  · next hphase => simp [isRunning, hphase] at h
  · rfl

theorem flush_of_not_running {a : Aggregator} (h : a.isRunning = false) : a.flush = a := by
  unfold flush
  split
  · next hphase => simp [isRunning, hphase] at h
  · next hphase => simp [isRunning, hphase] at h
  · rfl

/-- Everything that was taken has left, when the collector does not run and nothing waits. -/
theorem contents_of_resting {a : Aggregator} (hrun : a.isRunning = false) (hqueue : a.queue = []) :
    a.contents = a.ledger.dispatched.flatten := by
  unfold contents
  rw [openBatch_of_not_running hrun, hqueue, List.append_nil, List.append_nil]

/-- Everything that is accepted has left, once intake is closed. -/
theorem Sealed.contents {a : Aggregator} (h : Sealed a) (hclosed : a.accepting = false) :
    a.contents = a.ledger.dispatched.flatten := by
  obtain ⟨hrun, hqueue⟩ := h hclosed
  exact contents_of_resting hrun hqueue

theorem rest_endDrained (a : Aggregator) :
    a.endDrained.isRunning = a.isRunning ∧ a.endDrained.queue = a.queue := by
  obtain heq | ⟨⟨d, hphase⟩, -, heq⟩ := endDrained_cases a <;> rw [heq]
  · exact ⟨rfl, rfl⟩
  · simp [isRunning, hphase]

theorem rest_endExpired (a : Aggregator) :
    a.endExpired.isRunning = a.isRunning ∧ a.endExpired.queue = a.queue := by
  obtain heq | ⟨d, hphase, -, heq⟩ := endExpired_cases a <;> rw [heq]
  · exact ⟨rfl, rfl⟩
  · simp [isRunning, hphase]

theorem Sealed.advance {a : Aggregator} (h : Sealed a) : Sealed a.advance := by
  intro hclosed
  rw [(stays_advance a).accepting] at hclosed
  obtain ⟨hrun, hqueue⟩ := h hclosed
  unfold Aggregator.advance
  rw [collect_of_not_running hrun, (rest_endExpired _).1, (rest_endExpired _).2,
    (rest_endDrained a).1, (rest_endDrained a).2]
  exact ⟨hrun, hqueue⟩

theorem isRunning_of_frame {a b : Aggregator} (h : Frame a b) : b.isRunning = a.isRunning := by
  unfold isRunning
  rw [h.phase]

theorem Sealed.conclude {a : Aggregator} (h : Sealed a) : Sealed a.conclude := by
  intro hclosed
  rw [(stays_conclude a).accepting] at hclosed
  unfold Aggregator.conclude
  rw [(rest_endDrained _).1, (rest_endDrained _).2, isRunning_of_frame (frame_deliver a),
    (frame_deliver a).queue]
  exact h hclosed

/-- The beginning of a stop of a running aggregator closes intake and takes all that waits. -/
theorem flush_of_running {a : Aggregator} (h : a.isRunning = true) :
    a.flush.accepting = false ∧ a.flush.queue = [] ∧
      a.flush.phase = .draining (a.clock + a.settings.drainTimeout) := by
  unfold flush
  split
  · have hopen := frame_openWindow a a.queue
    have hsent := frame_dispatch (a.openWindow a.queue).2 { (a.openWindow a.queue).1 with
      batch := (a.openWindow a.queue).1.batch ++ (a.openWindow a.queue).2.queue }
    refine ⟨rfl, rfl, ?_⟩
    dsimp only [flushWindow]
    rw [hsent.clock, hsent.settings, hopen.clock, hopen.settings]
  · next w _ =>
    have hsent := frame_dispatch a { w with batch := w.batch ++ a.queue }
    refine ⟨rfl, rfl, ?_⟩
    dsimp only [flushWindow]
    rw [hsent.clock, hsent.settings]
  · next hstarting hgathering =>
    unfold isRunning at h
    split at h
    · next hphase => exact absurd hphase hstarting
    · next w hphase => exact absurd hphase (hgathering w)
    · cases h

theorem clock_flush (a : Aggregator) : a.flush.clock = a.clock := by
  unfold flush
  split
  · exact (frame_dispatch _ _).clock.trans (frame_openWindow a a.queue).clock
  · exact (frame_dispatch a _).clock
  · rfl

theorem Sealed.flush {a : Aggregator} (h : Sealed a) : Sealed a.flush := by
  intro hclosed
  cases hrun : a.isRunning with
  | true =>
    obtain ⟨_, hqueue, hphase⟩ := flush_of_running hrun
    refine ⟨?_, hqueue⟩
    unfold isRunning
    rw [hphase]
  | false =>
    rw [flush_of_not_running hrun] at hclosed ⊢
    exact h hclosed

theorem sealed_keptByTime : KeptByTime Sealed where
  pass := fun _ _ h => h
  advance := fun _ h => h.advance
  conclude := fun _ h => h.conclude
  halt := fun _ h => h.flush

theorem closed_keptByTime : KeptByTime fun a => a.accepting = false where
  pass := fun _ _ h => h
  advance := fun a h => (stays_advance a).accepting.trans h
  conclude := fun a h => (stays_conclude a).accepting.trans h
  halt := fun a h => by
    cases hrun : a.isRunning with
    | true => exact (flush_of_running hrun).1
    | false => rw [flush_of_not_running hrun]; exact h

theorem sealed_act (a : Aggregator) (x : Action) (h : Sealed a) : Sealed (a.act x).2 := by
  refine sealed_keptByTime.act (fun a e h => ?_) (fun a h => ?_) a x h
  · unfold add
    split
    · next htaken =>
      intro hclosed
      rw [show a.accepting = false from hclosed] at htaken
      cases htaken
    · exact h
  · unfold start
    split
    · exact fun hclosed => absurd hclosed (by simp)
    · exact h

/-! ## The end of a stop -/

/-- A stop is over, or waits for a deadline that is still to come. -/
def Winding (a : Aggregator) (deadline : Int) : Prop :=
  a.phase = .idle ∨ a.phase = .draining deadline ∧ a.clock < deadline

theorem endDrained_of_resting {a : Aggregator} {d : Int}
    (h : a.phase = .idle ∨ a.phase = .draining d) :
    a.endDrained.phase = .idle ∨ a.endDrained.phase = .draining d := by
  obtain heq | ⟨-, -, heq⟩ := endDrained_cases a <;> rw [heq]
  · exact h
  · exact .inl rfl

theorem endExpired_of_resting {a : Aggregator} {d : Int}
    (h : a.phase = .idle ∨ a.phase = .draining d) : Winding a.endExpired d := by
  unfold endExpired
  rcases h with hphase | hphase
  · rw [hphase]
    exact Or.inl hphase
  · rw [hphase]
    dsimp only
    split
    · exact Or.inl rfl
    · next hlate => exact Or.inr ⟨hphase, by omega⟩

theorem Winding.conclude {a : Aggregator} {d : Int} (h : Winding a d) : Winding a.conclude d := by
  have hframe := frame_deliver a
  unfold Aggregator.conclude endDrained
  rcases h with hidle | ⟨hdraining, hbefore⟩
  · rw [hframe.phase, hidle]
    exact Or.inl (hframe.phase.trans hidle)
  · rw [hframe.phase, hdraining]
    dsimp only
    split
    · exact Or.inl rfl
    · exact Or.inr ⟨hframe.phase.trans hdraining, by rw [hframe.clock]; exact hbefore⟩

/-- What is due is done while a stop waits: at its deadline the wait ends. -/
theorem winding_settle {a : Aggregator} {d : Int} (h : a.phase = .idle ∨ a.phase = .draining d) :
    Winding a.settle d := by
  have hrun : a.isRunning = false := by
    unfold isRunning
    rcases h with hphase | hphase <;> rw [hphase]
  have hadvance : Winding a.advance d := by
    unfold advance
    rw [collect_of_not_running hrun]
    exact endExpired_of_resting (endDrained_of_resting h)
  exact hadvance.conclude

/-- A wait that ends within `n` milliseconds is over after as many. -/
theorem phase_awaitDrain {d : Int} (n : Nat) : ∀ a : Aggregator,
    Winding a d → d ≤ a.clock + n → (awaitDrain n a).phase = .idle := by
  induction n with
  | zero =>
    intro a h hd
    rcases h with hidle | ⟨_, hbefore⟩
    · exact hidle
    · omega
  | succ n ih =>
    intro a h hd
    unfold awaitDrain drainDeadline?
    rcases h with hidle | ⟨hdraining, _⟩
    · rw [hidle]
      exact hidle
    · rw [hdraining]
      have hclock : a.tick.clock = a.clock + 1 := (stays_settle (a.pass 1)).clock
      refine ih a.tick (winding_settle (a := a.pass 1) (Or.inr hdraining)) ?_
      rw [hclock]
      omega

theorem isRunning_gather (queue : List Event) :
    ∀ (a : Aggregator) (w : Window), (a.gather w queue).isRunning = true := by
  induction queue with
  | nil => exact fun _ _ => rfl
  | cons e rest ih =>
    intro a w
    unfold gather
    dsimp only
    split
    · exact ih _ _
    · exact ih a _

theorem isRunning_collect {a : Aggregator} (h : a.isRunning = true) :
    a.collect.isRunning = true := by
  unfold collect
  split
  · exact isRunning_gather _ _ _
  · split
    · exact isRunning_gather _ _ _
    · exact isRunning_gather _ _ _
  · exact h

theorem isRunning_settle {a : Aggregator} (h : a.isRunning = true) :
    a.settle.isRunning = true := by
  unfold settle conclude advance
  rw [(rest_endDrained _).1, isRunning_of_frame (frame_deliver _), (rest_endExpired _).1,
    (rest_endDrained _).1]
  exact isRunning_collect h

/-- A stop of a running aggregator returns, and leaves intake closed. -/
theorem phase_stop {a : Aggregator} (h : a.isRunning = true) :
    a.stop.phase = .idle ∧ a.stop.accepting = false := by
  obtain ⟨hclosed, _, hphase⟩ := flush_of_running (isRunning_settle h)
  rw [(stays_settle a).settings] at hphase
  refine ⟨?_, closed_keptByTime.awaitDrain _ _ (closed_keptByTime.settle _ hclosed)⟩
  refine phase_awaitDrain _ _ (winding_settle (Or.inr hphase)) ?_
  rw [(stays_settle a.settle.flush).clock, clock_flush]

/-! ## Every run -/

/-- Every accepted event is where it should be: `in_order` among the dispatched batches, the open
window and the queue; `closed`, among the dispatched batches while intake is closed, which it is from
a stop of a running aggregator on until the next start; `stopped`, a stop of a running aggregator
returns with intake closed. -/
structure Conserves (offers : List Offer) (a : Aggregator) : Prop where
  in_order : accepted offers = a.ledger.dispatched.flatten ++ a.openBatch ++ a.queue
  closed : a.accepting = false → accepted offers = a.ledger.dispatched.flatten
  stopped : a.isRunning = true → a.stop.phase = .idle ∧ a.stop.accepting = false ∧
    accepted offers = a.stop.ledger.dispatched.flatten

/-- An aggregator that has not been started, with a ledger of its own. -/
def fresh (settings : Aggregator.Config) (handlers : Handlers) (metrics : Metrics.Config)
    (clock : Int) : Aggregator := ofConfig settings handlers (.ofConfig metrics clock)

/-- **No accepted event is lost, duplicated or reordered**, at any point of any run. -/
theorem exec_conserves (settings : Aggregator.Config) (handlers : Handlers)
    (metrics : Metrics.Config) (clock : Int) (actions : List Action) :
    Conserves ((fresh settings handlers metrics clock).exec actions).1
      ((fresh settings handlers metrics clock).exec actions).2 := by
  generalize hr : (fresh settings handlers metrics clock).exec actions = r
  have haccepted : accepted r.1 = r.2.contents := by
    rw [← hr, contents_exec]
    exact (List.nil_append _).symm
  have hsealed : Sealed r.2 := by
    rw [← hr]
    exact exec_keeps sealed_act _ actions fun hclosed => absurd hclosed (by simp [fresh, ofConfig])
  refine ⟨haccepted, fun hclosed => haccepted.trans (hsealed.contents hclosed), fun hrun => ?_⟩
  obtain ⟨hidle, hclosed⟩ := phase_stop hrun
  have hkept : r.2.stop.contents = r.2.contents :=
    (contents_keptByTime r.2.contents).stop r.2 rfl
  have hleft := (sealed_keptByTime.stop r.2 hsealed).contents hclosed
  exact ⟨hidle, hclosed, haccepted.trans (hkept.symm.trans hleft)⟩

def offer (game : String) : Action := .add { Event.blank with gameId := game }

/-- An event before the start, a window that fills up, one whose time is up, and events that wait
when the aggregator is stopped. -/
def sampleRun : List Offer × Aggregator :=
  (fresh { Config.standard with maxBatchSize := 2 } ⟨none, []⟩ .standard 0).exec
    [offer "a", .start, offer "b", .advance, offer "c", .advance, .pass 100, offer "d", .advance,
      offer "e"]

theorem sampleRun_conserves :
    sampleRun.2.isRunning = true ∧
      sampleRun.2.stop.ledger.dispatched.map (List.map Event.gameId)
        = [["a", "b"], ["c"], ["d", "e"]] ∧
      accepted sampleRun.1 = sampleRun.2.stop.ledger.dispatched.flatten :=
  ⟨by decide +kernel, by decide +kernel,
    ((exec_conserves _ _ _ _ _).stopped (by decide +kernel)).2.2⟩

end Ingress.Aggregator
