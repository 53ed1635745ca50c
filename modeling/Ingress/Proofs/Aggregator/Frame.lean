import Ingress.Proofs.Aggregator.Traffic
import Mathlib

/-!
# What the steps of the aggregator leave alone

* `Job.settleAll_frame` : deliveries neither move the clock nor dispatch a batch;
* `Aggregator.Stays a b` : from `a` to `b` no time passes, and intake is neither opened nor closed;
* `Aggregator.Frame a b` : moreover queue and phase are the same;
* `frame_dispatch`, `frame_openWindow`, `frame_deliver` : the steps that keep the frame;
* `stays_gather`, `stays_advance`, `stays_settle`, ... : the steps that move events or end a stop;
* `dispatched_dispatch` : what a dispatch adds to the batches that left.
-/

namespace Ingress.Aggregator

/-! ## Deliveries -/

namespace Job

theorem batchesOf_firstMoves (handlers : Handlers) (j : Job) :
    ∀ what ∈ j.firstMoves handlers, Ledger.batchesOf what = [] := by
  unfold firstMoves
  split
  · cases handlers.batchHandler <;> simp [Ledger.batchesOf]
  · simp

theorem batchesOf_spreadMoves (n : Nat) (j : Job) :
    ∀ what ∈ j.spreadMoves n, Ledger.batchesOf what = [] := by
  unfold spreadMoves
  split
  · intro what hwhat
    obtain ⟨i, _, rfl⟩ := List.mem_map.1 hwhat
    rfl
  · simp

/-- Deliveries neither move the clock nor dispatch a batch. -/
theorem settleAll_frame (handlers : Handlers) (jobs : List Job) (l : Ledger) :
    Ledger.Frame l (settleAll handlers jobs l).2 := by
  refine (settleAll_moves handlers jobs l).frame (List.forall_mem_append.2 ⟨?_, ?_⟩)
  · intro what hwhat
    obtain ⟨j, _, hj⟩ := List.mem_flatMap.1 hwhat
    exact j.batchesOf_firstMoves handlers what hj
  · intro what hwhat
    obtain ⟨j, _, hj⟩ := List.mem_flatMap.1 hwhat
    exact j.batchesOf_spreadMoves _ what hj

end Job

/-! ## The collector -/

/-- From `a` to `b` no time has passed, no run has begun, and intake is as open as it was. -/
structure Stays (a b : Aggregator) : Prop where
  settings : b.settings = a.settings
  handlers : b.handlers = a.handlers
  accepting : b.accepting = a.accepting
  run : b.run = a.run
  clock : b.clock = a.clock

/-- From `a` to `b` nothing has changed but jobs, statistics and what is written. -/
structure Frame (a b : Aggregator) : Prop extends Stays a b where
  queue : b.queue = a.queue
  phase : b.phase = a.phase

theorem Stays.refl (a : Aggregator) : Stays a a := ⟨rfl, rfl, rfl, rfl, rfl⟩

theorem Stays.trans {a b c : Aggregator} (h : Stays a b) (h' : Stays b c) : Stays a c :=
  ⟨h'.settings.trans h.settings, h'.handlers.trans h.handlers, h'.accepting.trans h.accepting,
    h'.run.trans h.run, h'.clock.trans h.clock⟩

theorem Frame.refl (a : Aggregator) : Frame a a := ⟨Stays.refl a, rfl, rfl⟩

theorem Frame.openBatch {a b : Aggregator} (h : Frame a b) : b.openBatch = a.openBatch := by
  unfold Aggregator.openBatch
  rw [h.phase]

theorem frame_openWindow (a : Aggregator) (queue : List Event) : Frame a (a.openWindow queue).2 :=
  ⟨⟨rfl, rfl, rfl, rfl, rfl⟩, rfl, rfl⟩

theorem dispatched_openWindow (a : Aggregator) (queue : List Event) :
    (a.openWindow queue).2.ledger.dispatched = a.ledger.dispatched := rfl

theorem frame_dispatch (a : Aggregator) (w : Window) : Frame a (a.dispatch w) := by
  unfold dispatch
  split
  · exact Frame.refl a
  · exact ⟨⟨rfl, rfl, rfl, rfl, (recordDispatch_moves a w.batch _ a.ledger).clock⟩, rfl, rfl⟩

/-- A dispatch adds the events of the window to those that have left. -/
theorem dispatched_dispatch (a : Aggregator) (w : Window) :
    (a.dispatch w).ledger.dispatched.flatten = a.ledger.dispatched.flatten ++ w.batch := by
  unfold dispatch
  split
  · next hempty => rw [List.isEmpty_iff.mp hempty, List.append_nil]
  · dsimp only
    rw [Ledger.dispatched_append (recordDispatch_moves a w.batch _ a.ledger).traffic,
      List.flatten_append]
    exact congrArg (_ ++ ·) (List.append_nil w.batch)

theorem frame_deliver (a : Aggregator) : Frame a a.deliver :=
  ⟨⟨rfl, rfl, rfl, rfl, (Job.settleAll_frame a.handlers a.jobs a.ledger).clock⟩, rfl, rfl⟩

theorem dispatched_deliver (a : Aggregator) :
    a.deliver.ledger.dispatched = a.ledger.dispatched :=
  (Job.settleAll_frame a.handlers a.jobs a.ledger).dispatched

/-! ## Steps that move events or end a stop -/

theorem stays_gather (queue : List Event) :
    ∀ (a : Aggregator) (w : Window), Stays a (a.gather w queue) := by
  induction queue with
  | nil => exact fun a w => ⟨rfl, rfl, rfl, rfl, rfl⟩
  | cons e rest ih =>
    intro a w
    unfold gather
    dsimp only
    split
    · have hsent := (frame_dispatch a { w with batch := w.batch ++ [e] }).toStays
      exact (hsent.trans (frame_openWindow _ rest).toStays).trans (ih _ _)
    · exact ih a _

theorem stays_gatherAnew (a : Aggregator) : Stays a a.gatherAnew :=
  (frame_openWindow a a.queue).toStays.trans (stays_gather a.queue _ _)

theorem stays_collect (a : Aggregator) : Stays a a.collect := by
  unfold collect
  split
  · exact stays_gatherAnew a
  · next w _ =>
    split
    · exact (frame_dispatch a w).toStays.trans (stays_gatherAnew _)
    · exact stays_gather a.queue a w
  · exact Stays.refl a

theorem stays_endDrained (a : Aggregator) : Stays a a.endDrained := by
  obtain heq | ⟨-, -, heq⟩ := endDrained_cases a <;> rw [heq] <;> exact ⟨rfl, rfl, rfl, rfl, rfl⟩

theorem stays_endExpired (a : Aggregator) : Stays a a.endExpired := by
  obtain heq | ⟨_, -, -, heq⟩ := endExpired_cases a <;> rw [heq] <;> exact ⟨rfl, rfl, rfl, rfl, rfl⟩

theorem stays_advance (a : Aggregator) : Stays a a.advance :=
  ((stays_collect a).trans (stays_endDrained _)).trans (stays_endExpired _)

theorem stays_conclude (a : Aggregator) : Stays a a.conclude :=
  (frame_deliver a).toStays.trans (stays_endDrained _)

theorem stays_settle (a : Aggregator) : Stays a a.settle :=
  (stays_advance a).trans (stays_conclude _)

end Ingress.Aggregator
