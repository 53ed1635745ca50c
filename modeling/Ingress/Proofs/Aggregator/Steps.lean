import Ingress.Aggregator.Basic
import Mathlib

/-!
# The steps of the collector

Everything that the collector, a start and the beginning of a stop do is made of four things: a window
opens, the events of a window leave, events are moved about and the collector goes on, and a log record is
written.

* `endDrained_cases`, `endExpired_cases` : a stop waits on, or it is over;
* `SteppedBy R` : each of the four, and none and several of them, lead from an aggregator to one that is
  related to it by `R`;
* `SteppedBy.advance`, `SteppedBy.flush`, `SteppedBy.start` : so do the steps that are made of them.
-/

namespace Ingress.Aggregator

/-- A stop waits on, or it is over because no delivery is outstanding. -/
theorem endDrained_cases (a : Aggregator) : a.endDrained = a ∨
    (∃ d, a.phase = .draining d) ∧ a.outstanding = 0 ∧ a.endDrained = { a with phase := .idle } := by
  unfold endDrained
  split
  · next d hphase =>
    split
    · next hnone => exact .inr ⟨⟨d, hphase⟩, hnone, rfl⟩
    · exact .inl rfl
  · exact .inl rfl

/-- A stop waits on, or it is over because its time is up. -/
theorem endExpired_cases (a : Aggregator) : a.endExpired = a ∨
    ∃ d, a.phase = .draining d ∧ d ≤ a.clock ∧ a.endExpired = { a with
      phase := .idle
      ledger := a.ledger.log (.deliveriesDetached a.outstanding a.settings.drainTimeout) } := by
  unfold endExpired
  split
  · next d hphase =>
    split
    · next hlate => exact .inr ⟨d, hphase, hlate, rfl⟩
    · exact .inl rfl
  · exact .inl rfl

/-- What leads from an aggregator to one that is related to it. -/
structure SteppedBy (R : Aggregator → Aggregator → Prop) : Prop where
  refl : ∀ a, R a a
  trans : ∀ a b c, R a b → R b c → R a c
  openWindow : ∀ a queue, R a (a.openWindow queue).2
  dispatch : ∀ a w, R a (a.dispatch w)
  turn : ∀ a accepting queue phase run,
    R a { a with accepting := accepting, queue := queue, phase := phase, run := run }
  log : ∀ a entry, R a (a.write fun l => l.log entry)

namespace SteppedBy

variable {R : Aggregator → Aggregator → Prop}

theorem gather (h : SteppedBy R) (queue : List Event) :
    ∀ (a : Aggregator) (w : Window), R a (a.gather w queue) := by
  induction queue with
  | nil => exact fun a w => h.turn a a.accepting [] (.gathering w) a.run
  | cons e rest ih =>
    intro a w
    unfold Aggregator.gather
    dsimp only
    split
    · exact h.trans _ _ _ (h.trans _ _ _ (h.dispatch a _) (h.openWindow _ rest)) (ih _ _)
    · exact ih a _

theorem gatherAnew (h : SteppedBy R) (a : Aggregator) : R a a.gatherAnew :=
  h.trans _ _ _ (h.openWindow a a.queue) (h.gather a.queue _ _)

theorem collect (h : SteppedBy R) (a : Aggregator) : R a a.collect := by
  unfold Aggregator.collect
  split
  · exact h.gatherAnew a
  · next w _ =>
    split
    · exact h.trans _ _ _ (h.dispatch a w) (h.gatherAnew _)
    · exact h.gather a.queue a w
  · exact h.refl a

theorem endDrained (h : SteppedBy R) (a : Aggregator) : R a a.endDrained := by
  obtain heq | ⟨-, -, heq⟩ := endDrained_cases a <;> rw [heq]
  · exact h.refl a
  · exact h.turn a a.accepting a.queue .idle a.run

theorem endExpired (h : SteppedBy R) (a : Aggregator) : R a a.endExpired := by
  obtain heq | ⟨_, -, -, heq⟩ := endExpired_cases a <;> rw [heq]
  · exact h.refl a
  · exact h.trans _ _ _ (h.turn a a.accepting a.queue .idle a.run) (h.log _ _)

theorem advance (h : SteppedBy R) (a : Aggregator) : R a a.advance :=
  h.trans _ _ _ (h.trans _ _ _ (h.collect a) (h.endDrained _)) (h.endExpired _)

theorem flushWindow (h : SteppedBy R) (a : Aggregator) (w : Window) : R a (a.flushWindow w) :=
  h.trans _ _ _ (h.dispatch a _) (h.turn _ false [] _ _)

theorem flush (h : SteppedBy R) (a : Aggregator) : R a a.flush := by
  unfold Aggregator.flush
  split
  · exact h.trans _ _ _ (h.openWindow a a.queue) (h.flushWindow _ _)
  · exact h.flushWindow a _
  · exact h.refl a

theorem start (h : SteppedBy R) (a : Aggregator) : R a a.start := by
  unfold Aggregator.start
  split
  · exact h.turn a true a.queue .starting (a.run + 1)
  · exact h.refl a

end SteppedBy

end Ingress.Aggregator
