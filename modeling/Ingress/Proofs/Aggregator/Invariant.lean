import Ingress.Proofs.Aggregator.Run
import Ingress.Proofs.Aggregator.Steps
import Mathlib

/-!
# Invariants of the aggregator and what it writes

What the aggregator writes by itself is little: batches of events that it holds, log records, samples,
gauges other than that of sessions, and its own counters. A property of the ledger that none of these
undoes is kept by every action but an offer, together with a property of all events it holds.

* `ownCounters` : the counters that the aggregator raises when nothing is offered;
* `KeptByWriting E P` : no such write undoes `P`, where batches consist of events with `E`;
* `KeptByDelivering E P` : those of deliveries do not, and so no round of deliveries does;
* `Holds E P a` : every event that `a` holds has `E`, and its ledger has `P`;
* `Holds.act`, `Holds.add` : actions that offer nothing, and an offer.
-/

namespace Ingress.Aggregator

open Metrics

/-- The counters that the aggregator raises when nothing is offered. -/
def ownCounters : List String :=
  [Name.batches, Name.slowBatches, Name.deliveries, Name.deliveryErrors, Name.batchedEvents]

/-- The occurrence is about events with a property. -/
def About (E : Event → Prop) : Occurrence → Prop
  | .dispatched batch => ∀ e ∈ batch, E e
  | .invoked _ batch => ∀ e ∈ batch, E e
  | .kept _ batch => ∀ e ∈ batch, E e
  | .logged _ => True

/-- No write of the aggregator undoes `P`, where batches consist of events with `E`. -/
structure KeptByWriting (E : Event → Prop) (P : Ledger → Prop) : Prop where
  note : ∀ l what, About E what → P l → P (l.note what)
  increment : ∀ l name n labels, name ∈ ownCounters → P l → P (l.increment name n labels)
  observe : ∀ l name value labels, P l → P (l.observe name value labels)
  setGauge : ∀ l name n, name ≠ Name.connections → P l → P (l.setGauge name n)
  pass : ∀ l ms, P l → P (l.pass ms)

def deliveryCounters : List String := [Name.deliveries, Name.deliveryErrors, Name.batchedEvents]

/-- No delivery of a batch of events with `E` undoes `P`. -/
structure KeptByDelivering (E : Event → Prop) (P : Ledger → Prop) : Prop where
  note : ∀ l what, About E what → P l → P (l.note what)
  increment : ∀ l name n labels, name ∈ deliveryCounters → P l → P (l.increment name n labels)
  observe : ∀ l name value labels, P l → P (l.observe name value labels)

variable {E : Event → Prop} {P : Ledger → Prop}

theorem KeptByWriting.keptByDelivering (h : KeptByWriting E P) : KeptByDelivering E P where
  note := h.note
  increment := fun l name n labels hname => h.increment l name n labels <| by
    have hown : ∀ m ∈ deliveryCounters, m ∈ ownCounters := by decide
    exact hown name hname
  observe := h.observe

/-! ## Deliveries -/

namespace KeptByDelivering

theorem foldl_increment (h : KeptByDelivering E P) {name : String} (hname : name ∈ deliveryCounters)
    (counts : List (Kind × Nat)) : ∀ l : Ledger, P l →
      P (counts.foldl (fun l c => l.increment name c.2 [("type", c.1.name)]) l) := by
  induction counts with
  | nil => exact fun _ hl => hl
  | cons c rest ih => exact fun l hl => ih _ (h.increment l name c.2 _ hname hl)

theorem take (h : KeptByDelivering E P) (s : Sink) (handler : String) {batch : List Event}
    (hbatch : ∀ e ∈ batch, E e) {l : Ledger} (hl : P l) : P (s.take handler batch l) := by
  cases s with
  | drop => exact hl
  | keep => exact h.note _ _ hbatch hl
  | log => exact h.note l _ trivial hl
  | count => exact h.foldl_increment (by decide) _ l hl

theorem finish (h : KeptByDelivering E P) (d : Delivery) {batch : List Event}
    (hbatch : ∀ e ∈ batch, E e) {l : Ledger} (hl : P l) : P (d.finish batch l) := by
  have htaken := h.take d.handler.sink d.handler.name hbatch hl
  have hcounted := h.increment _ Name.deliveries 1 [("handler", d.handler.name)] (by decide) htaken
  unfold Delivery.finish
  dsimp only
  split
  · exact h.observe _ _ _ _ hcounted
  · exact h.increment _ _ _ _ (by decide) (h.observe _ _ _ _ hcounted)

theorem endLead (h : KeptByDelivering E P) {j : Job} (hj : ∀ e ∈ j.batch, E e) (d : Delivery)
    {l : Ledger} (hl : P l) : P (j.endLead d l).2 := by
  unfold Job.endLead
  split
  · exact h.finish d hj hl
  · exact hl

theorem lead (h : KeptByDelivering E P) (handlers : Handlers) (j : Job) (l : Ledger)
    (hj : ∀ e ∈ j.batch, E e) (hl : P l) : P (j.lead handlers l).2 := by
  unfold Job.lead
  split
  · split
    · exact hl
    · exact h.endLead hj _ (h.note l (.invoked .first j.batch) hj hl)
  · exact h.endLead hj _ hl
  · exact hl

theorem invokeAll (h : KeptByDelivering E P) {j : Job} (hj : ∀ e ∈ j.batch, E e)
    (handlers : List Handler) : ∀ (index : Nat) (l : Ledger), P l →
      P (j.invokeAll index handlers l).2 := by
  induction handlers with
  | nil => exact fun _ _ hl => hl
  | cons handler rest ih =>
    exact fun index l hl => ih _ _ (h.note l (.invoked (.delivery index) j.batch) hj hl)

theorem endDue (h : KeptByDelivering E P) {j : Job} (hj : ∀ e ∈ j.batch, E e) (ds : List Delivery) :
    ∀ l : Ledger, P l → P (j.endDue ds l).2 := by
  induction ds with
  | nil => exact fun _ hl => hl
  | cons d rest ih =>
    intro l hl
    unfold Job.endDue
    split
    · exact ih _ (h.finish d hj hl)
    · exact ih l hl

theorem spread (h : KeptByDelivering E P) (handlers : Handlers) (j : Job) (l : Ledger)
    (hj : ∀ e ∈ j.batch, E e) (hl : P l) : P (j.spread handlers l).2 := by
  unfold Job.spread
  split
  · exact h.endDue hj _ _ (h.invokeAll hj handlers.deliveryHandlers 0 l hl)
  · exact h.endDue hj _ l hl
  · exact hl

end KeptByDelivering

theorem Job.batch_lead (handlers : Handlers) (j : Job) (l : Ledger) :
    (j.lead handlers l).1.batch = j.batch := by
  have hend : ∀ d l, (j.endLead d l).1.batch = j.batch := by
    intro d l
    unfold endLead
    split <;> rfl
  unfold Job.lead
  split
  · split
    · rfl
    · exact hend _ _
  · exact hend _ l
  · rfl

theorem Job.batch_spread (handlers : Handlers) (j : Job) (l : Ledger) :
    (j.spread handlers l).1.batch = j.batch := by
  unfold Job.spread
  split <;> rfl

/-- The batches of jobs consist of events with a property. -/
def JobsOf (E : Event → Prop) (jobs : List Job) : Prop := ∀ j ∈ jobs, ∀ e ∈ j.batch, E e

theorem jobsOf_stepAll {step : Job → Ledger → Job × Ledger}
    (hbatch : ∀ j l, (step j l).1.batch = j.batch)
    (hstep : ∀ j l, (∀ e ∈ j.batch, E e) → P l → P (step j l).2) (jobs : List Job) :
    ∀ l : Ledger, JobsOf E jobs → P l →
      JobsOf E (Job.stepAll step jobs l).1 ∧ P (Job.stepAll step jobs l).2 := by
  induction jobs with
  | nil => exact fun _ hjobs hl => ⟨hjobs, hl⟩
  | cons j rest ih =>
    intro l hjobs hl
    obtain ⟨hj, hrest⟩ := List.forall_mem_cons.1 hjobs
    obtain ⟨hrest', hl'⟩ := ih (step j l).2 hrest (hstep j l hj hl)
    refine ⟨List.forall_mem_cons.2 ⟨?_, hrest'⟩, hl'⟩
    rw [hbatch]
    exact hj

theorem KeptByDelivering.settleAll (h : KeptByDelivering E P) (handlers : Handlers) {jobs : List Job}
    {l : Ledger} (hjobs : JobsOf E jobs) (hl : P l) :
    JobsOf E (Job.settleAll handlers jobs l).1 ∧ P (Job.settleAll handlers jobs l).2 := by
  obtain ⟨hled, hl'⟩ := jobsOf_stepAll (Job.batch_lead handlers) (h.lead handlers) jobs l hjobs hl
  obtain ⟨hspread, hl''⟩ :=
    jobsOf_stepAll (Job.batch_spread handlers) (h.spread handlers) _ _ hled hl'
  exact ⟨fun j hj => hspread j (List.mem_of_mem_filter hj), hl''⟩

/-! ## The aggregator -/

/-- Every event that the aggregator holds has `E`, and its ledger has `P`. -/
structure Holds (E : Event → Prop) (P : Ledger → Prop) (a : Aggregator) : Prop where
  queue : ∀ e ∈ a.queue, E e
  openBatch : ∀ e ∈ a.openBatch, E e
  jobs : JobsOf E a.jobs
  ledger : P a.ledger

namespace Holds

variable {a : Aggregator}

theorem openWindow (h : KeptByWriting E P) (ha : Holds E P a) (queue : List Event) :
    Holds E P (a.openWindow queue).2 :=
  ⟨ha.queue, ha.openBatch, ha.jobs, h.setGauge _ _ _ (by decide) ha.ledger⟩

theorem dispatch (h : KeptByWriting E P) (ha : Holds E P a) {w : Window}
    (hw : ∀ e ∈ w.batch, E e) : Holds E P (a.dispatch w) := by
  unfold Aggregator.dispatch
  split
  · exact ha
  · refine ⟨ha.queue, ha.openBatch, ?_, ?_⟩
    · refine List.forall_mem_append.2 ⟨ha.jobs, fun j hj => ?_⟩
      rw [List.mem_singleton.1 hj]
      exact hw
    · have hnoted := h.note a.ledger (.dispatched w.batch) hw ha.ledger
      have hcounted := h.increment _ Name.batches 1 [] (by decide) hnoted
      have hsampled := h.observe _ Name.batchMs (a.ledger.elapsedSince w.opened) []
        (h.observe _ Name.batchSize (.ofNat w.batch.length) [] hcounted)
      unfold recordDispatch
      dsimp only
      split
      · exact h.note _ (.logged _) trivial (h.increment _ _ _ _ (by decide) hsampled)
      · exact hsampled

theorem gather (h : KeptByWriting E P) (queue : List Event) : ∀ (a : Aggregator) (w : Window),
    Holds E P a → (∀ e ∈ w.batch, E e) → (∀ e ∈ queue, E e) → Holds E P (a.gather w queue) := by
  induction queue with
  | nil => exact fun a w ha hw _ => ⟨List.forall_mem_nil _, hw, ha.jobs, ha.ledger⟩
  | cons e rest ih =>
    intro a w ha hw hqueue
    obtain ⟨he, hrest⟩ := List.forall_mem_cons.1 hqueue
    have hmore : ∀ x ∈ w.batch ++ [e], E x :=
      List.forall_mem_append.2 ⟨hw, List.forall_mem_singleton.2 he⟩
    unfold Aggregator.gather
    dsimp only
    split
    · exact ih _ _ ((ha.dispatch h hmore).openWindow h rest)
        (List.forall_mem_nil _) hrest
    · exact ih a _ ha hmore hrest

theorem gatherAnew (h : KeptByWriting E P) (ha : Holds E P a) : Holds E P a.gatherAnew :=
  gather h a.queue _ _ (ha.openWindow h a.queue) (List.forall_mem_nil _) ha.queue

theorem window (ha : Holds E P a) {w : Window} (hw : a.phase = .gathering w) :
    ∀ e ∈ w.batch, E e := by
  have hopen := ha.openBatch
  unfold Aggregator.openBatch at hopen
  rwa [hw] at hopen

theorem collect (h : KeptByWriting E P) (ha : Holds E P a) : Holds E P a.collect := by
  unfold Aggregator.collect
  split
  · exact ha.gatherAnew h
  · next w hphase =>
    split
    · exact (ha.dispatch h (ha.window hphase)).gatherAnew h
    · exact gather h a.queue a w ha (ha.window hphase) ha.queue
  · exact ha

theorem endDrained (ha : Holds E P a) : Holds E P a.endDrained := by
  obtain heq | ⟨-, -, heq⟩ := endDrained_cases a <;> rw [heq]
  · exact ha
  · exact ⟨ha.queue, List.forall_mem_nil _, ha.jobs, ha.ledger⟩

theorem endExpired (h : KeptByWriting E P) (ha : Holds E P a) : Holds E P a.endExpired := by
  obtain heq | ⟨_, -, -, heq⟩ := endExpired_cases a <;> rw [heq]
  · exact ha
  · exact ⟨ha.queue, List.forall_mem_nil _, ha.jobs, h.note a.ledger (.logged _) trivial ha.ledger⟩

theorem deliver (h : KeptByWriting E P) (ha : Holds E P a) : Holds E P a.deliver := by
  obtain ⟨hjobs, hledger⟩ := h.keptByDelivering.settleAll a.handlers ha.jobs ha.ledger
  exact ⟨ha.queue, ha.openBatch, hjobs, hledger⟩

theorem flushWindow (h : KeptByWriting E P) (ha : Holds E P a) {w : Window}
    (hw : ∀ e ∈ w.batch, E e) : Holds E P (a.flushWindow w) := by
  have hsent := ha.dispatch h (w := { w with batch := w.batch ++ a.queue })
    (List.forall_mem_append.2 ⟨hw, ha.queue⟩)
  exact ⟨List.forall_mem_nil _, List.forall_mem_nil _, hsent.jobs,
    hsent.ledger⟩

theorem flush (h : KeptByWriting E P) (ha : Holds E P a) : Holds E P a.flush := by
  unfold Aggregator.flush
  split
  · exact (ha.openWindow h a.queue).flushWindow h (List.forall_mem_nil _)
  · next w hphase => exact ha.flushWindow h (ha.window hphase)
  · exact ha

theorem keptByTime (h : KeptByWriting E P) : KeptByTime (Holds E P) where
  pass := fun _ ms ha => ⟨ha.queue, ha.openBatch, ha.jobs, h.pass _ ms ha.ledger⟩
  advance := fun _ ha => ((ha.collect h).endDrained).endExpired h
  conclude := fun _ ha => (ha.deliver h).endDrained
  halt := fun _ ha => ha.flush h

theorem start (ha : Holds E P a) : Holds E P a.start := by
  unfold Aggregator.start
  split
  · exact ⟨ha.queue, List.forall_mem_nil _, ha.jobs, ha.ledger⟩
  · exact ha

end Holds

end Ingress.Aggregator
