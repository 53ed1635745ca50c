import Ingress.Proofs.Aggregator.Frame
import Ingress.Proofs.Aggregator.Run
import Ingress.Proofs.Aggregator.Steps
import Ingress.Proofs.Event
import Ingress.Proofs.Metrics.Counter
import Mathlib

/-!
# Delivered events are counted

A gateway has two handlers of its own: one that writes a log record for each batch, and one that counts the
events of each batch by kind. Both are through with a batch at once.

* `wired` : these handlers;
* `Counted es l` : the counters of delivered events say what is in `es`;
* `CountsTo.increment`, `Counted.take` : a number of events of one kind, and a batch, are counted;
* `counted_settleAll` : a round of deliveries counts every batch that has left, and leaves none waiting;
* `Tallied a` : every batch that has left is counted or waits for the next round;
* `Releases`, `Tallied.of_releases` : batches leave, and wait; `tallied_keptByTime` : time keeps it;
* `Tallied.counted_of_jobs` : when no batch waits, everything that has left is counted.
-/

namespace Ingress.Aggregator

open Metrics

/-- The handlers of every gateway. -/
def wired : Handlers := ⟨some .log, [.counter]⟩

/-! ## Batches by kind -/

def kindCount (k : Kind) (es : List Event) : Nat := es.countP fun e => e.kind == k

theorem kindCount_append (k : Kind) (xs ys : List Event) :
    kindCount k (xs ++ ys) = kindCount k xs + kindCount k ys := List.countP_append

/-- Kinds without events are left out of a sum of what they would add. -/
theorem sum_kindCounts (f : Kind × Nat → Nat) (hf : ∀ k, f (k, 0) = 0) (batch : List Event) :
    ((kindCounts batch).map f).sum = (Kind.all.map fun k => f (k, kindCount k batch)).sum := by
  unfold kindCounts
  induction Kind.all with
  | nil => rfl
  | cons k rest ih =>
    rw [List.map_cons, List.filter_cons, List.map_cons, List.sum_cons, ← ih]
    split
    · rfl
    · next hzero =>
      have hnone : kindCount k batch = 0 := by
        unfold kindCount
        simpa using hzero
      rw [hnone, hf, Nat.zero_add]

theorem sum_kindCounts_of_kind (k : Kind) (batch : List Event) :
    ((kindCounts batch).map fun c => if c.1 = k then c.2 else 0).sum = kindCount k batch := by
  rw [sum_kindCounts _ (fun j => ite_self 0)]
  cases k <;> simp [Kind.all]

/-- Every event is of one kind. -/
theorem sum_kindCounts_all (batch : List Event) :
    ((kindCounts batch).map Prod.snd).sum = batch.length := by
  rw [sum_kindCounts _ (fun _ => rfl)]
  induction batch with
  | nil => rfl
  | cons e rest ih =>
    have hone : (Kind.all.map fun k => if e.kind == k then 1 else 0).sum = 1 := by
      cases e.kind <;> rfl
    simp only [kindCount, List.countP_cons] at ih ⊢
    rw [List.sum_map_add, ih, hone, List.length_cons]

/-! ## The counters of delivered events -/

/-- The counters of delivered events: what they say of every kind, and altogether. -/
structure CountsTo (counts : Kind → Nat) (total : Nat) (l : Ledger) : Prop where
  kind : ∀ k : Kind, l.metrics.counter Name.batchedEvents [("type", k.name)] = counts k % counterBound
  total : l.metrics.counterTotal Name.batchedEvents = total % counterBound

/-- The counters of delivered events say what is in `es`. -/
def Counted (es : List Event) (l : Ledger) : Prop := CountsTo (fun k => kindCount k es) es.length l

variable {es : List Event} {l l' : Ledger} {counts : Kind → Nat} {total : Nat}

theorem CountsTo.of_batched (h : CountsTo counts total l) (hsame : l'.batched = l.batched) :
    CountsTo counts total l' := by
  unfold Ledger.batched at hsame
  refine ⟨fun k => ?_, ?_⟩
  · rw [Collector.counter_eq_find, hsame, ← Collector.counter_eq_find]
    exact h.kind k
  · rw [Collector.counterTotal_eq_sum, hsame, ← Collector.counterTotal_eq_sum]
    exact h.total

theorem Counted.of_batched (h : Counted es l) (hsame : l'.batched = l.batched) : Counted es l' :=
  CountsTo.of_batched h hsame

theorem CountsTo.increment (h : CountsTo counts total l) (j : Kind) (n : Nat) :
    CountsTo (fun k => counts k + if j = k then n else 0) (total + n)
      (l.increment Name.batchedEvents n [("type", j.name)]) := by
  refine ⟨fun k => ?_, ?_⟩
  · simp only [← Event.name_injective.eq_iff (a := j)]
    exact l.metrics.counter_increment_label _ _ _ (h.kind k)
  · refine (l.metrics.counterTotal_increment _ _ _ _).trans ?_
    rw [h.total, Nat.mod_add_mod]

/-- Counting kinds one after the other. -/
theorem CountsTo.foldl (more : List (Kind × Nat)) : ∀ {l : Ledger} {counts : Kind → Nat} {total : Nat},
    CountsTo counts total l →
      CountsTo (fun k => counts k + (more.map fun c => if c.1 = k then c.2 else 0).sum)
        (total + (more.map Prod.snd).sum)
        (more.foldl (fun l c => l.increment Name.batchedEvents c.2 [("type", c.1.name)]) l) := by
  induction more with
  | nil => exact fun h => h
  | cons c rest ih =>
    intro l counts total h
    simp only [List.map_cons, List.sum_cons, ← Nat.add_assoc]
    exact ih (h.increment c.1 c.2)

/-- A batch is counted with its events of every kind. -/
theorem Counted.take (h : Counted es l) (handler : String) (batch : List Event) :
    Counted (es ++ batch) (Sink.count.take handler batch l) := by
  have hall := CountsTo.foldl (kindCounts batch) h
  simp only [sum_kindCounts_of_kind, sum_kindCounts_all, ← kindCount_append, ← List.length_append] at hall
  exact hall

/-! ## A round of deliveries -/

theorem batched_finish (d : Delivery) (batch : List Event) (l : Ledger) :
    (d.finish batch l).batched = (d.handler.sink.take d.handler.name batch l).batched := by
  have hcounted (m : Ledger) (n : Nat) (labels : Labels) :
      (m.increment Name.deliveries n labels).batched = m.batched := m.batched_increment (by decide) n labels
  unfold Delivery.finish
  dsimp only
  split
  · exact hcounted _ _ _
  · exact (Ledger.batched_increment _ (by decide) _ _).trans (hcounted _ _ _)

/-- A handler that is through at once is due when it begins. -/
theorem isDue_atOnce (handler : Handler) (now : Int) :
    Delivery.isDue ⟨handler, now, .atOnce⟩ now = true :=
  decide_eq_true (Int.add_zero now).le

/-- The log handler is through with a batch at once. -/
theorem lead_wired {j : Job} (hj : j.stage = .dispatched) (l : Ledger) :
    (j.lead wired l).1 = { j with stage := .led } ∧ (j.lead wired l).2.batched = l.batched := by
  have hdue : Delivery.isDue ⟨.log, l.clock, Handler.log.respond j.number⟩
      (l.note (.invoked .first j.batch)).clock = true := isDue_atOnce .log l.clock
  unfold Job.lead wired
  rw [hj]
  dsimp only [Job.invoke, Job.endLead]
  rw [if_pos hdue]
  exact ⟨rfl, batched_finish _ _ _⟩

/-- And so is the counter, which counts the batch. -/
theorem spread_wired {j : Job} (hj : j.stage = .led) (h : Counted es l) :
    (j.spread wired l).1 = { j with stage := .spreading [] } ∧
      Counted (es ++ j.batch) (j.spread wired l).2 := by
  have hdue : Delivery.isDue ⟨.counter, l.clock, Handler.counter.respond j.number⟩
      (l.note (.invoked (.delivery 0) j.batch)).clock = true := isDue_atOnce .counter l.clock
  unfold Job.spread wired
  rw [hj]
  dsimp only [Job.invokeAll, Job.invoke, Job.endSpread, Job.endDue]
  rw [if_pos hdue]
  have hnoted : Counted es (l.note (.invoked (.delivery 0) j.batch)) := h.of_batched rfl
  exact ⟨rfl, (hnoted.take Handler.counter.name j.batch).of_batched (batched_finish _ _ _)⟩

theorem stepAll_lead (jobs : List Job) : ∀ l : Ledger, (∀ j ∈ jobs, j.stage = .dispatched) →
    (Job.stepAll (Job.lead wired) jobs l).1 = jobs.map (fun j => { j with stage := .led }) ∧
      (Job.stepAll (Job.lead wired) jobs l).2.batched = l.batched := by
  induction jobs with
  | nil => exact fun _ _ => ⟨rfl, rfl⟩
  | cons j rest ih =>
    intro l hjobs
    obtain ⟨hj, hrest⟩ := List.forall_mem_cons.1 hjobs
    obtain ⟨hled, hsame⟩ := lead_wired hj l
    obtain ⟨hrested, hsames⟩ := ih (j.lead wired l).2 hrest
    exact ⟨congrArg₂ List.cons hled hrested, hsames.trans hsame⟩

theorem stepAll_spread (jobs : List Job) : ∀ (l : Ledger) (es : List Event),
    (∀ j ∈ jobs, j.stage = .led) → Counted es l →
    (∀ j ∈ (Job.stepAll (Job.spread wired) jobs l).1, j.isFinished = true) ∧
      Counted (es ++ (jobs.map Job.batch).flatten) (Job.stepAll (Job.spread wired) jobs l).2 := by
  induction jobs with
  | nil =>
    intro l es _ h
    refine ⟨List.forall_mem_nil _, ?_⟩
    rw [List.map_nil, List.flatten_nil, List.append_nil]
    exact h
  | cons j rest ih =>
    intro l es hjobs h
    obtain ⟨hj, hrest⟩ := List.forall_mem_cons.1 hjobs
    obtain ⟨hspread, hcounted⟩ := spread_wired hj h
    obtain ⟨hfinished, hall⟩ := ih (j.spread wired l).2 (es ++ j.batch) hrest hcounted
    refine ⟨List.forall_mem_cons.2 ⟨congrArg Job.isFinished hspread, hfinished⟩, ?_⟩
    · rw [List.map_cons, List.flatten_cons, ← List.append_assoc]
      exact hall

/-- A round of deliveries counts every batch that has left, and leaves none waiting. -/
theorem counted_settleAll {jobs : List Job} (hjobs : ∀ j ∈ jobs, j.stage = .dispatched)
    (h : Counted es l) :
    (Job.settleAll wired jobs l).1 = [] ∧
      Counted (es ++ (jobs.map Job.batch).flatten) (Job.settleAll wired jobs l).2 := by
  obtain ⟨hled, hsame⟩ := stepAll_lead jobs l hjobs
  have hstages : ∀ j ∈ (Job.stepAll (Job.lead wired) jobs l).1, j.stage = .led := by
    rw [hled]
    exact List.forall_mem_map.2 fun j _ => rfl
  obtain ⟨hfinished, hcounted⟩ := stepAll_spread _ _ es hstages (h.of_batched hsame)
  refine ⟨List.filter_eq_nil_iff.2 fun j hj => ?_, ?_⟩
  · rw [hfinished j hj]
    exact Bool.false_ne_true
  · have hbatches : (Job.stepAll (Job.lead wired) jobs l).1.map Job.batch = jobs.map Job.batch := by
      rw [hled, List.map_map]
      rfl
    rw [hbatches] at hcounted
    exact hcounted

/-! ## The aggregator -/

/-- From `a` to `b` some batches have left, and wait for the next round of deliveries. -/
structure Releases (a b : Aggregator) : Prop where
  handlers : b.handlers = a.handlers
  batched : b.ledger.batched = a.ledger.batched
  jobs : ∃ more : List Job, b.jobs = a.jobs ++ more ∧ (∀ j ∈ more, j.stage = .dispatched) ∧
    b.ledger.dispatched = a.ledger.dispatched ++ more.map Job.batch

theorem Releases.nothing {a b : Aggregator} (hhandlers : b.handlers = a.handlers)
    (hbatched : b.ledger.batched = a.ledger.batched) (hjobs : b.jobs = a.jobs)
    (hdispatched : b.ledger.dispatched = a.ledger.dispatched) : Releases a b :=
  ⟨hhandlers, hbatched, [], by simpa using hjobs, List.forall_mem_nil _, by simpa using hdispatched⟩

theorem batched_recordDispatch (a : Aggregator) (batch : List Event) (elapsed : Double) (l : Ledger) :
    (a.recordDispatch batch elapsed l).batched = l.batched := by
  have hbatches (m : Ledger) : (m.count Name.batches).batched = m.batched :=
    m.batched_increment (by decide) 1 []
  unfold recordDispatch
  dsimp only
  split
  · exact (Ledger.batched_increment _ (by decide) 1 []).trans (hbatches _)
  · exact hbatches _

theorem releases_steppedBy : SteppedBy Releases where
  refl := fun _ => .nothing rfl rfl rfl rfl
  trans := fun a b c h h' => by
    obtain ⟨more, hjobs, hstages, hdispatched⟩ := h.jobs
    obtain ⟨more', hjobs', hstages', hdispatched'⟩ := h'.jobs
    refine ⟨h'.handlers.trans h.handlers, h'.batched.trans h.batched, more ++ more', ?_,
      List.forall_mem_append.2 ⟨hstages, hstages'⟩, ?_⟩
    · rw [hjobs', hjobs, List.append_assoc]
    · rw [hdispatched', hdispatched, List.map_append, List.append_assoc]
  openWindow := fun _ _ => .nothing rfl rfl rfl rfl
  dispatch := fun a w => by
    unfold dispatch
    split
    · exact .nothing rfl rfl rfl rfl
    · exact ⟨rfl, batched_recordDispatch a _ _ _, [_], rfl, List.forall_mem_singleton.2 rfl,
        Ledger.dispatched_append (recordDispatch_moves a w.batch _ a.ledger).traffic⟩
  turn := fun _ _ _ _ _ => .nothing rfl rfl rfl rfl
  log := fun a entry => .nothing rfl rfl rfl (Ledger.frame_log a.ledger entry).dispatched

/-- Every batch that has left is counted, or waits for the next round of deliveries. -/
structure Tallied (a : Aggregator) : Prop where
  handlers : a.handlers = wired
  waiting : ∀ j ∈ a.jobs, j.stage = .dispatched
  counted : ∃ delivered : List (List Event),
    a.ledger.dispatched = delivered ++ a.jobs.map Job.batch ∧ Counted delivered.flatten a.ledger

namespace Tallied

variable {a b : Aggregator}

theorem of_releases (h : Tallied a) (hreleases : Releases a b) : Tallied b := by
  obtain ⟨delivered, hdispatched, hcounted⟩ := h.counted
  obtain ⟨more, hjobs, hstages, hleft⟩ := hreleases.jobs
  refine ⟨hreleases.handlers.trans h.handlers, ?_, delivered, ?_, hcounted.of_batched hreleases.batched⟩
  · rw [hjobs]
    exact List.forall_mem_append.2 ⟨h.waiting, hstages⟩
  · rw [hleft, hdispatched, hjobs, List.map_append, List.append_assoc]

theorem deliver (h : Tallied a) : Tallied a.deliver ∧ a.deliver.jobs = [] := by
  obtain ⟨delivered, hdispatched, hcounted⟩ := h.counted
  obtain ⟨hnone, hall⟩ := counted_settleAll h.waiting hcounted
  rw [← h.handlers] at hnone hall
  have hjobs : a.deliver.jobs = [] := hnone
  refine ⟨⟨h.handlers, ?_, delivered ++ a.jobs.map Job.batch, ?_, ?_⟩, hjobs⟩
  · rw [hjobs]
    exact List.forall_mem_nil _
  · rw [hjobs, dispatched_deliver, hdispatched, List.map_nil, List.append_nil]
  · rw [List.flatten_append]
    exact hall

theorem conclude (h : Tallied a) : Tallied a.conclude ∧ a.conclude.jobs = [] := by
  obtain ⟨hdelivered, hjobs⟩ := h.deliver
  refine ⟨hdelivered.of_releases (releases_steppedBy.endDrained a.deliver), ?_⟩
  unfold Aggregator.conclude endDrained
  split
  · split <;> exact hjobs
  · exact hjobs

end Tallied

theorem tallied_keptByTime : KeptByTime Tallied where
  pass := fun _ _ h => h.of_releases (.nothing rfl rfl rfl rfl)
  advance := fun a h => h.of_releases (releases_steppedBy.advance a)
  conclude := fun _ h => h.conclude.1
  halt := fun a h => h.of_releases (releases_steppedBy.flush a)

/-- When no batch waits, everything that has left is counted. -/
theorem Tallied.counted_of_jobs {a : Aggregator} (h : Tallied a) (hjobs : a.jobs = []) :
    Counted a.ledger.dispatched.flatten a.ledger := by
  obtain ⟨delivered, hdispatched, hcounted⟩ := h.counted
  rw [hjobs, List.map_nil, List.append_nil] at hdispatched
  rwa [hdispatched]

end Ingress.Aggregator
