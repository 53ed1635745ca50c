import Ingress.Proofs.Aggregator.Counting
import Ingress.Proofs.Aggregator.Schedule
import Ingress.Proofs.Metrics.Shares
import Mathlib

/-!
# Every handler ends once with every batch

A dispatched batch awaits the endings of all handlers. An ending is counted by the name of the handler, and
counted once more if the handler failed. So the endings that were counted and those that the jobs under way
still await are together those of all dispatched batches, at every point of every run.

* `Ending`, `Handlers.endings`, `Job.awaited` : how a handler ends with a batch, the endings that a batch is
  to have, and those that a job still awaits;
* `Booked es l` : the counters of deliveries say what is in `es`;
* `Counts ended l l'` : from `l` to `l'` endings are counted, also by time;
* `Ends before after l l'` : from `l` to `l'` some of the endings that were awaited have been counted;
* `ends_lead`, `ends_spread`, `ends_settleAll` : the steps of a job, and a round of deliveries;
* `jobs_sends` : the jobs that a step of the collector adds;
* `KeptByCounting P` : what holds of a ledger and the endings it has counted, and goes on to hold;
* `Owing handlers P a` : what was counted, with `P`, and what is awaited are together what is to come of all
  batches; `owing_keptByTime`, `owing_act` : every action keeps it;
* `Reaches a place` : the handler of a place was given, or is yet to be given, each batch once.
-/

namespace Ingress.Aggregator

open Metrics

/-! ## Endings -/

/-- How a handler ends with a batch: its name, and the outcome. -/
structure Ending where
  handler : String
  outcome : Outcome
deriving DecidableEq, Repr

/-- How a handler ends with the batch of a number. -/
def Handler.ending (number : Nat) (h : Handler) : Ending := ⟨h.name, (h.respond number).outcome⟩

/-- How a handler that has been given a batch will end. -/
def Delivery.ending (d : Delivery) : Ending := ⟨d.handler.name, d.response.outcome⟩

namespace Handlers

/-- The batch handler, if there is one, followed by the delivery handlers. -/
def all (handlers : Handlers) : List Handler :=
  handlers.batchHandler.toList ++ handlers.deliveryHandlers

/-- The endings that the batch of a number is to have. -/
def endings (handlers : Handlers) (number : Nat) : List Ending :=
  handlers.all.map (Handler.ending number)

end Handlers

/-- The endings that a job still awaits. -/
def Job.awaited (handlers : Handlers) (j : Job) : List Ending :=
  match j.stage with
  | .dispatched => handlers.endings j.number
  | .leading d => d.ending :: handlers.deliveryHandlers.map (Handler.ending j.number)
  | .led => handlers.deliveryHandlers.map (Handler.ending j.number)
  | .spreading ds => ds.map Delivery.ending

def endingsOf (n : String) (es : List Ending) : Nat := es.countP fun e => e.handler == n

def failuresOf (n : String) (es : List Ending) : Nat :=
  es.countP fun e => e.handler == n && e.outcome != .done

/-! ## The counters of deliveries -/

/-- The counters of deliveries, and of those that failed. -/
def deliveryBooks (l : Ledger) : List (Key × Nat) × List (Key × Nat) :=
  (l.metrics.family Name.deliveries, l.metrics.family Name.deliveryErrors)

/-- The counters of deliveries by handler: what they say of all, and of those that failed. -/
structure Tells (all failed : String → Nat) (l : Ledger) : Prop where
  all : ∀ n, l.metrics.counter Name.deliveries [("handler", n)] = all n % counterBound
  failed : ∀ n, l.metrics.counter Name.deliveryErrors [("handler", n)] = failed n % counterBound

/-- The counters of deliveries say what is in `es`. -/
def Booked (es : List Ending) (l : Ledger) : Prop :=
  Tells (fun n => endingsOf n es) (fun n => failuresOf n es) l

variable {l l' l'' : Ledger} {all failed : String → Nat} {es : List Ending}

theorem Tells.of_books (h : Tells all failed l) (hsame : deliveryBooks l' = deliveryBooks l) :
    Tells all failed l' := by
  obtain ⟨hall, hfailed⟩ := Prod.mk.inj hsame
  refine ⟨fun n => ?_, fun n => ?_⟩
  · rw [Collector.counter_eq_find, hall, ← Collector.counter_eq_find]
    exact h.all n
  · rw [Collector.counter_eq_find, hfailed, ← Collector.counter_eq_find]
    exact h.failed n

theorem Tells.deliver (h : Tells all failed l) (m : String) :
    Tells (fun n => all n + if m = n then 1 else 0) failed
      (l.increment Name.deliveries 1 [("handler", m)]) where
  all := fun n => l.metrics.counter_increment_label _ _ _ (h.all n)
  failed := fun n => (l.metrics.counter_increment_of_name_ne _ _ _ _ (by decide) _).trans (h.failed n)

theorem Tells.fail (h : Tells all failed l) (m : String) :
    Tells all (fun n => failed n + if m = n then 1 else 0)
      (l.increment Name.deliveryErrors 1 [("handler", m)]) where
  all := fun n => (l.metrics.counter_increment_of_name_ne _ _ _ _ (by decide) _).trans (h.all n)
  failed := fun n => l.metrics.counter_increment_label _ _ _ (h.failed n)

theorem endingsOf_append_singleton (n : String) (es : List Ending) (e : Ending) :
    endingsOf n (es ++ [e]) = endingsOf n es + if e.handler = n then 1 else 0 := by
  simp [endingsOf, List.countP_cons]

theorem failuresOf_append_singleton (n : String) (es : List Ending) (e : Ending) :
    failuresOf n (es ++ [e]) =
      failuresOf n es + if e.outcome = .done then 0 else if e.handler = n then 1 else 0 := by
  by_cases hdone : e.outcome = .done <;> simp [failuresOf, List.countP_cons, hdone]

/-! ## What is counted -/

/-- The counters that an ending raises. -/
def Ending.tallies (e : Ending) : List String :=
  if e.outcome = .done then [Name.deliveries] else [Name.deliveries, Name.deliveryErrors]

/-- From `l` to `l'` no time passes, and of deliveries some endings are counted, also by time. -/
structure Counts (ended : List Ending) (l l' : Ledger) : Prop where
  clock : l'.clock = l.clock
  booked : ∀ es, Booked es l → Booked (es ++ ended) l'
  rates : l'.rates = l.rates.recordAt (ended.flatMap Ending.tallies) (secondOf l.clock)

namespace Counts

variable {ended ended' : List Ending}

/-- What is written about anything but deliveries. -/
theorem nothing (hclock : l'.clock = l.clock) (hbooks : deliveryBooks l' = deliveryBooks l)
    (hrates : l'.rates = l.rates) : Counts [] l l' :=
  ⟨hclock, fun es hes => by
    rw [List.append_nil]
    exact hes.of_books hbooks, hrates⟩

theorem refl (l : Ledger) : Counts [] l l := .nothing rfl rfl rfl

theorem note (l : Ledger) (what : Occurrence) : Counts [] l (l.note what) := .nothing rfl rfl rfl

theorem observe (l : Ledger) (name : String) (value : Double) (labels : Labels) :
    Counts [] l (l.observe name value labels) := .nothing rfl rfl rfl

theorem trans (h : Counts ended l l') (h' : Counts ended' l' l'') : Counts (ended ++ ended') l l'' := by
  refine ⟨h'.clock.trans h.clock, fun es hes => ?_, ?_⟩
  · rw [← List.append_assoc]
    exact h'.booked _ (h.booked es hes)
  · rw [h'.rates, h.rates, h.clock, List.flatMap_append, Rolling.recordAt_append]

/-- Deliveries are counted by time, so what is not does not count them. -/
theorem increment {name : String} (h : Name.rateTracked.contains name = false) (l : Ledger) (k : Nat)
    (labels : Labels) : Counts [] l (l.increment name k labels) := by
  have hall : name ≠ Name.deliveries := by
    rintro rfl
    exact absurd h (by decide)
  have hfailed : name ≠ Name.deliveryErrors := by
    rintro rfl
    exact absurd h (by decide)
  exact .nothing rfl (Prod.ext (l.metrics.family_increment_of_ne name labels k l.clock hall)
    (l.metrics.family_increment_of_ne name labels k l.clock hfailed))
    (l.rates_increment_of_untracked h k labels)

theorem sink (s : Sink) (handler : String) (batch : List Event) (l : Ledger) :
    Counts [] l (s.take handler batch l) := by
  have hkinds (kinds : List (Kind × Nat)) : ∀ l : Ledger, Counts [] l
      (kinds.foldl (fun l c => l.increment Name.batchedEvents c.2 [("type", c.1.name)]) l) := by
    induction kinds with
    | nil => exact .refl
    | cons c rest ih => exact fun l => (increment (by decide) l _ _).trans (ih _)
  cases s with
  | count => exact hkinds _ l
  | _ => exact .nothing rfl rfl rfl

end Counts

/-- The end of a handler is counted once, and once more if it failed. -/
theorem Booked.finish (h : Booked es l) (d : Delivery) (batch : List Event) :
    Booked (es ++ [d.ending]) (d.finish batch l) := by
  have htaken := (Counts.sink d.handler.sink d.handler.name batch l).booked es h
  rw [List.append_nil] at htaken
  have hcounted := htaken.deliver d.handler.name
  unfold Booked Delivery.finish
  simp only [endingsOf_append_singleton, failuresOf_append_singleton]
  by_cases hdone : d.response.outcome = .done
  · simp only [hdone, if_true, Delivery.ending, Nat.add_zero]
    exact hcounted.of_books rfl
  · simp only [hdone, if_false, Delivery.ending]
    refine Tells.fail ?_ d.handler.name
    exact hcounted.of_books rfl

theorem rates_finish (d : Delivery) (batch : List Event) (l : Ledger) :
    (d.finish batch l).rates = l.rates.recordAt d.ending.tallies (secondOf l.clock) := by
  have htaken := Counts.sink d.handler.sink d.handler.name batch l
  have hrates : (d.handler.sink.take d.handler.name batch l).rates = l.rates := htaken.rates
  unfold Delivery.finish Ending.tallies
  rw [← hrates, ← htaken.clock]
  by_cases hdone : d.response.outcome = .done <;> simp only [hdone, Delivery.ending, if_true, if_false] <;>
    rfl

theorem Counts.finish (d : Delivery) (batch : List Event) (l : Ledger) :
    Counts [d.ending] l (d.finish batch l) := by
  refine ⟨(d.finish_moves batch l).clock, fun es h => h.finish d batch, ?_⟩
  rw [List.flatMap_singleton]
  exact rates_finish d batch l

/-! ## The endings that a step counts -/

/-- From `l` to `l'` some of the endings that were awaited before have been counted, and those that are
awaited after are the others. -/
def Ends (before after : List Ending) (l l' : Ledger) : Prop :=
  ∃ ended, (ended ++ after).Perm before ∧ Counts ended l l'

namespace Ends

variable {before after later before' after' : List Ending}

/-- What is written about anything but deliveries. -/
theorem nothing (h : Counts [] l l') : Ends before before l l' := ⟨[], .refl _, h⟩

theorem refl (es : List Ending) (l : Ledger) : Ends es es l l := .nothing (.refl l)

theorem finish (d : Delivery) (batch : List Event) (l : Ledger) :
    Ends (d.ending :: after) after l (d.finish batch l) := ⟨[d.ending], .refl _, .finish d batch l⟩

theorem trans (h : Ends before after l l') (h' : Ends after later l' l'') : Ends before later l l'' := by
  obtain ⟨ended, hperm, hcounts⟩ := h
  obtain ⟨ended', hperm', hcounts'⟩ := h'
  refine ⟨ended ++ ended', ?_, hcounts.trans hcounts'⟩
  rw [List.append_assoc]
  exact (hperm'.append_left ended).trans hperm

/-- What else is awaited, and nothing is counted of it. -/
theorem append_left (h : Ends before after l l') (others : List Ending) :
    Ends (others ++ before) (others ++ after) l l' := by
  obtain ⟨ended, hperm, hcounts⟩ := h
  refine ⟨ended, ?_, hcounts⟩
  exact (List.perm_append_comm_assoc ended others after).trans (hperm.append_left others)

theorem append_right (h : Ends before after l l') (others : List Ending) :
    Ends (before ++ others) (after ++ others) l l' := by
  obtain ⟨ended, hperm, hcounts⟩ := h
  refine ⟨ended, ?_, hcounts⟩
  rw [← List.append_assoc]
  exact hperm.append_right others

theorem append (h : Ends before after l l') (h' : Ends before' after' l' l'') :
    Ends (before ++ before') (after ++ after') l l'' :=
  (h.append_right before').trans (h'.append_left after)

end Ends

theorem ends_endLead (handlers : Handlers) (j : Job) (d : Delivery) (l : Ledger) :
    Ends (d.ending :: handlers.deliveryHandlers.map (Handler.ending j.number))
      ((j.endLead d l).1.awaited handlers) l (j.endLead d l).2 := by
  unfold Job.endLead
  split
  · exact .finish d j.batch l
  · exact .refl _ l

/-- The first step of a job counts the end of the batch handler. -/
theorem ends_lead (handlers : Handlers) (j : Job) (l : Ledger) :
    Ends (j.awaited handlers) ((j.lead handlers l).1.awaited handlers) l (j.lead handlers l).2 := by
  obtain ⟨number, run, batch, stage⟩ := j
  cases stage with
  | dispatched =>
    show Ends (handlers.endings number) _ l _
    unfold Job.lead Handlers.endings Handlers.all
    dsimp only
    cases handlers.batchHandler with
    | none => exact .refl _ l
    | some handler =>
      refine (Ends.nothing (.note l (.invoked .first batch))).trans ?_
      exact ends_endLead handlers _ ⟨handler, l.clock, handler.respond number⟩ _
  | leading d => exact ends_endLead handlers _ d l
  | led => exact .refl _ l
  | spreading ds => exact .refl _ l

/-- The handlers that are given a batch will end with it as they should. -/
theorem invokeAll_endings (j : Job) (handlers : List Handler) : ∀ (index : Nat) (l : Ledger),
    (j.invokeAll index handlers l).1.map Delivery.ending = handlers.map (Handler.ending j.number) ∧
      Counts [] l (j.invokeAll index handlers l).2 := by
  induction handlers with
  | nil => exact fun _ l => ⟨rfl, .refl l⟩
  | cons handler rest ih =>
    intro index l
    obtain ⟨hendings, hcounts⟩ := ih (index + 1) (l.note (.invoked (.delivery index) j.batch))
    exact ⟨congrArg (Handler.ending j.number handler :: ·) hendings, (Counts.note l _).trans hcounts⟩

theorem ends_endDue (j : Job) (ds : List Delivery) : ∀ l : Ledger,
    Ends (ds.map Delivery.ending) ((j.endDue ds l).1.map Delivery.ending) l (j.endDue ds l).2 := by
  induction ds with
  | nil => exact .refl []
  | cons d rest ih =>
    intro l
    unfold Job.endDue
    split
    · exact Ends.trans (.finish d j.batch l) (ih _)
    · exact (ih l).append_left [d.ending]

/-- The second step of a job counts the ends of delivery handlers. -/
theorem ends_spread (handlers : Handlers) (j : Job) (l : Ledger) :
    Ends (j.awaited handlers) ((j.spread handlers l).1.awaited handlers) l (j.spread handlers l).2 := by
  obtain ⟨number, run, batch, stage⟩ := j
  cases stage with
  | led =>
    obtain ⟨hendings, hcounts⟩ :=
      invokeAll_endings ⟨number, run, batch, .led⟩ handlers.deliveryHandlers 0 l
    have hdue := ends_endDue ⟨number, run, batch, .led⟩
      (Job.invokeAll ⟨number, run, batch, .led⟩ 0 handlers.deliveryHandlers l).1
      (Job.invokeAll ⟨number, run, batch, .led⟩ 0 handlers.deliveryHandlers l).2
    rw [hendings] at hdue
    exact (Ends.nothing hcounts).trans hdue
  | spreading ds => exact ends_endDue _ ds l
  | dispatched => exact .refl _ l
  | leading d => exact .refl _ l

theorem ends_stepAll {handlers : Handlers} {step : Job → Ledger → Job × Ledger}
    (hstep : ∀ j l, Ends (j.awaited handlers) ((step j l).1.awaited handlers) l (step j l).2)
    (jobs : List Job) : ∀ l : Ledger, Ends (jobs.flatMap (Job.awaited handlers))
      ((Job.stepAll step jobs l).1.flatMap (Job.awaited handlers)) l (Job.stepAll step jobs l).2 := by
  induction jobs with
  | nil => exact .refl []
  | cons j rest ih => exact fun l => (hstep j l).append (ih _)

/-- A job that is finished awaits nothing. -/
theorem awaited_unfinished (handlers : Handlers) (jobs : List Job) :
    (jobs.filter fun j => !j.isFinished).flatMap (Job.awaited handlers) =
      jobs.flatMap (Job.awaited handlers) := by
  induction jobs with
  | nil => rfl
  | cons j rest ih =>
    rw [List.filter_cons]
    split
    · rw [List.flatMap_cons, List.flatMap_cons, ih]
    · next hfinished =>
      have hnone : j.awaited handlers = [] := by
        obtain ⟨number, run, batch, _ | _ | _ | ⟨_ | _⟩⟩ := j <;> first | rfl | cases hfinished rfl
      rw [List.flatMap_cons, hnone, List.nil_append, ih]

/-- A round of deliveries counts what ends in it. -/
theorem ends_settleAll (handlers : Handlers) (jobs : List Job) (l : Ledger) :
    Ends (jobs.flatMap (Job.awaited handlers))
      ((Job.settleAll handlers jobs l).1.flatMap (Job.awaited handlers)) l
      (Job.settleAll handlers jobs l).2 := by
  have hled := ends_stepAll (ends_lead handlers) jobs l
  unfold Job.settleAll
  dsimp only
  rw [awaited_unfinished]
  exact hled.trans (ends_stepAll (ends_spread handlers) _ _)

/-! ## The aggregator -/

variable {a b : Aggregator} {batches : List (List Event)} {handlers : Handlers}

/-- The jobs that the collector adds: one for every batch that leaves. -/
theorem jobs_sends (h : Sends a b batches) (hreleases : Releases a b) : b.jobs = a.jobs ++
    (batches.zipIdx (a.stats.issued + 1)).map fun x => ⟨x.2, a.run, x.1, .dispatched⟩ := by
  obtain ⟨more, hjobs, hstages, _⟩ := hreleases.jobs
  have hpending : more.filter Job.isPending = more :=
    List.filter_eq_self.2 fun j hj => by
      unfold Job.isPending
      rw [hstages j hj]
  have hsent := h.pending
  unfold Aggregator.pending at hsent
  rw [hjobs, List.filter_append, hpending] at hsent
  rw [hjobs, List.append_cancel_left hsent]

/-- Dispatching counts no delivery. -/
theorem counts_steppedBy : SteppedBy fun a b => Counts [] a.ledger b.ledger where
  refl := fun a => .refl a.ledger
  trans := fun _ _ _ h h' => h.trans h'
  openWindow := fun _ _ => .nothing rfl rfl rfl
  dispatch := fun a w => by
    have hbatches : Counts [] a.ledger ((a.ledger.note (.dispatched w.batch)).count Name.batches) :=
      (Counts.note _ _).trans (.increment (by decide) _ 1 [])
    have hslow (l : Ledger) (entry : Log.Entry) : Counts [] l ((l.count Name.slowBatches).log entry) :=
      (Counts.increment (by decide) l 1 []).trans (.note _ _)
    unfold dispatch
    split
    · exact .refl a.ledger
    · have hsampled := (hbatches.trans (.observe _ Name.batchSize (.ofNat w.batch.length) [])).trans
        (.observe _ Name.batchMs (a.ledger.elapsedSince w.opened) [])
      unfold recordDispatch
      dsimp only
      split
      · exact hsampled.trans (hslow _ _)
      · exact hsampled
  turn := fun a _ _ _ _ => .refl a.ledger
  log := fun _ _ => .note _ _

/-- What holds of the endings that were counted and of the ledger goes on to hold when more are counted, and
when time passes. -/
structure KeptByCounting (P : List Ending → Ledger → Prop) : Prop where
  counts : ∀ {ended l l'} es, Counts ended l l' → P es l → P (es ++ ended) l'
  pass : ∀ es l ms, P es l → P es (l.pass ms)

theorem KeptByCounting.nothing {P : List Ending → Ledger → Prop} (hP : KeptByCounting P)
    (h : Counts [] l l') (hl : P es l) : P es l' := by
  have hcounted := hP.counts es h hl
  rwa [List.append_nil] at hcounted

/-- The endings that were counted, with `P`, and those that the jobs under way await, are together those of
all dispatched batches, which are numbered from 1. -/
structure Owing (handlers : Handlers) (P : List Ending → Ledger → Prop) (a : Aggregator) : Prop where
  registered : a.handlers = handlers
  numbered : Numbered a
  counted : ∃ ended, (ended ++ a.jobs.flatMap (Job.awaited handlers)).Perm
    ((List.range' 1 a.stats.issued).flatMap handlers.endings) ∧ P ended a.ledger

namespace Owing

variable {P : List Ending → Ledger → Prop}

/-- The endings of batches that leave are awaited. -/
theorem of_sends (hP : KeptByCounting P) (h : Owing handlers P a) (hsends : Sends a b batches)
    (hreleases : Releases a b) (hcounts : Counts [] a.ledger b.ledger) : Owing handlers P b := by
  obtain ⟨ended, hperm, hcounted⟩ := h.counted
  refine ⟨hreleases.handlers.trans h.registered, hsends.numbered h.numbered, ended, ?_,
    hP.nothing hcounts hcounted⟩
  have hnew : ((batches.zipIdx (a.stats.issued + 1)).map fun x =>
      (⟨x.2, a.run, x.1, .dispatched⟩ : Job)).flatMap (Job.awaited handlers) =
        (List.range' (1 + a.stats.issued) batches.length).flatMap handlers.endings := by
    rw [List.flatMap_map, Nat.add_comm 1, ← List.zipIdx_map_snd (a.stats.issued + 1) batches,
      List.flatMap_map]
    rfl
  rw [jobs_sends hsends hreleases, hsends.issued, List.flatMap_append, hnew, ← List.append_assoc,
    ← List.range'_append_1, List.flatMap_append]
  exact hperm.append_right _

/-- What is written about anything but deliveries and dispatched batches. -/
theorem write (hP : KeptByCounting P) (h : Owing handlers P a) {f : Ledger → Ledger}
    (hcounts : Counts [] a.ledger (f a.ledger))
    (hdispatched : (f a.ledger).dispatched = a.ledger.dispatched) : Owing handlers P (a.write f) := by
  refine ⟨h.registered, ?_, h.counted.imp fun _ => .imp_right (hP.nothing hcounts)⟩
  show a.stats.issued = (f a.ledger).dispatched.length
  rw [hdispatched]
  exact h.numbered

theorem advance (hP : KeptByCounting P) (h : Owing handlers P a) : Owing handlers P a.advance :=
  h.of_sends hP (sends_advance a) (releases_steppedBy.advance a) (counts_steppedBy.advance a)

theorem flush (hP : KeptByCounting P) (h : Owing handlers P a) : Owing handlers P a.flush :=
  h.of_sends hP (sends_flush a) (releases_steppedBy.flush a) (counts_steppedBy.flush a)

theorem endDrained (hP : KeptByCounting P) (h : Owing handlers P a) : Owing handlers P a.endDrained :=
  h.of_sends hP (sends_endDrained a) (releases_steppedBy.endDrained a) (counts_steppedBy.endDrained a)

theorem start (hP : KeptByCounting P) (h : Owing handlers P a) : Owing handlers P a.start :=
  h.of_sends hP (sends_start a) (releases_steppedBy.start a) (counts_steppedBy.start a)

theorem deliver (hP : KeptByCounting P) (h : Owing handlers P a) : Owing handlers P a.deliver := by
  obtain ⟨rfl, hnumbered, ended, hperm, hcounted⟩ := h
  obtain ⟨more, hmore, hcounts⟩ := ends_settleAll a.handlers a.jobs a.ledger
  refine ⟨rfl, ?_, ended ++ more, ?_, hP.counts ended hcounts hcounted⟩
  · unfold Numbered
    rw [dispatched_deliver]
    exact hnumbered
  · rw [List.append_assoc]
    exact (hmore.append_left ended).trans hperm

theorem conclude (hP : KeptByCounting P) (h : Owing handlers P a) : Owing handlers P a.conclude :=
  (h.deliver hP).endDrained hP

end Owing

theorem owing_keptByTime {P : List Ending → Ledger → Prop} (hP : KeptByCounting P) (handlers : Handlers) :
    KeptByTime (Owing handlers P) where
  pass := fun _ ms h =>
    ⟨h.registered, h.numbered, h.counted.imp fun ended => .imp_right (hP.pass ended _ ms)⟩
  advance := fun _ h => h.advance hP
  conclude := fun _ h => h.conclude hP
  halt := fun _ h => h.flush hP

theorem Booked.perm {es es' : List Ending} (h : Booked es l) (hperm : es.Perm es') : Booked es' l where
  all := fun n => (h.all n).trans (congrArg (· % counterBound) (hperm.countP_eq _))
  failed := fun n => (h.failed n).trans (congrArg (· % counterBound) (hperm.countP_eq _))

/-- When no job is under way, every ending of every dispatched batch has been counted. -/
theorem Owing.settled (h : Owing handlers Booked a) (hjobs : a.jobs = []) :
    Booked ((List.range' 1 a.ledger.dispatched.length).flatMap handlers.endings) a.ledger := by
  obtain ⟨ended, hperm, hbooked⟩ := h.counted
  rw [hjobs, List.flatMap_nil, List.append_nil, h.numbered] at hperm
  exact hbooked.perm hperm

theorem isFresh_lead (handlers : Handlers) (j : Job) (l : Ledger) :
    (j.lead handlers l).1.isFresh = false := by
  have hbegun := begins_lead handlers j l [0]
  rw [begins_cons] at hbegun
  by_contra hfresh
  rw [if_pos (by simpa using hfresh)] at hbegun
  cases hbegun

/-- The batches that the handler of a place has yet to be given. -/
def unreached (a : Aggregator) : Place → List (List Event)
  | .first => (a.pending.filter Job.isFresh).map Job.batch
  | .delivery _ => a.pending.map Job.batch

/-- The handler of a place was given, or is yet to be given, each dispatched batch once. -/
def Reaches (a : Aggregator) (place : Place) : Prop :=
  ((a.ledger.invocations place).map Prod.snd ++ a.unreached place).Perm a.ledger.dispatched

def Handlers.has (handlers : Handlers) : Place → Prop
  | .first => handlers.batchHandler.isSome = true
  | .delivery i => i < handlers.deliveryHandlers.length

theorem Reaches.of_sends {place : Place} (h : Reaches a place) (hsends : Sends a b batches) :
    Reaches b place := by
  have hbatches : ((batches.zipIdx (a.stats.issued + 1)).map fun x =>
      (⟨x.2, a.run, x.1, .dispatched⟩ : Job)).map Job.batch = batches := by
    rw [List.map_map]
    exact List.zipIdx_map_fst _ _
  have hunreached : b.unreached place = a.unreached place ++ batches := by
    unfold unreached
    cases place with
    | first =>
      have hfresh : ∀ j ∈ (batches.zipIdx (a.stats.issued + 1)).map fun x =>
          (⟨x.2, a.run, x.1, .dispatched⟩ : Job), j.isFresh = true := by
        intro j hj
        obtain ⟨x, _, rfl⟩ := List.mem_map.1 hj
        rfl
      dsimp only
      rw [hsends.pending, List.filter_append, List.map_append, List.filter_eq_self.2 hfresh, hbatches]
    | delivery i =>
      dsimp only
      rw [hsends.pending, List.map_append, hbatches]
  unfold Reaches
  rw [hsends.invocations, hunreached, hsends.dispatched, ← List.append_assoc]
  exact h.append_right batches

theorem Reaches.conclude {place : Place} (h : Reaches a place) (hplace : a.handlers.has place) :
    Reaches a.conclude place := by
  unfold Reaches at h ⊢
  rw [dispatched_conclude]
  refine List.Perm.trans ?_ h
  cases place with
  | first =>
    have hnone : a.conclude.unreached .first = [] := by
      unfold unreached
      rw [pending_conclude, List.map_eq_nil_iff, List.filter_eq_nil_iff]
      intro j hj
      obtain ⟨i, _, rfl⟩ := List.mem_map.1 (List.mem_filter.1 hj).1
      rw [isFresh_lead]
      exact Bool.false_ne_true
    rw [given_first_conclude a hplace, hnone, List.append_nil, List.map_append, List.map_map]
    exact .refl _
  | delivery i =>
    have hall : a.attended.map Job.batch = a.pending.map Job.batch := by
      unfold attended
      rw [List.map_map]
      exact List.map_congr_left fun j _ => Job.batch_lead _ j _
    unfold unreached
    rw [given_conclude a hplace, pending_conclude, ← hall, List.map_append, List.map_map, List.append_assoc]
    refine List.Perm.append_left _ ?_
    have hsplit := (List.filter_append_perm Job.isLed a.attended).map Job.batch
    rwa [List.map_append] at hsplit

end Ingress.Aggregator
