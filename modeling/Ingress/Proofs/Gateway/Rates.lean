import Ingress.Proofs.Aggregator.Endings
import Ingress.Proofs.Gateway.Accounting
import Ingress.Proofs.Health.Share
import Mathlib

/-!
# The rates of a gateway

What becomes of a message is counted in the second in which the message is, and a failure in the second of its
delivery. So whatever intervals have been forgotten, and since whatever time one counts, there are no more
outcomes than messages, and no more failures than deliveries.

* `timedOutcomes` : the outcomes of messages that are counted by time;
* `Proportioned n m r` : no interval holds more outcomes than messages or more failures than deliveries, and
  there are at most `n` and `m` of the wholes;
* `Proportioned.message`, `proportioned_keptByCounting` : a message, and endings of deliveries;
* `Aggregator.completions` : the deliveries that have ended; `Owing.completions` : they are those counted;
* `owing_keptInBackground`, `afterMessages_exec` : the background, and a run;
* `RatesAgree`, `exec_ratesAgree` : what is read of the rates, at any point of any run.
-/

namespace Ingress

open Metrics

/-- The outcomes of messages that are counted by time. -/
def timedOutcomes : List String :=
  [Name.invalidMessages, Name.invalidEvents, Name.processed, Name.processingErrors]

/-- No interval holds more outcomes than messages or more failures than deliveries, and there are so many
messages and deliveries at most. -/
structure Proportioned (messages deliveries : Nat) (r : Rolling) : Prop where
  outcomes : r.Shares timedOutcomes Name.received
  failures : r.Shares [Name.deliveryErrors] Name.deliveries
  messages : Rolling.held r.buckets Name.received (fun _ => true) ≤ messages
  deliveries : Rolling.held r.buckets Name.deliveries (fun _ => true) ≤ deliveries

namespace Proportioned

variable {n m : Nat} {r : Rolling}

theorem of_empty (h : r.buckets = []) : Proportioned 0 0 r := by
  refine ⟨.of_empty h, .of_empty h, ?_, ?_⟩ <;> rw [h] <;> exact le_rfl

/-- What is recorded at one time is in proportion. -/
theorem recordAt (h : Proportioned n m r) {names : List String}
    (houtcomes : (timedOutcomes.map names.count).sum ≤ names.count Name.received)
    (hfailures : names.count Name.deliveryErrors ≤ names.count Name.deliveries) (time : Int) :
    Proportioned (n + names.count Name.received) (m + names.count Name.deliveries)
      (r.recordAt names time) where
  outcomes := h.outcomes.recordAt houtcomes time
  failures := h.failures.recordAt (by simpa using hfailures) time
  messages := (Rolling.held_recordAt_le h.outcomes.ordered names time _ _).trans
    (Nat.add_le_add_right h.messages _)
  deliveries := (Rolling.held_recordAt_le h.outcomes.ordered names time _ _).trans
    (Nat.add_le_add_right h.deliveries _)

/-- A message is one more, with one outcome at most. -/
theorem message (h : Proportioned n m r) {tally : Option String}
    (htally : ∀ name ∈ tally, name ∈ accounts.tail) (time : Int) :
    Proportioned (n + 1) m (r.recordAt (tracked (Name.received :: tally.toList)) time) := by
  have hcounts : ∀ tally ∈ none :: accounts.tail.map some,
      (timedOutcomes.map (tracked (Name.received :: tally.toList)).count).sum ≤ 1 ∧
        (tracked (Name.received :: tally.toList)).count Name.received = 1 ∧
        (tracked (Name.received :: tally.toList)).count Name.deliveries = 0 ∧
        (tracked (Name.received :: tally.toList)).count Name.deliveryErrors = 0 := by decide
  have hlisted : tally ∈ none :: accounts.tail.map some := by
    cases tally with
    | none => exact List.mem_cons_self
    | some name => exact List.mem_cons_of_mem _ (List.mem_map_of_mem (htally name rfl))
  obtain ⟨houtcomes, hreceived, hdeliveries, hfailures⟩ := hcounts tally hlisted
  have hnext := h.recordAt (houtcomes.trans hreceived.ge) (hfailures.trans_le (Nat.zero_le _)) time
  rwa [hreceived, hdeliveries] at hnext

end Proportioned

/-! ## Deliveries -/

namespace Aggregator

/-- An ending is one delivery, with one failure at most, and no message. -/
theorem count_tallies (ended : List Ending) :
    (ended.flatMap Ending.tallies).count Name.deliveries = ended.length ∧
      (ended.flatMap Ending.tallies).count Name.deliveryErrors ≤ ended.length ∧
      ∀ name ∈ accounts, (ended.flatMap Ending.tallies).count name = 0 := by
  induction ended with
  | nil => exact ⟨rfl, le_rfl, fun _ _ => rfl⟩
  | cons e rest ih =>
    obtain ⟨hdeliveries, hfailures, haccounts⟩ := ih
    have hone : e.tallies.count Name.deliveries = 1 ∧ e.tallies.count Name.deliveryErrors ≤ 1 ∧
        ∀ name ∈ accounts, e.tallies.count name = 0 := by
      unfold Ending.tallies
      split <;> decide
    obtain ⟨hdelivery, hfailure, haccount⟩ := hone
    rw [List.flatMap_cons, List.count_append, List.count_append, List.length_cons]
    refine ⟨by omega, by omega, fun name hname => ?_⟩
    rw [List.count_append, haccount name hname, haccounts name hname]

/-- Endings are counted in proportion. -/
theorem proportioned_keptByCounting (n : Nat) :
    KeptByCounting fun ended l => Proportioned n ended.length l.rates where
  counts := fun {ended l l'} es hcounts h => by
    obtain ⟨hdeliveries, hfailures, haccounts⟩ := count_tallies ended
    have houtcomes : (timedOutcomes.map (ended.flatMap Ending.tallies).count).sum = 0 :=
      List.sum_eq_zero (List.forall_mem_map.2 fun name hname =>
        haccounts name (by revert name; decide))
    have hnext := h.recordAt (houtcomes.trans_le (Nat.zero_le _)) (hfailures.trans hdeliveries.ge)
      (secondOf l.clock)
    rw [haccounts _ (by decide), hdeliveries, ← hcounts.rates] at hnext
    rwa [List.length_append]
  pass := fun _ _ _ h => h

/-- The deliveries that have ended: each dispatched batch is delivered to each handler, and the end of some of
these deliveries is still awaited. -/
def completions (a : Aggregator) : Nat :=
  a.ledger.dispatched.length * a.handlers.all.length -
    (a.jobs.flatMap (Job.awaited a.handlers)).length

theorem Owing.completions {handlers : Handlers} {P : List Ending → Ledger → Prop} {a : Aggregator}
    (h : Owing handlers P a) : ∃ ended, ended.length = a.completions ∧ P ended a.ledger := by
  obtain ⟨rfl, hnumbered, ended, hperm, hcounted⟩ := h
  have hendings : ∀ number ∈ List.range' 1 a.stats.issued,
      (a.handlers.endings number).length = a.handlers.all.length := fun _ _ => List.length_map _
  have htotal : ((List.range' 1 a.stats.issued).flatMap a.handlers.endings).length =
      a.ledger.dispatched.length * a.handlers.all.length := by
    rw [List.length_flatMap, List.map_congr_left hendings, List.map_const', List.sum_replicate,
      List.length_range', smul_eq_mul, hnumbered]
  have hall := hperm.length_eq
  rw [List.length_append, htotal] at hall
  refine ⟨ended, ?_, hcounted⟩
  unfold Aggregator.completions
  omega

end Aggregator

/-! ## Runs -/

namespace Gateway

open Aggregator

variable {handlers : Handlers}

/-- Nothing in the background counts messages, and endings are counted when they come. -/
theorem owing_keptInBackground {P : List Ending → Ledger → Prop} (hP : KeptByCounting P) :
    KeptInBackground fun g => Owing handlers P g.aggregator :=
  .of_aggregator (owing_keptByTime hP handlers) (fun _ h => h.start hP)
    (fun _ _ _ _ h => h.write hP (.nothing rfl rfl rfl) rfl)
    (fun a entry h => h.write hP (.note a.ledger (.logged entry))
      (Ledger.frame_log a.ledger entry).dispatched)

/-- After `n` messages the rates are in proportion. -/
def AfterMessages (handlers : Handlers) (n : Nat) (g : Gateway) : Prop :=
  Owing handlers (fun ended l => Proportioned n ended.length l.rates) g.aggregator

theorem afterMessages_act {n : Nat} (g : Gateway) (x : Action) (h : AfterMessages handlers n g) :
    AfterMessages handlers (n + (g.act x).1.length) (g.act x).2 := by
  obtain ⟨b, rfl⟩ | ⟨client, outcome, hexchange, hanswers⟩ := g.act_cases x
  · exact (owing_keptInBackground (proportioned_keptByCounting n)).keeps_proceed g b h
  · obtain ⟨hregistered, hnumbered, ended, hperm, hproportioned⟩ := h
    obtain ⟨tally, htally, hrates⟩ := hanswers.rates
    have henqueues := hanswers.enqueues
    have hdispatched : (g.act x).2.ledger.dispatched = g.ledger.dispatched :=
      congrArg Ledger.dispatchedIn hanswers.ledger.journal
    have hstats : (g.act x).2.aggregator.stats = g.aggregator.stats := henqueues.stats
    have hjobs : (g.act x).2.aggregator.jobs = g.aggregator.jobs := henqueues.jobs
    refine ⟨henqueues.handlers.trans hregistered, ?_, ended, ?_, ?_⟩
    · show (g.act x).2.aggregator.stats.issued = (g.act x).2.ledger.dispatched.length
      rw [hstats, hdispatched]
      exact hnumbered
    · rwa [hjobs, hstats]
    · rw [hexchange]
      show Proportioned (n + 1) ended.length (g.act x).2.pipeline.ledger.rates
      rw [hrates]
      exact hproportioned.message (outcome.tallies_subset tally htally) _

theorem afterMessages_exec (actions : List Action) : ∀ {n : Nat} (g : Gateway),
    AfterMessages handlers n g →
      AfterMessages handlers (n + (g.exec actions).1.length) (g.exec actions).2 := by
  induction actions with
  | nil => exact fun _ h => h
  | cons x rest ih =>
    intro n g h
    rw [exec_cons, List.length_append, ← Nat.add_assoc]
    exact ih _ (afterMessages_act g x h)

/-- What is read of the rates: since any time there are no more outcomes than messages, and no more failures
than deliveries; so no share of a health report exceeds one. -/
structure RatesAgree (c : Collector) : Prop where
  messages : ∀ since, c.windowed Name.invalidMessages since + c.windowed Name.invalidEvents since +
    c.windowed Name.processed since + c.windowed Name.processingErrors since ≤
      c.windowed Name.received since
  deliveries : ∀ since, c.windowed Name.deliveryErrors since ≤ c.windowed Name.deliveries since
  invalidRate : ∀ now, (c.health now).invalidRate.le (.ofNat 1) = true
  deliveryErrorRate : ∀ now, (c.health now).deliveryErrorRate.le (.ofNat 1) = true

theorem RatesAgree.of_proportioned {c : Collector} {n m : Nat} (h : Proportioned n m c.rates)
    (hn : n < counterBound) (hm : m < counterBound) : RatesAgree c := by
  have houtcomes (since : Int) : c.windowed Name.invalidMessages since +
      c.windowed Name.invalidEvents since + c.windowed Name.processed since +
      c.windowed Name.processingErrors since ≤ c.windowed Name.received since := by
    have hsum := h.outcomes.sumSince_le (h.messages.trans_lt hn) (secondOf since)
    simp only [timedOutcomes, List.map_cons, List.map_nil, List.sum_cons, List.sum_nil] at hsum
    unfold Collector.windowed
    omega
  have hfailures (since : Int) :
      c.windowed Name.deliveryErrors since ≤ c.windowed Name.deliveries since := by
    have hsum := h.failures.sumSince_le (h.deliveries.trans_lt hm) (secondOf since)
    rwa [List.map_singleton, List.sum_singleton] at hsum
  refine ⟨houtcomes, hfailures, fun now => ?_, fun now => ?_⟩
  · have hall := houtcomes (now - c.config.health.rateWindow * 1000)
    have hinvalid : c.windowed Name.invalidMessages (now - c.config.health.rateWindow * 1000) +
        c.windowed Name.invalidEvents (now - c.config.health.rateWindow * 1000) ≤
          c.windowed Name.received (now - c.config.health.rateWindow * 1000) := by omega
    exact Health.ratio_le_one ((Nat.mod_le _ _).trans hinvalid) (c.windowed_lt _ _)
  · exact Health.ratio_le_one (hfailures _) (c.windowed_lt _ _)

/-- **Rates stay in proportion**, at any point of any run, whatever the handlers do, as long as there are
fewer messages and ended deliveries than a word can count. -/
theorem exec_ratesAgree (c : Gateway.Config) (handlers : Handlers) (clock : Int) {actions : List Action}
    (hmessages : ((build c handlers clock).exec actions).1.length < counterBound)
    (hdeliveries : ((build c handlers clock).exec actions).2.aggregator.completions < counterBound) :
    RatesAgree ((build c handlers clock).exec actions).2.ledger.metrics := by
  have hempty : (Rolling.ofSpan c.metrics.health.rateWindow).buckets = [] := by
    unfold Rolling.ofSpan
    dsimp only
    split <;> rfl
  have hbegin : AfterMessages handlers 0 (build c handlers clock) :=
    ⟨rfl, rfl, [], .refl _, .of_empty hempty⟩
  have hafter := afterMessages_exec actions _ hbegin
  obtain ⟨ended, hended, hproportioned⟩ := Owing.completions hafter
  rw [Nat.zero_add, hended] at hproportioned
  exact .of_proportioned hproportioned hmessages hdeliveries

/-- Of two messages one is no text, and the delivery of the other one fails. -/
def sampleFailures : List Exchange × Gateway :=
  (build .standard ⟨none, [⟨"archive", .drop, fun _ => ⟨20, .failed⟩⟩]⟩ 0).exec
    [.background .start, .binary "alice" ⟨#[255]⟩,
      .message "bob" "\x7b\"type\":\"heartbeat\",\"timestamp\":0,\"game_id\":\"g\"\x7d",
      .background .advance, .background (.pass 100), .background .advance, .background .conclude,
      .background (.pass 20), .background .conclude]

theorem sampleFailures_ratesAgree :
    sampleFailures.1.length < counterBound ∧ sampleFailures.2.aggregator.completions < counterBound ∧
      RatesAgree sampleFailures.2.ledger.metrics ∧ sampleFailures.2.aggregator.completions = 1 ∧
      (sampleFailures.2.ledger.metrics.health 120).deliveryErrorRate = .ofNat 1 ∧
      (sampleFailures.2.ledger.metrics.health 120).invalidRate = (Double.ofNat 1).div (.ofNat 2) := by
  have hmessages : sampleFailures.1.length < counterBound := by decide +kernel
  have hdeliveries : sampleFailures.2.aggregator.completions < counterBound := by decide +kernel
  exact ⟨hmessages, hdeliveries, exec_ratesAgree _ _ _ hmessages hdeliveries, by decide +kernel,
    by decide +kernel, by decide +kernel⟩

end Gateway

end Ingress
