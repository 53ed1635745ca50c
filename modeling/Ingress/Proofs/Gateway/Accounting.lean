import Ingress.Proofs.Config.Limits
import Ingress.Proofs.Gateway.Run
import Mathlib

/-!
# Every message is accounted for

* `counter_background` : nothing in the background raises the counters of messages;
* `Accounted.received`, `Accounted.outcomeTotal`, `Accounted.processed`, `Answers.contents` : what
  one message adds to either side;
* `abortedIn`, `exec_not_aborted` : the messages that are aborted, of which there are none if the magnitude
  is a number;
* `AccountsFor` : the counters add up to the messages that are not aborted, the accepted ones are where
  their counter says, and any next message is accounted for once;
* `exec_accountsFor` : so it is after every run.

Counters are modulo `counterBound`, which is 2^64, and so are the sums.
-/

namespace Ingress

open Metrics

/-! ## The background -/

/-- Counters of messages have values that nothing in the background changes. -/
theorem counter_keptByWriting (v : String → Nat) :
    Aggregator.KeptByWriting (fun _ => True) fun l => ∀ n ∈ accounts, l.counter n = v n where
  note := fun _ _ _ hl => hl
  increment := fun l name k labels hname hl n hn => by
    have hdisjoint : ∀ m ∈ Aggregator.ownCounters, m ∉ accounts := by decide
    have hne : n ≠ name := by
      rintro rfl
      exact hdisjoint n hname hn
    exact (l.counter_increment_of_ne hne k labels).trans (hl n hn)
  observe := fun _ _ _ _ hl => hl
  setGauge := fun _ _ _ _ hl => hl
  pass := fun _ _ hl => hl

namespace Gateway

theorem counter_background (g : Gateway) (b : Background) :
    ∀ n ∈ accounts, (g.proceed b).ledger.counter n = g.ledger.counter n := by
  have hkept := holds_keptInBackground (counter_keptByWriting g.ledger.counter)
  exact (hkept.keeps_proceed g b ⟨fun _ _ => trivial, fun _ _ => trivial,
    fun _ _ _ _ => trivial, fun _ _ => rfl⟩).ledger

theorem contents_background (g : Gateway) (b : Background) :
    (g.proceed b).aggregator.contents = g.aggregator.contents :=
  (contents_keptInBackground g.aggregator.contents).keeps_proceed g b rfl

end Gateway

/-! ## One message -/

/-- The counters of what can become of a message, together. -/
def outcomeTotal (l : Ledger) : Nat :=
  l.counter Name.processed + l.counter Name.invalidMessages + l.counter Name.invalidEvents +
    l.counter Name.rateLimited + l.counter Name.processingErrors + l.counter Name.dropped

/-- The accounts of outcomes are all but that of all messages. -/
theorem outcomeTotal_eq (l : Ledger) : outcomeTotal l = (accounts.tail.map l.counter).sum := by
  simp only [outcomeTotal, accounts, List.tail_cons, List.map_cons, List.map_nil, List.sum_cons,
    List.sum_nil]
  omega

theorem outcomeTotal_congr {l l' : Ledger} (h : ∀ n ∈ accounts, l'.counter n = l.counter n) :
    outcomeTotal l' = outcomeTotal l := by
  rw [outcomeTotal_eq, outcomeTotal_eq,
    List.map_congr_left fun n hn => h n (List.mem_of_mem_tail hn)]

/-- One of several counters is raised, and so is their sum. -/
theorem sum_counters {l l' : Ledger} {tally : String} (names : List String) :
    names.Nodup → tally ∈ names →
    (∀ n ∈ names, l'.counter n =
      if n = tally then (l.counter n + 1) % counterBound else l.counter n) →
    (names.map l'.counter).sum % counterBound =
      ((names.map l.counter).sum + 1) % counterBound := by
  induction names with
  | nil => exact fun _ h => absurd h List.not_mem_nil
  | cons n rest ih =>
    intro hnodup hmem hcounter
    obtain ⟨hfresh, hnodup⟩ := List.nodup_cons.1 hnodup
    obtain ⟨hn, hrest⟩ := List.forall_mem_cons.1 hcounter
    rw [List.map_cons, List.map_cons, List.sum_cons, List.sum_cons]
    -- if the first counter is the one that is raised, the names are distinct and the rest stay
    by_cases ht : n = tally
    · have hsame : rest.map l'.counter = rest.map l.counter := by
        refine List.map_congr_left fun m hm => (hrest m hm).trans (if_neg ?_)
        rintro rfl
        exact hfresh (ht ▸ hm)
      rw [hsame, hn, if_pos ht, Nat.mod_add_mod, Nat.add_right_comm]
    · have hsum := ih hnodup ((List.mem_cons.1 hmem).resolve_left (Ne.symm ht)) hrest
      rw [hn, if_neg ht, Nat.add_mod, hsum, ← Nat.add_mod, Nat.add_assoc]

theorem Outcome.tallies_subset (o : Outcome) :
    ∀ tally ∈ o.tallies, ∀ n ∈ tally, n ∈ accounts.tail := by
  cases o with
  | accepted => decide
  | rejected why errors => cases why <;> exact of_decide_eq_true rfl
  | aborted => decide

/-- Only a message that is aborted has no counter of its own. -/
theorem Outcome.isNone_iff {o : Outcome} {tally : Option String} (h : tally ∈ o.tallies) :
    tally = none ↔ o = .aborted := by
  cases o with
  | accepted =>
    obtain rfl := List.mem_singleton.1 h
    decide
  | rejected why errors =>
    obtain ⟨n, -, rfl⟩ := List.mem_map.1 h
    exact iff_of_false (Option.some_ne_none n) Outcome.noConfusion
  | aborted => exact iff_of_true (List.mem_singleton.1 h) rfl

theorem Outcome.eq_processed_iff {o : Outcome} {tally : Option String} (h : tally ∈ o.tallies) :
    tally = some Name.processed ↔ o = .accepted := by
  cases o with
  | accepted => exact iff_of_true (List.mem_singleton.1 h) rfl
  | rejected why errors =>
    have hother : some Name.processed ∉ why.tallies.map some := by
      cases why <;> exact of_decide_eq_true rfl
    refine iff_of_false ?_ Outcome.noConfusion
    rintro rfl
    exact hother h
  | aborted =>
    obtain rfl := List.mem_singleton.1 h
    decide

namespace Pipeline

variable {p : Pipeline} {client : String} {S : Event → Prop} {r : Outcome × Pipeline}

theorem Accounted.received {o : Outcome} {l l' : Ledger} (h : Accounted o l l') :
    l'.counter Name.received = (l.counter Name.received + 1) % counterBound := by
  obtain ⟨tally, _, hcounter⟩ := h.counter
  rw [hcounter _ (by decide), if_pos (.inl rfl)]

/-- The counters of outcomes are raised by one together, unless the message is aborted. -/
theorem Accounted.outcomeTotal {o : Outcome} {l l' : Ledger} (h : Accounted o l l') :
    (outcomeTotal l' + if o = .aborted then 1 else 0) % counterBound =
      (Ingress.outcomeTotal l + 1) % counterBound := by
  obtain ⟨tally, htally, hcounter⟩ := h.counter
  have hother : ∀ n ∈ accounts.tail, n ≠ Name.received := by decide
  have hone : ∀ n ∈ accounts.tail, l'.counter n =
      if tally = some n then (l.counter n + 1) % counterBound else l.counter n := fun n hn =>
    (hcounter n (List.mem_of_mem_tail hn)).trans (by simp only [hother n hn, false_or])
  have haborted := Outcome.isNone_iff htally
  rw [outcomeTotal_eq, outcomeTotal_eq]
  cases tally with
  | none =>
    have hsame : accounts.tail.map l'.counter = accounts.tail.map l.counter :=
      List.map_congr_left fun n hn => hone n hn
    rw [if_pos (haborted.1 rfl), hsame]
  | some name =>
    rw [if_neg (mt haborted.2 (Option.some_ne_none name)), Nat.add_zero]
    refine sum_counters _ (by decide) (o.tallies_subset _ htally name rfl) fun n hn => ?_
    rw [hone n hn]
    simp only [Option.some.injEq, eq_comm]

theorem Accounted.processed {o : Outcome} {l l' : Ledger} (h : Accounted o l l') :
    l'.counter Name.processed =
      if o = .accepted then (l.counter Name.processed + 1) % counterBound
      else l.counter Name.processed := by
  obtain ⟨tally, htally, hcounter⟩ := h.counter
  have hother : Name.processed ≠ Name.received := by decide
  rw [hcounter _ (by decide)]
  simp only [hother, false_or, Outcome.eq_processed_iff htally]

/-- A message that is accepted is one more event that is held or has left. -/
theorem Answers.contents (h : Answers p client S r) :
    r.2.aggregator.contents.length =
      if r.1 = .accepted then p.aggregator.contents.length + 1
      else p.aggregator.contents.length := by
  rcases h.view with ⟨outcome, hview⟩ | ⟨e, -, outcome, hview⟩
  · rw [if_neg outcome]
    exact congrArg List.length (congrArg View.contents hview)
  · rw [if_pos outcome, show r.2.aggregator.contents = _ from congrArg View.contents hview]
    exact List.length_append

end Pipeline

namespace Gateway

/-! ## Every run -/

def abortedIn (exchanges : List Exchange) : Nat := exchanges.countP fun x => x.outcome == .aborted

/-- If the magnitude is a number, no message is aborted. -/
theorem exec_not_aborted (actions : List Action) : ∀ g : Gateway,
    Sanitize.IsMagnitude g.pipeline.limits.maxMagnitude →
      ∀ x ∈ (g.exec actions).1, x.outcome ≠ .aborted := by
  induction actions with
  | nil => exact fun _ _ => List.forall_mem_nil _
  | cons x rest ih =>
    intro g hm
    refine List.forall_mem_append.2 ⟨?_, ih _ (by rwa [g.limits_act x])⟩
    obtain ⟨b, rfl⟩ | ⟨client, outcome, hexchange, hanswers⟩ := g.act_answers x
    · exact List.forall_mem_nil _
    · rw [hexchange]
      exact List.forall_mem_singleton.2 (hanswers.not_aborted hm)

/-- The counters add up to the messages, of which so many are aborted, and the accepted ones are where
their counter says. -/
structure Balanced (aborted : Nat) (g : Gateway) : Prop where
  received : g.ledger.counter Name.received = (outcomeTotal g.ledger + aborted) % counterBound
  processed : g.ledger.counter Name.processed =
    (g.ledger.dispatched.flatten ++ g.aggregator.openBatch ++ g.aggregator.queue).length %
      counterBound

theorem balanced_act {n : Nat} (g : Gateway) (x : Action) (h : Balanced n g) :
    Balanced (n + abortedIn (g.act x).1) (g.act x).2 := by
  obtain ⟨b, rfl⟩ | ⟨client, outcome, hexchange, hanswers⟩ := g.act_cases x
  · have hcounter := g.counter_background b
    refine ⟨?_, ?_⟩
    · show (g.proceed b).ledger.counter _ = (outcomeTotal (g.proceed b).ledger + n) % _
      rw [hcounter _ (by decide), outcomeTotal_congr hcounter, h.received]
    · show (g.proceed b).ledger.counter _ = (g.proceed b).aggregator.contents.length % _
      rw [hcounter _ (by decide), g.contents_background b]
      exact h.processed
  · have hledger := hanswers.ledger
    refine ⟨?_, ?_⟩
    · have haborted : abortedIn (g.act x).1 = if outcome = .aborted then 1 else 0 := by
        rw [hexchange, abortedIn, List.countP_singleton]
        simp only [beq_iff_eq]
      have htotal : (outcomeTotal (g.act x).2.ledger + if outcome = .aborted then 1 else 0) %
          counterBound = (outcomeTotal g.ledger + 1) % counterBound := hledger.outcomeTotal
      calc (g.act x).2.ledger.counter Name.received
          = (g.ledger.counter Name.received + 1) % counterBound := hledger.received
        _ = ((outcomeTotal g.ledger + 1) + n) % counterBound := by
            rw [h.received, Nat.mod_add_mod, Nat.add_right_comm]
        _ = ((outcomeTotal (g.act x).2.ledger + abortedIn (g.act x).1) + n) % counterBound := by
            rw [haborted, Nat.add_mod, ← htotal, ← Nat.add_mod]
        _ = _ := by rw [Nat.add_assoc, Nat.add_comm n]
    · refine hledger.processed.trans ?_
      show _ = (g.act x).2.pipeline.aggregator.contents.length % _
      rw [hanswers.contents, show g.pipeline.ledger.counter Name.processed = _ from h.processed]
      split
      · rw [Nat.mod_add_mod]
        rfl
      · rfl

theorem balanced_exec (actions : List Action) : ∀ {n : Nat} (g : Gateway), Balanced n g →
    Balanced (n + abortedIn (g.exec actions).1) (g.exec actions).2 := by
  induction actions with
  | nil => exact fun _ h => h
  | cons x rest ih =>
    intro n g h
    have hrest := ih _ (balanced_act g x h)
    rwa [exec_cons, abortedIn, List.countP_append, ← Nat.add_assoc]

/-- What is written about messages is complete: `received` and `processed` as in `Balanced`, and any
next message is accounted for once, by its outcome. None is aborted in a gateway that can be run and whose
magnitude is a number. -/
structure AccountsFor (c : Gateway.Config) (exchanges : List Exchange) (g : Gateway) : Prop
    extends Balanced (abortedIn exchanges) g where
  message : ∀ client text,
    Pipeline.Accounted (g.message client text).1 g.ledger (g.message client text).2.ledger
  binary : ∀ client bytes,
    Pipeline.Accounted (g.binary client bytes).1 g.ledger (g.binary client bytes).2.ledger
  unbroken : c.check = .ok () → c.limits.maxMagnitude.isNaN = false →
    ∀ x ∈ exchanges, x.outcome ≠ .aborted

/-- **Every message is accounted for exactly once** unless it is aborted, at any point of any run. -/
theorem exec_accountsFor (c : Gateway.Config) (handlers : Aggregator.Handlers) (clock : Int)
    (actions : List Action) : AccountsFor c ((build c handlers clock).exec actions).1
      ((build c handlers clock).exec actions).2 where
  toBalanced := by
    have hrun := balanced_exec actions (build c handlers clock) (n := 0) ⟨rfl, rfl⟩
    rwa [Nat.zero_add] at hrun
  message := fun client text => (Pipeline.message_answers _ client text).ledger
  binary := fun client bytes => (Pipeline.binary_answers _ client bytes).ledger
  unbroken := fun hchecked hnumber =>
    exec_not_aborted actions _ (Limits.isMagnitude (Config.limits_of_check hchecked) hnumber)

/-- A configuration that can be run, with a magnitude that is not a number. -/
def boundless : Gateway.Config :=
  { Gateway.Config.standard with limits := { Limits.standard with maxMagnitude := .nan } }

def fraction : String :=
  "\x7b\"type\":\"action\",\"timestamp\":0,\"game_id\":\"g\",\"data\":\x7b\"x\":1.5\x7d\x7d"

def sampleFraction : List Exchange × Gateway :=
  (build boundless ⟨none, []⟩ 0).exec [.message "127.0.0.1:40000" fraction]

/-- The message is received, and then counted nowhere. -/
theorem sampleFraction_uncounted : boundless.check = .ok () ∧
    sampleFraction.1.map Exchange.outcome = [.aborted] ∧
    sampleFraction.2.ledger.counter Name.received = 1 ∧ outcomeTotal sampleFraction.2.ledger = 0 :=
  ⟨(Config.check_eq_ok_iff boundless).2 ⟨by decide +kernel, by decide +kernel⟩, by decide +kernel⟩

end Gateway

end Ingress
