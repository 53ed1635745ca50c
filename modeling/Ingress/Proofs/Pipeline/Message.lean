import Ingress.Pipeline.Basic
import Ingress.Proofs.Aggregator.View
import Ingress.Proofs.Pipeline.Accounts
import Ingress.Proofs.Sanitize.Value
import Mathlib

/-!
# What one message does to the pipeline

Every way through the pipeline ends in one of two ways: the message is not accepted, and nothing but the
ledger of the aggregator changes; or it is accepted, and its event, stamped with the client and the
time, is the last of the queue. One counter is raised on top of that of all messages, unless the message
was aborted.

* `Enqueues` : what becomes of the aggregator;
* `Settles` : how the stages from one on end; `enqueue_settles`, ..., `judge_settles` : the stages,
  from the last to the first;
* `Answers`, `message_answers`, `binary_answers` : a whole message;
* `Answers.view` : what shows of it in the aggregator.
-/

namespace Ingress.Pipeline

open Metrics RateLimit

/-- A message that is not accepted leaves all but the ledger as it was; an accepted one puts its event, which has
`S`, into the queue. -/
inductive Enqueues (p : Pipeline) (client : String) (S : Event → Prop) (r : Outcome × Pipeline) :
    Prop
  | nothing (outcome : r.1 ≠ .accepted)
      (aggregator : r.2.aggregator = { p.aggregator with ledger := r.2.ledger })
  | event (e : Event) (source : S e) (outcome : r.1 = .accepted)
      (aggregator : r.2.aggregator = { p.aggregator with
        queue := p.aggregator.queue ++ [e.stamp client (.ofMillis p.clock)]
        ledger := r.2.ledger })

/-- The end of the stages from one on; a message is aborted only where sanitizing breaks off. -/
structure Settles (p : Pipeline) (client : String) (S : Event → Prop) (r : Outcome × Pipeline) :
    Prop where
  limits : r.2.limits = p.limits
  aborts : r.1 = .aborted → ∃ v, Sanitize.event? p.limits v = none
  ledger : ∃ tally ∈ r.1.tallies, Ledger.Tally tally p.ledger r.2.ledger
  enqueues : Enqueues p client S r

variable {p : Pipeline} {client : String} {S T : Event → Prop} {r : Outcome × Pipeline}

theorem Enqueues.mono (h : Enqueues p client S r) (hST : ∀ e, S e → T e) :
    Enqueues p client T r := by
  cases h with
  | nothing outcome aggregator => exact .nothing outcome aggregator
  | event e source outcome aggregator => exact .event e (hST e source) outcome aggregator

/-- A message starts no delivery. -/
theorem Enqueues.jobs (h : Enqueues p client S r) : r.2.aggregator.jobs = p.aggregator.jobs := by
  cases h with
  | nothing _ aggregator => rw [aggregator]
  | event _ _ _ aggregator => rw [aggregator]

theorem Enqueues.handlers (h : Enqueues p client S r) :
    r.2.aggregator.handlers = p.aggregator.handlers := by
  cases h with
  | nothing _ aggregator => rw [aggregator]
  | event _ _ _ aggregator => rw [aggregator]

theorem Enqueues.stats (h : Enqueues p client S r) : r.2.aggregator.stats = p.aggregator.stats := by
  cases h with
  | nothing _ aggregator => rw [aggregator]
  | event _ _ _ aggregator => rw [aggregator]

theorem Settles.mono (h : Settles p client S r) (hST : ∀ e, S e → T e) : Settles p client T r :=
  ⟨h.limits, h.aborts, h.ledger, h.enqueues.mono hST⟩

/-- What the rate limiter holds plays no part in it. -/
theorem Settles.of_limiter {l : Limiter} (h : Settles { p with limiter := l } client S r) :
    Settles p client S r := by
  refine ⟨h.limits, h.aborts, h.ledger, ?_⟩
  cases h.enqueues with
  | nothing outcome aggregator => exact .nothing outcome aggregator
  | event e source outcome aggregator => exact .event e source outcome aggregator

/-! ## From the last stage to the first -/

theorem count_settles (why : Rejection) (errors : List String) (tally : String)
    (h : tally ∈ why.tallies) : Settles p client S (.rejected why errors, p.count tally) := by
  refine ⟨rfl, nofun, ⟨some tally, List.mem_map_of_mem h, ?_⟩, .nothing (by simp) rfl⟩
  exact Ledger.Tally.count p.ledger (why.tallies_subset tally h)

/-- A refusal that also raises a security event. -/
theorem countSecurity_settles (why : Rejection) (errors : List String) (tally type : String)
    (details : Json.Value) (h : tally ∈ why.tallies)
    (htype : Name.securityEvents type ∉ Name.batchedEvents :: Name.connectionsOpened :: accounts) :
    Settles p client S (.rejected why errors, p.countSecurity tally type client details) := by
  refine ⟨rfl, nofun, ⟨some tally, List.mem_map_of_mem h, ?_⟩, .nothing (by simp) rfl⟩
  exact (Ledger.Tally.count p.ledger (why.tallies_subset tally h)).trans
    (Ledger.Tally.security _ type client details htype)

theorem enqueue_settles (e : Event) : Settles p client (· = e) (p.enqueue client e) := by
  unfold enqueue Aggregator.add
  dsimp only
  split
  next =>
    refine ⟨rfl, nofun, ⟨some Name.processed, List.mem_singleton.2 rfl, ?_⟩, .event e rfl rfl rfl⟩
    exact Ledger.Tally.count p.ledger (by decide)
  next => exact count_settles .queueFull _ Name.dropped (by decide)

theorem intake_settles (v : Json.Value) :
    Settles p client (fun e => Event.ofValue v = .ok e) (p.intake client v) := by
  unfold intake
  split
  next e he => exact (enqueue_settles e).mono fun _ h => h ▸ he
  next => exact count_settles .schemaViolation _ Name.processingErrors (by decide)

/-- The event of a value that was found valid, and sanitized. -/
def FromValid (p : Pipeline) (v : Json.Value) (e : Event) : Prop :=
  (Validation.validate p.limits p.clock v).isValid = true ∧
    Event.ofValue (Sanitize.event p.limits v) = .ok e

/-- Nothing is written about a message that is aborted, and nothing comes of it. -/
theorem abort_settles {v : Json.Value} (h : Sanitize.event? p.limits v = none) :
    Settles p client S (.aborted, p) :=
  ⟨rfl, fun _ => ⟨v, h⟩, ⟨none, List.mem_singleton.2 rfl, .refl p.ledger⟩, .nothing (by simp) rfl⟩

theorem sanitize_settles (v : Json.Value) :
    Settles p client (fun e => Event.ofValue (Sanitize.event p.limits v) = .ok e) (p.sanitize client v) := by
  unfold sanitize
  split
  next w hw =>
    obtain ⟨-, rfl⟩ := Sanitize.event?_eq_some_iff.1 hw
    exact intake_settles _
  next hbreaks => exact abort_settles hbreaks

theorem validate_settles (v : Json.Value) :
    Settles p client (FromValid p v) (p.validate client v) := by
  unfold validate
  dsimp only
  split
  next hvalid => exact (sanitize_settles v).mono fun _ h => ⟨hvalid, h⟩
  next =>
    exact countSecurity_settles .schemaViolation _ Name.invalidEvents Name.invalidSchema _
      (by decide) (by decide)

theorem refuseRate_settles (window : String) (rejections : Nat) :
    Settles p client S (p.refuseRate client window rejections) := by
  unfold refuseRate
  dsimp only
  split
  next =>
    exact (countSecurity_settles .rateLimited _ Name.rateLimited Name.rateExceeded _ (by decide)
      (by decide)).of_limiter
  next => exact count_settles .rateLimited _ Name.rateLimited (by decide)

theorem check_admitted {l : Limiter} {id : String} {now : Int}
    (h : (l.check id now).1 = .admitted) : isClientId id = true := by
  unfold Limiter.check at h
  split at h
  next hid => exact hid
  next => cases h

theorem checkRate_settles (v : Json.Value) :
    Settles p client (fun e => isClientId client = true ∧ FromValid p v e)
      (p.checkRate client v) := by
  unfold checkRate
  dsimp only
  split
  next hadmitted =>
    exact ((validate_settles v).of_limiter).mono fun _ h => ⟨check_admitted hadmitted, h⟩
  next =>
    exact (countSecurity_settles .invalidClient _ Name.rateLimited Name.invalidClient _ (by decide)
      (by decide)).of_limiter
  next => exact (refuseRate_settles "burst" _).of_limiter
  next => exact (refuseRate_settles "sustained" _).of_limiter

/-- A text of a client with a proper id was found valid, and its event is `e`. -/
def StandsFor (p : Pipeline) (client text : String) (e : Event) : Prop :=
  isClientId client = true ∧ ∃ v, Json.parse? text = some v ∧ FromValid p v e

/-- The event of a text that was found valid, from a client with a proper id. -/
def FromText (p : Pipeline) (client : String) (e : Event) : Prop :=
  isClientId client = true ∧ ∃ text v, Json.parse? text = some v ∧ FromValid p v e

theorem StandsFor.fromText {text : String} {e : Event} (h : StandsFor p client text e) :
    FromText p client e := ⟨h.1, text, h.2⟩

theorem judge_settles (text : String) :
    Settles p client (StandsFor p client text) (p.judge client text) := by
  unfold judge
  dsimp only
  split
  next =>
    exact countSecurity_settles .eventTooLarge _ Name.invalidEvents Name.oversized _ (by decide)
      (by decide)
  next =>
    split
    next => exact count_settles .invalidFormat _ Name.invalidMessages (by decide)
    next v hv => exact (checkRate_settles v).mono fun _ h => ⟨h.1, v, hv, h.2⟩

/-! ## Whole messages -/

/-- A message is accounted for once under all messages and once under a counter of its outcome, if that
has one. -/
structure Accounted (outcome : Outcome) (l l' : Ledger) : Prop where
  clock : l'.clock = l.clock
  journal : l'.journal = l.journal
  counter : ∃ tally ∈ outcome.tallies, ∀ n ∈ accounts, l'.counter n =
    if n = Name.received ∨ tally = some n then (l.counter n + 1) % counterBound else l.counter n

/-- A message with its outcome, and what it did. -/
structure Answers (p : Pipeline) (client : String) (S : Event → Prop) (r : Outcome × Pipeline) :
    Prop where
  limits : r.2.limits = p.limits
  aborts : r.1 = .aborted → ∃ v, Sanitize.event? p.limits v = none
  ledger : Accounted r.1 p.ledger r.2.ledger
  batched : r.2.ledger.batched = p.ledger.batched
  attendance : r.2.ledger.attendance = p.ledger.attendance
  rates : ∃ tally ∈ r.1.tallies, r.2.ledger.rates =
    p.ledger.rates.recordAt (tracked (Name.received :: tally.toList)) (secondOf p.clock)
  enqueues : Enqueues p client S r

/-- A message is counted as received, goes through its stages, and is observed. -/
theorem Settles.answers (h : Settles (p.count Name.received) client S r) {f : Ledger → Ledger}
    (hf : ∀ l, Ledger.Tally none l (f l)) : Answers p client S (r.1, r.2.write f) := by
  obtain ⟨tally, hmem, hledger⟩ := h.ledger
  have hreceived := Ledger.Tally.count p.ledger (show Name.received ∈ accounts by decide)
  have hrest := hledger.trans (hf r.2.ledger)
  have hrates : (f r.2.ledger).rates =
      p.ledger.rates.recordAt (tracked (Name.received :: tally.toList)) (secondOf p.clock) := by
    refine hrest.rates.trans ?_
    rw [show (p.count Name.received).ledger.rates = _ from hreceived.rates]
    exact (Rolling.recordAt_append _ (tracked [Name.received]) (tracked tally.toList) _).symm.trans
      (congrArg (p.ledger.rates.recordAt · _) (List.filter_append ..).symm)
  refine ⟨h.limits, h.aborts, ⟨hrest.clock, hrest.journal, tally, hmem, fun n hn => ?_⟩,
    hrest.batched.trans hreceived.batched, hrest.attendance.trans hreceived.attendance,
    ⟨tally, hmem, hrates⟩, ?_⟩
  · -- the message and its outcome are counted by two counters, so no counter is raised twice
    have hother : tally ≠ some Name.received := by
      rintro rfl
      exact r.1.received_not_mem_tallies hmem
    refine (hrest.counter n hn).trans ?_
    rw [show (p.count Name.received).ledger.counter n = _ from hreceived.counter n hn]
    by_cases hr : n = Name.received
    · subst hr
      simp [hother]
    · simp [hr, Ne.symm hr]
  · cases h.enqueues with
    | nothing outcome aggregator =>
      refine .nothing outcome ?_
      show { r.2.aggregator with ledger := f r.2.ledger } = _
      rw [aggregator]
      rfl
    | event e source outcome aggregator =>
      refine .event e source outcome ?_
      show { r.2.aggregator with ledger := f r.2.ledger } = _
      rw [aggregator]
      rfl

theorem Answers.mono (h : Answers p client S r) (hST : ∀ e, S e → T e) : Answers p client T r :=
  ⟨h.limits, h.aborts, h.ledger, h.batched, h.attendance, h.rates, h.enqueues.mono hST⟩

/-- No message is aborted if the magnitude is a number. -/
theorem Answers.not_aborted (h : Answers p client S r) (hm : Sanitize.IsMagnitude p.limits.maxMagnitude) :
    r.1 ≠ .aborted := by
  intro haborted
  obtain ⟨v, hv⟩ := h.aborts haborted
  rw [Sanitize.event?_of_isMagnitude hm] at hv
  cases hv

/-- A message shows in the aggregator only if it is accepted. -/
theorem Answers.view (h : Answers p client S r) :
    (r.1 ≠ .accepted ∧ r.2.aggregator.view = p.aggregator.view) ∨
      ∃ e, S e ∧ r.1 = .accepted ∧
        r.2.aggregator.view = p.aggregator.view.taking (e.stamp client (.ofMillis p.clock)) := by
  have hclock : r.2.ledger.clock = p.ledger.clock := h.ledger.clock
  have hdispatched : r.2.ledger.dispatched = p.ledger.dispatched :=
    congrArg Ledger.dispatchedIn h.ledger.journal
  cases h.enqueues with
  | nothing outcome aggregator =>
    refine .inl ⟨outcome, ?_⟩
    rw [aggregator]
    exact Aggregator.view_write (f := fun _ => r.2.ledger) hclock hdispatched
  | event e source outcome aggregator =>
    refine .inr ⟨e, source, outcome, ?_⟩
    have hwritten : ({ p.aggregator with ledger := r.2.ledger } : Aggregator).view = p.aggregator.view :=
      Aggregator.view_write (f := fun _ => r.2.ledger) hclock hdispatched
    rw [aggregator, ← hwritten]
    exact Aggregator.view_enqueue { p.aggregator with ledger := r.2.ledger } _

/-- The event of a message is that of its text. -/
theorem message_answers_text (p : Pipeline) (client text : String) :
    Answers p client (StandsFor p client text) (p.message client text) :=
  (judge_settles text).answers fun l => Ledger.Tally.observe l _ _ _

theorem message_answers (p : Pipeline) (client text : String) :
    Answers p client (FromText p client) (p.message client text) :=
  (message_answers_text p client text).mono fun _ h => h.fromText

theorem binary_of_text {client text : String} {bytes : ByteArray}
    (h : String.fromUTF8? bytes = some text) : p.binary client bytes = p.message client text := by
  unfold binary
  rw [h]

/-- A binary message that is not a text is refused. -/
theorem binary_answers_garbled {bytes : ByteArray} (h : String.fromUTF8? bytes = none) :
    Answers p client S (p.binary client bytes) := by
  unfold binary
  rw [h]
  exact (count_settles .invalidFormat _ Name.invalidMessages (by decide)).answers
    (f := id) Ledger.Tally.refl

/-- A binary message is a text, or is refused. -/
theorem binary_answers (p : Pipeline) (client : String) (bytes : ByteArray) :
    Answers p client (FromText p client) (p.binary client bytes) := by
  cases htext : String.fromUTF8? bytes with
  | some text =>
    rw [binary_of_text htext]
    exact message_answers p client text
  | none => exact binary_answers_garbled htext

end Ingress.Pipeline
