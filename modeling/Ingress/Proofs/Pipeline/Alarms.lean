import Ingress.Proofs.Pipeline.Separation
import Ingress.Proofs.RateLimit.Rejections
import Mathlib

/-!
# The security events of a message

A message raises at most one security event, which is about its client. One about a rate is raised when the
message is refused by the rate limiter and the count of the client's rejections is the first, or one at the
distance of reports.

* `Ledger.Raises` : from one ledger to another security events are raised: they enter the log, and are
  counted by their type;
* `Pipeline.withLog` : a pipeline with another log, so that it can be told what is raised from what the log
  held before;
* `Alerts` : what a stage raises, whatever the log holds; `enqueue_alerts`, ..., `judge_alerts` : the stages,
  from the last to the first;
* `message_alerts`, `binary_alerts` : a whole message.
-/

namespace Ingress

open Metrics RateLimit

/-! ## What is raised -/

def Metrics.SecurityEvent.isRate (e : SecurityEvent) : Bool := e.type == Name.rateExceeded

namespace Ledger

/-- From `l` to `l'` security events are raised: `log`, they enter the log; `counter`, and are counted by
their type, from any count. -/
structure Raises (alarms : List SecurityEvent) (l l' : Ledger) : Prop where
  config : l'.metrics.config = l.metrics.config
  log : l'.metrics.securityLog =
    alarms.foldl (Collector.pushSecurity l.metrics.config.securityLogSize) l.metrics.securityLog
  counter : ∀ type k, l.counter (Name.securityEvents type) = k % counterBound →
    l'.counter (Name.securityEvents type) =
      (k + alarms.countP fun e => e.type == type) % counterBound

namespace Raises

variable {l l' l'' : Ledger} {alarms more : List SecurityEvent}

theorem refl (l : Ledger) : Raises [] l l := ⟨rfl, rfl, fun _ _ h => h⟩

theorem trans (h : Raises alarms l l') (h' : Raises more l' l'') : Raises (alarms ++ more) l l'' := by
  refine ⟨h'.config.trans h.config, ?_, fun type k hk => ?_⟩
  · rw [h'.log, h.log, h.config, List.foldl_append]
  · rw [h'.counter type _ (h.counter type k hk), List.countP_append, Nat.add_assoc]

theorem increment (l : Ledger) {name : String} (h : name.toList.take 2 ≠ ['s', 'e']) (n : Nat)
    (labels : Labels) : Raises [] l (l.increment name n labels) := by
  refine ⟨rfl, rfl, fun type k hk => ?_⟩
  rw [l.counter_increment_of_ne (ne_securityEvents h type).symm]
  exact hk

theorem count (l : Ledger) {name : String} (h : name ∈ accounts) : Raises [] l (l.count name) := by
  have hbegin : ∀ n ∈ accounts, n.toList.take 2 ≠ ['s', 'e'] := by decide +kernel
  exact increment l (hbegin name h) 1 []

theorem observe (l : Ledger) (name : String) (value : Double) (labels : Labels) :
    Raises [] l (l.observe name value labels) := ⟨rfl, rfl, fun _ _ h => h⟩

theorem security (l : Ledger) (type client : String) (details : Json.Value) :
    Raises [⟨type, client, details, .ofMillis l.clock⟩] l (l.security type client details) := by
  refine ⟨rfl, rfl, fun other k hk => ?_⟩
  refine (l.counter_count (Name.securityEvents type) (Name.securityEvents other)).trans ?_
  rw [List.countP_singleton, hk, Nat.mod_add_mod]
  by_cases h : other = type
  · rw [if_pos (securityEvents_inj.2 h), if_pos (beq_iff_eq.2 h.symm)]
  · rw [if_neg (mt securityEvents_inj.1 h), if_neg (mt beq_iff_eq.1 (Ne.symm h)), Nat.add_zero]

end Raises

def withLog (l : Ledger) (log : List SecurityEvent) : Ledger :=
  { l with metrics := { l.metrics with securityLog := log } }

end Ledger

namespace Pipeline

variable {p : Pipeline} {client : String}

def withLog (p : Pipeline) (log : List SecurityEvent) : Pipeline := p.write fun l => l.withLog log

theorem raises_countSecurity (p : Pipeline) {name : String} (h : name ∈ accounts) (type client : String)
    (details : Json.Value) :
    Ledger.Raises [⟨type, client, details, .ofMillis p.clock⟩] p.ledger
      (p.countSecurity name type client details).ledger :=
  (Ledger.Raises.count p.ledger h).trans (Ledger.Raises.security (p.ledger.count name) type client details)

/-! ## From the last stage to the first -/

/-- What a stage raises, whatever the log holds before it: `client`, it is about the client; `rate`, so many
of it, none or one, are about its rate. -/
structure Alerts (p : Pipeline) (client : String) (stage : Pipeline → Pipeline) (rate : Nat)
    (alarm? : Option SecurityEvent) : Prop where
  raises : ∀ log, Ledger.Raises alarm?.toList (p.withLog log).ledger (stage (p.withLog log)).ledger
  client : ∀ e ∈ alarm?, e.client = client
  rate : alarm?.toList.countP SecurityEvent.isRate = rate

/-- A stage that goes on as another one, from a pipeline with the same ledger. -/
theorem Alerts.of_eq {p' : Pipeline} {stage stage' : Pipeline → Pipeline} {rate : Nat}
    {alarm? : Option SecurityEvent} (h : Alerts p' client stage' rate alarm?)
    (hledger : p'.ledger = p.ledger)
    (hstage : ∀ log, stage (p.withLog log) = stage' (p'.withLog log)) :
    Alerts p client stage rate alarm? := by
  refine ⟨fun log => ?_, h.client, h.rate⟩
  show Ledger.Raises _ (p.ledger.withLog log) _
  rw [hstage, ← hledger]
  exact h.raises log

theorem alerts_count {name : String} (h : name ∈ accounts) :
    Alerts p client (fun q => q.count name) 0 none :=
  ⟨fun _ => .count _ h, nofun, rfl⟩

theorem enqueue_alerts (e : Event) : Alerts p client (fun q => (q.enqueue client e).2) 0 none := by
  refine ⟨fun log => ?_, nofun, rfl⟩
  generalize p.withLog log = q
  unfold enqueue Aggregator.add
  dsimp only
  split
  · exact .count q.ledger (by decide)
  · exact .count q.ledger (by decide)

theorem intake_alerts (v : Json.Value) : Alerts p client (fun q => (q.intake client v).2) 0 none := by
  refine ⟨fun log => ?_, nofun, rfl⟩
  unfold intake
  cases Event.ofValue v with
  | ok e => exact (enqueue_alerts e).raises log
  | error e => exact .count _ (by decide)

theorem sanitize_alerts (v : Json.Value) :
    Alerts p client (fun q => (q.sanitize client v).2) 0 none := by
  refine ⟨fun log => ?_, nofun, rfl⟩
  unfold sanitize
  cases Sanitize.event? (p.withLog log).limits v with
  | some w => exact (intake_alerts w).raises log
  | none => exact .refl _

/-- A stage that ends with one security event. -/
theorem alerts_countSecurity {name type : String} (h : name ∈ accounts) (htype : type ≠ Name.rateExceeded)
    (details : Json.Value) : Alerts p client (fun q => q.countSecurity name type client details) 0
      (some ⟨type, client, details, .ofMillis p.clock⟩) where
  raises := fun log => raises_countSecurity (p.withLog log) h type client details
  client := by rintro _ ⟨⟩; rfl
  rate := List.countP_eq_zero.2 (List.forall_mem_singleton.2 (by simpa [SecurityEvent.isRate]))

theorem validate_of_valid {v : Json.Value}
    (h : (Validation.validate p.limits p.clock v).isValid = true) :
    p.validate client v = p.sanitize client v := if_pos h

theorem validate_of_invalid {v : Json.Value}
    (h : ¬ (Validation.validate p.limits p.clock v).isValid = true) :
    (p.validate client v).2 = p.countSecurity Name.invalidEvents Name.invalidSchema client
      (invalidDetails (Validation.validate p.limits p.clock v).messages) :=
  congrArg Prod.snd (if_neg h)

theorem validate_alerts (v : Json.Value) :
    ∃ alarm?, Alerts p client (fun q => (q.validate client v).2) 0 alarm? := by
  by_cases hvalid : (Validation.validate p.limits p.clock v).isValid = true
  · exact ⟨_, (sanitize_alerts v).of_eq rfl fun log =>
      congrArg Prod.snd (validate_of_valid (p := p.withLog log) hvalid)⟩
  · have halerts := @alerts_countSecurity p client Name.invalidEvents Name.invalidSchema (by decide)
      (by decide) (invalidDetails (Validation.validate p.limits p.clock v).messages)
    exact ⟨_, halerts.of_eq rfl fun log => validate_of_invalid (p := p.withLog log) hvalid⟩

/-- The reports of a rejection: one, if the count is the first or one at the distance of reports. -/
def reports (rejections : Nat) : Nat := if rejections = 1 ∨ rejections % reportEvery = 0 then 1 else 0

theorem refuseRate_alerts (window : String) (rejections : Nat) :
    ∃ alarm?, Alerts p client (fun q => (q.refuseRate client window rejections).2)
      (reports rejections) alarm? := by
  unfold refuseRate reports
  by_cases hdue : rejections = 1 ∨ rejections % reportEvery = 0
  · simp only [if_pos hdue]
    refine ⟨some ⟨Name.rateExceeded, client,
      rateDetails window rejections (p.limiter.usage client p.clock).1, .ofMillis p.clock⟩,
      fun log => ?_, by rintro _ ⟨⟩; rfl, rfl⟩
    exact raises_countSecurity (p.withLog log) (by decide) _ client _
  · simp only [if_neg hdue]
    exact ⟨none, alerts_count (by decide)⟩

/-- The pipeline once the rate limiter has been asked about a client. -/
def asked (p : Pipeline) (client : String) : Pipeline :=
  { p with limiter := (p.limiter.check client p.clock).2 }

/-- What becomes of a message once the rate limiter has answered. -/
def answered (p : Pipeline) (client : String) (v : Json.Value) : Admission → Outcome × Pipeline
  | .admitted => p.validate client v
  | .invalidClient => (.refused .invalidClient "invalid client id",
      p.countSecurity Name.rateLimited Name.invalidClient client (.object []))
  | .burstExceeded rejections => p.refuseRate client "burst" rejections
  | .sustainedExceeded rejections => p.refuseRate client "sustained" rejections

theorem checkRate_eq (p : Pipeline) (client : String) (v : Json.Value) : p.checkRate client v =
    (p.asked client).answered client v (p.limiter.check client p.clock).1 := rfl

theorem answered_allows (v : Json.Value) (a : Admission) : a.allows (p.answered client v a).1 := by
  cases a with
  | admitted => exact (validate_charged v).1
  | invalidClient => rfl
  | burstExceeded n => exact congrArg Outcome.rejection? (refuseRate_outcome p client "burst" n)
  | sustainedExceeded n => exact congrArg Outcome.rejection? (refuseRate_outcome p client "sustained" n)

/-- Both windows report by the one count that comes with the answer. -/
theorem answered_alerts (v : Json.Value) (a : Admission) :
    ∃ alarm?, Alerts p client (fun q => (q.answered client v a).2)
      (if a.isRefusal = true then reports a.rejections else 0) alarm? := by
  cases a with
  | admitted => exact validate_alerts v
  | invalidClient => exact ⟨_, alerts_countSecurity (by decide) (by decide) (.object [])⟩
  | burstExceeded n => exact refuseRate_alerts "burst" n
  | sustainedExceeded n => exact refuseRate_alerts "sustained" n

/-- How many security events about the rate of a client come with an outcome: the limiter has counted the
rejection, whichever window was full. -/
def rateAlarms (p : Pipeline) (client : String) (o : Outcome) : Nat :=
  if o.rejection? = some .rateLimited then reports (p.limiter.rejections client + 1) else 0

theorem rateAlarms_of_allows {o : Outcome} (h : (p.limiter.check client p.clock).1.allows o) :
    p.rateAlarms client o = if (p.limiter.check client p.clock).1.isRefusal = true
      then reports (p.limiter.check client p.clock).1.rejections else 0 := by
  unfold rateAlarms
  by_cases hrefusal : (p.limiter.check client p.clock).1.isRefusal = true
  · rw [if_pos hrefusal, if_pos ((Admission.refusal_iff_of_allows h).1 hrefusal),
      Limiter.check_rejections hrefusal]
  · rw [if_neg hrefusal, if_neg (mt (Admission.refusal_iff_of_allows h).2 hrefusal)]

theorem checkRate_alerts (v : Json.Value) :
    ∃ alarm?, Alerts p client (fun q => (q.checkRate client v).2)
      (p.rateAlarms client (p.checkRate client v).1) alarm? := by
  rw [checkRate_eq, rateAlarms_of_allows (answered_allows v _)]
  obtain ⟨alarm?, halerts⟩ :=
    @answered_alerts (p.asked client) client v (p.limiter.check client p.clock).1
  exact ⟨alarm?, halerts.of_eq rfl fun log => congrArg Prod.snd ((p.withLog log).checkRate_eq client v)⟩

section Text

variable {text : String}

theorem judge_of_oversized (h : p.limits.maxEventBytes < text.utf8ByteSize) :
    p.judge client text = (.refused .eventTooLarge (oversizedText text.utf8ByteSize p.limits.maxEventBytes),
      p.countSecurity Name.invalidEvents Name.oversized client
        (.object [("max", .ofNat p.limits.maxEventBytes), ("size", .ofNat text.utf8ByteSize)])) :=
  if_pos h

theorem judge_of_garbled (h : ¬ p.limits.maxEventBytes < text.utf8ByteSize)
    (hparse : Json.parse? text = none) : p.judge client text =
      (.refused .invalidFormat "Invalid JSON format", p.count Name.invalidMessages) := by
  unfold judge
  dsimp only
  rw [if_neg h, hparse]

theorem judge_of_parsed {v : Json.Value} (h : ¬ p.limits.maxEventBytes < text.utf8ByteSize)
    (hparse : Json.parse? text = some v) : p.judge client text = p.checkRate client v := by
  unfold judge
  dsimp only
  rw [if_neg h, hparse]

end Text

theorem judge_alerts (text : String) : ∃ alarm?, Alerts p client (fun q => (q.judge client text).2)
    (p.rateAlarms client (p.judge client text).1) alarm? := by
  by_cases hsize : p.limits.maxEventBytes < text.utf8ByteSize
  · rw [judge_of_oversized hsize]
    have halerts := @alerts_countSecurity p client Name.invalidEvents Name.oversized (by decide) (by decide)
      (.object [("max", .ofNat p.limits.maxEventBytes), ("size", .ofNat text.utf8ByteSize)])
    exact ⟨_, halerts.of_eq rfl fun log =>
      congrArg Prod.snd (judge_of_oversized (p := p.withLog log) hsize)⟩
  · cases hparse : Json.parse? text with
    | none =>
      rw [judge_of_garbled hsize hparse]
      exact ⟨_, (alerts_count (show Name.invalidMessages ∈ accounts by decide)).of_eq rfl fun log =>
        congrArg Prod.snd (judge_of_garbled (p := p.withLog log) hsize hparse)⟩
    | some v =>
      rw [judge_of_parsed hsize hparse]
      obtain ⟨alarm?, halerts⟩ := @checkRate_alerts p client v
      exact ⟨alarm?, halerts.of_eq rfl fun log =>
        congrArg Prod.snd (judge_of_parsed (p := p.withLog log) hsize hparse)⟩

/-! ## Whole messages -/

/-- A message raises what its stages raise: it is counted and observed besides. -/
theorem message_alerts (p : Pipeline) (client text : String) :
    ∃ alarm?, Alerts p client (fun q => (q.message client text).2)
      (p.rateAlarms client (p.message client text).1) alarm? := by
  obtain ⟨alarm?, halerts⟩ := @judge_alerts (p.count Name.received) client text
  refine ⟨alarm?, fun log => ?_, halerts.client, halerts.rate⟩
  have hreceived := Ledger.Raises.count (p.withLog log).ledger (show Name.received ∈ accounts by decide)
  have hmessage : Ledger.Raises ([] ++ alarm?.toList ++ []) (p.withLog log).ledger
      ((p.withLog log).message client text).2.ledger :=
    (hreceived.trans (halerts.raises log)).trans (.observe _ _ _ _)
  rwa [List.nil_append, List.append_nil] at hmessage

theorem binary_alerts (p : Pipeline) (client : String) (bytes : ByteArray) :
    ∃ alarm?, Alerts p client (fun q => (q.binary client bytes).2)
      (p.rateAlarms client (p.binary client bytes).1) alarm? := by
  cases htext : String.fromUTF8? bytes with
  | some text =>
    obtain ⟨alarm?, halerts⟩ := message_alerts p client text
    rw [binary_of_text htext]
    exact ⟨alarm?, halerts.of_eq rfl fun _ => congrArg Prod.snd (binary_of_text htext)⟩
  | none =>
    have hgarbled (q : Pipeline) : q.binary client bytes =
        (.refused .invalidFormat "binary frame is not valid UTF-8",
          (q.count Name.received).count Name.invalidMessages) := by
      unfold binary
      rw [htext]
    rw [hgarbled]
    refine ⟨none, fun log => ?_, nofun, rfl⟩
    rw [hgarbled]
    exact (Ledger.Raises.count _ (by decide)).trans (Ledger.Raises.count _ (by decide))

end Pipeline

end Ingress
