import Ingress.Pipeline.Basic
import Ingress.Proofs.Pipeline.Message
import Ingress.Proofs.RateLimit.Check
import Mathlib

/-!
# What a message is charged for

The rate limiter stands in the middle of the pipeline. It is not asked about a message that is refused
before, and what becomes of a message behind it gives nothing back.

* `Outcome.isUnread`, `Outcome.isCharged` : the message does not get to the rate limiter, or past it;
* `Admission.allows` : the outcomes that go with an answer of the rate limiter;
* `Charges` : what a message does to the rate limiter; `judge_charges`, ..., `message_charges` : from the
  last stage to whole messages;
* `Spares` : what a rejection leaves as it was; `message_spares`, `binary_spares`.
-/

namespace Ingress

open RateLimit

namespace Outcome

def rejection? : Outcome → Option Rejection
  | .rejected why _ => some why
  | _ => none

/-- The message was rejected before the rate limiter is asked. -/
def isUnread (o : Outcome) : Bool :=
  o.rejection? == some .eventTooLarge || o.rejection? == some .invalidFormat

/-- The message was admitted by the rate limiter, whatever became of it then. -/
def isCharged (o : Outcome) : Bool :=
  o.rejection? == none || o.rejection? == some .schemaViolation || o.rejection? == some .queueFull

theorem isCharged_of_isUnread {o : Outcome} (h : o.isUnread = true) : o.isCharged = false := by
  unfold isUnread isCharged at *
  revert h
  cases o.rejection? with
  | none => decide
  | some why => cases why <;> decide

end Outcome

/-- The outcomes that go with an answer of the rate limiter. -/
def RateLimit.Admission.allows : Admission → Outcome → Prop
  | .admitted, o => o.isCharged = true
  | .burstExceeded _, o => o.rejection? = some .rateLimited
  | .sustainedExceeded _, o => o.rejection? = some .rateLimited
  | .invalidClient, o => o.rejection? = some .invalidClient

namespace RateLimit.Admission

variable {a : Admission} {o : Outcome}

theorem refusal_iff_of_allows (h : a.allows o) :
    a.isRefusal = true ↔ o.rejection? = some .rateLimited := by
  cases a with
  | burstExceeded n | sustainedExceeded n => exact iff_of_true rfl h
  | invalidClient =>
    refine iff_of_false Bool.noConfusion ?_
    rw [show o.rejection? = _ from h]
    decide
  | admitted =>
    refine iff_of_false Bool.noConfusion fun hwhy => ?_
    have hcharged : o.isCharged = true := h
    rw [Outcome.isCharged, hwhy] at hcharged
    exact absurd hcharged (by decide)

theorem invalid_of_allows (h : a.allows o) (ho : o.rejection? = some .invalidClient) :
    a = .invalidClient := by
  cases a with
  | invalidClient => rfl
  | burstExceeded n | sustainedExceeded n =>
    rw [show o.rejection? = _ from h] at ho
    exact absurd ho (by decide)
  | admitted =>
    have hcharged : o.isCharged = true := h
    rw [Outcome.isCharged, ho] at hcharged
    exact absurd hcharged (by decide)

theorem read_of_allows (h : a.allows o) : o.isUnread = false := by
  cases a with
  | burstExceeded n | sustainedExceeded n | invalidClient =>
    rw [Outcome.isUnread, show o.rejection? = _ from h]
    decide
  | admitted =>
    have hcharged : o.isCharged = true := h
    by_contra hread
    rw [Outcome.isCharged_of_isUnread (Bool.eq_true_of_not_eq_false hread)] at hcharged
    cases hcharged

end RateLimit.Admission

namespace Pipeline

/-- The rate limiter is not asked; or it is, once, and the outcome goes with its answer. -/
inductive Charges (p : Pipeline) (client : String) (r : Outcome × Pipeline) : Prop
  | unread (outcome : r.1.isUnread = true) (limiter : r.2.limiter = p.limiter)
  | asked (outcome : (p.limiter.check client p.clock).1.allows r.1)
      (limiter : r.2.limiter = (p.limiter.check client p.clock).2)

variable {p : Pipeline} {client : String} {r : Outcome × Pipeline}

/-! ## From the last stage to the first -/

theorem enqueue_charged (e : Event) :
    (p.enqueue client e).1.isCharged = true ∧ (p.enqueue client e).2.limiter = p.limiter := by
  unfold enqueue
  dsimp only
  split <;> exact ⟨rfl, rfl⟩

theorem intake_charged (v : Json.Value) :
    (p.intake client v).1.isCharged = true ∧ (p.intake client v).2.limiter = p.limiter := by
  unfold intake
  split
  · exact enqueue_charged _
  · exact ⟨rfl, rfl⟩

theorem sanitize_charged (v : Json.Value) :
    (p.sanitize client v).1.isCharged = true ∧ (p.sanitize client v).2.limiter = p.limiter := by
  unfold sanitize
  split
  · exact intake_charged _
  · exact ⟨rfl, rfl⟩

theorem validate_charged (v : Json.Value) :
    (p.validate client v).1.isCharged = true ∧ (p.validate client v).2.limiter = p.limiter := by
  unfold validate
  dsimp only
  split
  · exact sanitize_charged _
  · exact ⟨rfl, rfl⟩

/-- The usage in the security event of a refusal is read, and nothing comes of it. -/
theorem refuseRate_charges (window : String) (rejections : Nat)
    (h : (p.limiter.usage client p.clock).2 = p.limiter) :
    (p.refuseRate client window rejections).1.rejection? = some .rateLimited ∧
      (p.refuseRate client window rejections).2.limiter = p.limiter := by
  unfold refuseRate
  dsimp only
  split
  · exact ⟨rfl, h⟩
  · exact ⟨rfl, rfl⟩

theorem checkRate_charges (v : Json.Value) : Charges p client (p.checkRate client v) := by
  have husage (h : (p.limiter.check client p.clock).1.isRefusal = true) :=
    Limiter.usage_check h
  unfold checkRate
  dsimp only
  split
  next hanswer =>
    obtain ⟨hcharged, hlimiter⟩ :=
      @validate_charged { p with limiter := (p.limiter.check client p.clock).2 } client v
    exact .asked (by rw [hanswer]; exact hcharged) hlimiter
  next hanswer => exact .asked (by rw [hanswer]; rfl) rfl
  next n hanswer =>
    obtain ⟨hwhy, hlimiter⟩ :=
      @refuseRate_charges { p with limiter := (p.limiter.check client p.clock).2 } client "burst" n
        (husage (by rw [hanswer]; rfl))
    exact .asked (by rw [hanswer]; exact hwhy) hlimiter
  next n hanswer =>
    obtain ⟨hwhy, hlimiter⟩ :=
      @refuseRate_charges { p with limiter := (p.limiter.check client p.clock).2 } client "sustained" n
        (husage (by rw [hanswer]; rfl))
    exact .asked (by rw [hanswer]; exact hwhy) hlimiter

theorem judge_charges (text : String) : Charges p client (p.judge client text) := by
  unfold judge
  dsimp only
  split
  · exact .unread rfl rfl
  · split
    · exact .unread rfl rfl
    · exact checkRate_charges _

theorem message_charges (p : Pipeline) (client text : String) :
    Charges p client (p.message client text) := by
  cases @judge_charges (p.count Metrics.Name.received) client text with
  | unread outcome limiter => exact .unread outcome limiter
  | asked outcome limiter => exact .asked outcome limiter

theorem binary_charges (p : Pipeline) (client : String) (bytes : ByteArray) :
    Charges p client (p.binary client bytes) := by
  unfold binary
  split
  · exact message_charges p client _
  · exact .unread rfl rfl

/-! ## What a rejection leaves as it was -/

theorem Enqueues.rejected {S : Event → Prop} (h : Enqueues p client S r) (hr : r.1 ≠ .accepted) :
    r.2.aggregator.queue = p.aggregator.queue ∧ r.2.aggregator.openBatch = p.aggregator.openBatch ∧
      r.2.aggregator.stats = p.aggregator.stats := by
  cases h with
  | nothing _ aggregator =>
    rw [aggregator]
    exact ⟨rfl, rfl, rfl⟩
  | event e _ outcome _ => exact absurd outcome hr

theorem Charges.untouched (h : Charges p client r)
    (hr : r.1.rejection? ∈ [some .eventTooLarge, some .invalidFormat, some .invalidClient]) :
    r.2.limiter = p.limiter := by
  cases h with
  | unread _ limiter => exact limiter
  | asked outcome limiter =>
    have hread := Admission.read_of_allows outcome
    have hinvalid : r.1.rejection? = some .invalidClient := by
      simp only [Outcome.isUnread, Bool.or_eq_false_iff, beq_eq_false_iff_ne] at hread
      simpa [hread] using hr
    rw [limiter, Limiter.check_invalid (Admission.invalid_of_allows outcome hinvalid)]

theorem Charges.limited (h : Charges p client r) (hr : r.1.rejection? = some .rateLimited) :
    p.limiter.Changes client
      ((p.limiter.known client p.clock).refused p.limiter.config p.clock) r.2.limiter := by
  cases h with
  | unread outcome _ =>
    rw [Outcome.isUnread, hr] at outcome
    exact absurd outcome (by decide)
  | asked outcome limiter =>
    rw [limiter]
    exact Limiter.changes_refused ((Admission.refusal_iff_of_allows outcome).2 hr)

end Pipeline

end Ingress
