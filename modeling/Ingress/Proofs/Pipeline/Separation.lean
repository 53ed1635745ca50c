import Ingress.Proofs.Aggregator.View
import Ingress.Proofs.Pipeline.Quota
import Ingress.Proofs.RateLimit.Separation
import Mathlib

/-!
# Messages of other clients

Two pipelines are compared, of which one has had messages of a client that the other has not had.

* `Ready` : what the outcome of a message behind the rate limiter depends on; `enqueue_ready`, ...,
  `judge_ready` : the stages answer alike, unless the queue is full in the one that has had more;
* `Apart` : the pipelines are alike but for one client;
* `Apart.message`, `Apart.binary` : a message of any other client has the same outcome in both, and leaves
  them so; `Apart.left` : so does one of the client, in the first alone.
-/

namespace Ingress

open RateLimit

def Event.notFrom (id : String) (e : Event) : Bool := e.client != some id

namespace Pipeline

variable {p p' : Pipeline} {client id : String} {r : Outcome × Pipeline}

/-! ## Stages of two pipelines -/

/-- Behind the rate limiter, a message meets the same in both pipelines, but that there may be more room in
the queue of the second. -/
structure Ready (p p' : Pipeline) : Prop where
  limits : p'.limits = p.limits
  clock : p'.clock = p.clock
  accepting : p'.aggregator.accepting = p.aggregator.accepting
  room : p.aggregator.queue.length < p.aggregator.capacity →
    p'.aggregator.queue.length < p'.aggregator.capacity

/-- The message was not refused for want of room in the queue; a stopped aggregator refuses it anyhow. -/
def Unfilled (p : Pipeline) (o : Outcome) : Prop :=
  o.rejection? = some .queueFull → p.aggregator.accepting = false

theorem enqueue_ready (h : Ready p p') (e : Event) (hfull : Unfilled p (p.enqueue client e).1) :
    (p'.enqueue client e).1 = (p.enqueue client e).1 := by
  unfold enqueue Aggregator.add at *
  rw [h.accepting]
  cases haccepting : p.aggregator.accepting with
  | false => rfl
  | true =>
    by_cases hroom : p.aggregator.queue.length < p.aggregator.capacity
    · simp [hroom, h.room hroom]
    · simp [Unfilled, haccepting, hroom, Outcome.refused, Outcome.rejection?] at hfull

theorem intake_ready (h : Ready p p') (v : Json.Value) (hfull : Unfilled p (p.intake client v).1) :
    (p'.intake client v).1 = (p.intake client v).1 := by
  unfold intake at *
  cases hevent : Event.ofValue v with
  | ok e =>
    rw [hevent] at hfull
    exact enqueue_ready h e hfull
  | error e => rfl

theorem sanitize_ready (h : Ready p p') (v : Json.Value)
    (hfull : Unfilled p (p.sanitize client v).1) :
    (p'.sanitize client v).1 = (p.sanitize client v).1 := by
  unfold sanitize at *
  rw [h.limits]
  cases hclean : Sanitize.event? p.limits v with
  | some w =>
    rw [hclean] at hfull
    exact intake_ready h w hfull
  | none => rfl

theorem validate_ready (h : Ready p p') (v : Json.Value)
    (hfull : Unfilled p (p.validate client v).1) :
    (p'.validate client v).1 = (p.validate client v).1 := by
  unfold validate at *
  rw [h.limits, h.clock]
  dsimp only at hfull ⊢
  split
  next hvalid =>
    rw [if_pos hvalid] at hfull
    exact sanitize_ready h _ hfull
  next => rfl

theorem refuseRate_outcome (p : Pipeline) (client window : String) (rejections : Nat) :
    (p.refuseRate client window rejections).1 =
      .refused .rateLimited (window ++ " rate limit exceeded") := by
  unfold refuseRate
  dsimp only
  split <;> rfl

/-- The rate limiters are to give the same answer. -/
theorem checkRate_ready (h : Ready p p')
    (hanswer : (p'.limiter.check client p.clock).1 = (p.limiter.check client p.clock).1)
    (v : Json.Value) (hfull : Unfilled p (p.checkRate client v).1) :
    (p'.checkRate client v).1 = (p.checkRate client v).1 := by
  unfold checkRate at *
  rw [h.clock]
  dsimp only at hfull ⊢
  rw [hanswer]
  cases hcheck : (p.limiter.check client p.clock).1 with
  | admitted =>
    rw [hcheck] at hfull
    have hready : Ready { p with limiter := (p.limiter.check client p.clock).2 }
        { p' with limiter := (p'.limiter.check client p.clock).2 } :=
      ⟨h.limits, h.clock, h.accepting, h.room⟩
    exact validate_ready hready v hfull
  | invalidClient => rfl
  | burstExceeded n | sustainedExceeded n =>
    exact (refuseRate_outcome _ _ _ _).trans (refuseRate_outcome _ _ _ _).symm

theorem judge_ready (h : Ready p p')
    (hanswer : (p'.limiter.check client p.clock).1 = (p.limiter.check client p.clock).1)
    (text : String) (hfull : Unfilled p (p.judge client text).1) :
    (p'.judge client text).1 = (p.judge client text).1 := by
  unfold judge at *
  rw [h.limits]
  dsimp only at hfull ⊢
  split
  next => rfl
  next hsize =>
    rw [if_neg hsize] at hfull
    cases hvalue : Json.parse? text with
    | none => rfl
    | some v =>
      rw [hvalue] at hfull
      exact checkRate_ready h hanswer v hfull

theorem message_ready (h : Ready p p')
    (hanswer : (p'.limiter.check client p.clock).1 = (p.limiter.check client p.clock).1)
    (text : String) (hfull : Unfilled p (p.message client text).1) :
    (p'.message client text).1 = (p.message client text).1 := by
  have hready : Ready (p.count Metrics.Name.received) (p'.count Metrics.Name.received) :=
    ⟨h.limits, h.clock, h.accepting, h.room⟩
  exact judge_ready hready hanswer text hfull

/-! ## Pipelines apart -/

/-- The pipelines are alike but for a client: the second has had none of its events. -/
structure Apart (id : String) (p p' : Pipeline) : Prop where
  limits : p'.limits = p.limits
  limiter : Limiter.AgreeOff id p.limiter p'.limiter
  view : p'.aggregator.view = p.aggregator.view.sieve (Event.notFrom id)

theorem StandsFor.unique {text : String} {e e' : Event} (h : StandsFor p client text e)
    (h' : StandsFor p' client text e') (hlimits : p'.limits = p.limits) : e' = e := by
  obtain ⟨-, v, hv, -, hevent⟩ := h
  obtain ⟨-, v', hv', -, hevent'⟩ := h'
  obtain rfl : v' = v := Option.some_inj.1 (hv'.symm.trans hv)
  rw [hlimits, hevent] at hevent'
  exact (Except.ok.inj hevent').symm

theorem notFrom_stamp (e : Event) (client id : String) (receivedAt : Instant) :
    (e.stamp client receivedAt).notFrom id = (client != id) := by
  unfold Event.notFrom Event.stamp
  by_cases h : client = id <;> simp [bne, h]

namespace Apart

variable {S S' : Event → Prop} {r' : Outcome × Pipeline}

theorem clock (h : Apart id p p') : p'.clock = p.clock := congrArg View.clock h.view

theorem ready (h : Apart id p p') : Ready p p' := by
  have hsettings : p'.aggregator.settings = p.aggregator.settings := congrArg View.settings h.view
  have hqueue : p'.aggregator.queue = p.aggregator.queue.filter (Event.notFrom id) :=
    congrArg View.queue h.view
  refine ⟨h.limits, h.clock, congrArg View.accepting h.view, fun hroom => ?_⟩
  unfold Aggregator.capacity at hroom ⊢
  rw [hsettings, hqueue]
  exact (List.length_filter_le _ _).trans_lt hroom

theorem limiter_of_charges (h : Apart id p p') (hclient : client ≠ id) (hr : Charges p client r)
    (hr' : Charges p' client r') (houtcome : r'.1 = r.1) :
    Limiter.AgreeOff id r.2.limiter r'.2.limiter := by
  cases hr with
  | unread unread limiter =>
    cases hr' with
    | unread _ limiter' =>
      rw [limiter, limiter']
      exact h.limiter
    | asked allows _ =>
      rw [houtcome] at allows
      rw [Admission.read_of_allows allows] at unread
      cases unread
  | asked allows limiter =>
    cases hr' with
    | unread unread _ =>
      rw [houtcome, Admission.read_of_allows allows] at unread
      cases unread
    | asked _ limiter' =>
      rw [limiter, limiter', h.clock]
      exact (h.limiter.check hclient p.clock).2

theorem view_of_answers (h : Apart id p p') (hclient : client ≠ id) (hr : Answers p client S r)
    (hr' : Answers p' client S' r') (houtcome : r'.1 = r.1) (hsame : ∀ e e', S e → S' e' → e' = e) :
    r'.2.aggregator.view = r.2.aggregator.view.sieve (Event.notFrom id) := by
  rcases hr.view with ⟨hrefused, hview⟩ | ⟨e, he, haccepted, hview⟩
  · rcases hr'.view with ⟨-, hview'⟩ | ⟨_, _, haccepted', _⟩
    · rw [hview, hview', h.view]
    · exact absurd (houtcome.symm.trans haccepted') hrefused
  · rcases hr'.view with ⟨hrefused', _⟩ | ⟨e', he', _, hview'⟩
    · exact absurd (houtcome.trans haccepted) hrefused'
    · have hkeep : (e.stamp client (.ofMillis p.clock)).notFrom id = true := by
        rw [notFrom_stamp]
        exact bne_iff_ne.2 hclient
      rw [hview, hview', h.view, hsame e e' he he', h.clock, View.sieve_taking_of_keep _ _ hkeep]

/-- Messages of another client with the same outcome leave the pipelines apart. -/
theorem of_answers (h : Apart id p p') (hclient : client ≠ id) (hr : Answers p client S r)
    (hr' : Answers p' client S' r') (hcharges : Charges p client r) (hcharges' : Charges p' client r')
    (houtcome : r'.1 = r.1) (hsame : ∀ e e', S e → S' e' → e' = e) : Apart id r.2 r'.2 where
  limits := hr'.limits.trans (h.limits.trans hr.limits.symm)
  limiter := h.limiter_of_charges hclient hcharges hcharges' houtcome
  view := h.view_of_answers hclient hr hr' houtcome hsame

/-- A message of another client has the same outcome, and leaves the pipelines apart. -/
theorem message (h : Apart id p p') (hclient : client ≠ id) (text : String)
    (hfull : Unfilled p (p.message client text).1) :
    (p'.message client text).1 = (p.message client text).1 ∧
      Apart id (p.message client text).2 (p'.message client text).2 := by
  have hanswer : (p'.limiter.check client p.clock).1 = (p.limiter.check client p.clock).1 :=
    (h.limiter.check hclient p.clock).1
  have houtcome := message_ready h.ready hanswer text hfull
  refine ⟨houtcome, h.of_answers hclient (message_answers_text p client text)
    (message_answers_text p' client text) (message_charges p client text)
    (message_charges p' client text) houtcome ?_⟩
  exact fun e e' he he' => he.unique he' h.limits

theorem binary (h : Apart id p p') (hclient : client ≠ id) (bytes : ByteArray)
    (hfull : Unfilled p (p.binary client bytes).1) :
    (p'.binary client bytes).1 = (p.binary client bytes).1 ∧
      Apart id (p.binary client bytes).2 (p'.binary client bytes).2 := by
  cases htext : String.fromUTF8? bytes with
  | some text =>
    rw [binary_of_text htext] at hfull ⊢
    rw [binary_of_text htext]
    exact h.message hclient text hfull
  | none =>
    have hoff (q : Pipeline) : Answers q client (fun _ => False) (q.binary client bytes) :=
      binary_answers_garbled htext
    have houtcome : (p'.binary client bytes).1 = (p.binary client bytes).1 := by
      unfold Pipeline.binary
      rw [htext]
    exact ⟨houtcome, h.of_answers hclient (hoff p) (hoff p') (binary_charges p client bytes)
      (binary_charges p' client bytes) houtcome fun e e' he => he.elim⟩

/-- A message of the client itself shows in nothing that the pipelines have in common. -/
theorem left (h : Apart id p p') (hr : Answers p id S r) (hcharges : Charges p id r) :
    Apart id r.2 p' := by
  refine ⟨h.limits.trans hr.limits.symm, ?_, ?_⟩
  · cases hcharges with
    | unread _ limiter =>
      rw [limiter]
      exact h.limiter
    | asked _ limiter =>
      rw [limiter]
      exact h.limiter.check_left p.clock
  · rcases hr.view with ⟨-, hview⟩ | ⟨e, -, -, hview⟩
    · rw [hview, h.view]
    · have hdrop : (e.stamp id (.ofMillis p.clock)).notFrom id = false := by
        rw [notFrom_stamp]
        exact bne_self_eq_false id
      rw [hview, h.view, View.sieve_taking_of_not_keep _ _ hdrop]

end Apart

end Pipeline

end Ingress
