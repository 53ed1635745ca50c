import Ingress.Proofs.Gateway.Sessions
import Mathlib

/-!
# Lines of sessions

* `Line` : what passes between a client and its session;
* `Line.Orderly` : frames are taken in order and acknowledged in order, and the last of either kind may
  end the session;
* `Orderly.heard`, `Orderly.dismissed`, ... : every turn keeps that.
-/

namespace Ingress

open Gateway

/-- What passes between a client and its session: the frames that were sent, those of them that wait, those
that were taken, and what the client was sent. -/
structure Line where
  sent : List Frame
  inbox : List Frame
  taken : List Receipt
  replies : List Reply

namespace Line

def fresh : Line := ⟨[], [], [], []⟩

def send (l : Line) (f : Frame) : Line := { l with sent := l.sent ++ [f], inbox := l.inbox ++ [f] }

def after (l : Line) (t : Turn) : Line :=
  { l with
    inbox := if t.taken.isSome then l.inbox.tail else l.inbox
    taken := l.taken ++ t.taken.toList
    replies := l.replies ++ t.replies }

/-- The session took a frame that ends it, had a message aborted, or was sent a close frame. -/
def ended (limit : Nat) (l : Line) : Bool :=
  l.taken.any (Receipt.ends limit) || l.replies.any Reply.isClose

/-- What was taken, and what was sent. -/
def exchange (l : Line) : List Receipt × List Reply := (l.taken, l.replies)

def outcomes (l : Line) : List Outcome := l.taken.filterMap Receipt.outcome

/-- `order`, frames are taken in the order in which they were sent, each once; `processed`, of these the
messages have an outcome; `last`, nothing is taken after what ends the session; `acknowledged`, the texts that
are sent are the acknowledgements of the outcomes, in order; `closed` and `away`, a close frame is the last that
is sent, and tells of a stop; `unbroken`, if the magnitude is a number, no message is aborted. -/
structure Orderly (c : Gateway.Config) (l : Line) : Prop where
  order : l.sent = l.taken.map Receipt.frame ++ l.inbox
  processed : ∀ r ∈ l.taken, r.outcome.isSome = r.frame.isHeard c.frameLimit
  last : ∀ r ∈ l.taken.dropLast, r.ends c.frameLimit = false
  acknowledged : l.replies.filterMap Reply.text? = acknowledgements c l.outcomes
  closed : ∀ r ∈ l.replies.dropLast, r.isClose = false
  away : ∀ r ∈ l.replies, r.isClose = true → r = .goingAway
  unbroken : Sanitize.IsMagnitude c.limits.maxMagnitude → ∀ r ∈ l.taken, r.outcome ≠ some .aborted

variable {c : Gateway.Config} {l : Line} {limit : Nat} {t : Turn} {r : Receipt}

theorem ended_eq_false : l.ended limit = false ↔
    (∀ r ∈ l.taken, r.ends limit = false) ∧ ∀ r ∈ l.replies, r.isClose = false := by
  simp [ended]

theorem ended_of_goingAway (h : Reply.goingAway ∈ l.replies) : l.ended limit = true := by
  have hany : l.replies.any Reply.isClose = true := List.any_eq_true.2 ⟨_, h, rfl⟩
  unfold ended
  rw [hany, Bool.or_true]

theorem ended_congr {l' : Line} (limit : Nat) (h : l'.exchange = l.exchange) :
    l'.ended limit = l.ended limit := by
  unfold ended
  rw [show l'.taken = l.taken from congrArg Prod.fst h, show l'.replies = l.replies from congrArg Prod.snd h]

theorem acknowledgements_append (c : Gateway.Config) (xs ys : List Outcome) :
    acknowledgements c (xs ++ ys) = acknowledgements c xs ++ acknowledgements c ys := by
  unfold acknowledgements
  split <;> simp

theorem orderly_fresh (c : Gateway.Config) : fresh.Orderly c :=
  ⟨rfl, List.forall_mem_nil _, List.forall_mem_nil _, (acknowledgements_nil c).symm, List.forall_mem_nil _,
    List.forall_mem_nil _, fun _ => List.forall_mem_nil _⟩

theorem Orderly.send (h : l.Orderly c) (f : Frame) : (l.send f).Orderly c := by
  refine ⟨?_, h.processed, h.last, h.acknowledged, h.closed, h.away, h.unbroken⟩
  show l.sent ++ [f] = l.taken.map Receipt.frame ++ (l.inbox ++ [f])
  rw [h.order, List.append_assoc]

theorem after_idle (htaken : t.taken = none) (hreplies : t.replies = []) : l.after t = l := by
  unfold after
  rw [htaken, hreplies]
  simp

theorem outcomes_after (htaken : t.taken = some r) :
    (l.after t).outcomes = l.outcomes ++ r.outcome.toList := by
  unfold after outcomes
  rw [htaken, List.filterMap_append]
  cases hr : r.outcome <;> simp [hr]

/-- An open session ends with what ends it. -/
theorem ended_after (hopen : l.ended limit = false) (htaken : t.taken = some r)
    (hclose : ∀ r ∈ t.replies, r.isClose = false) : (l.after t).ended limit = r.ends limit := by
  obtain ⟨hframes, hreplies⟩ := ended_eq_false.1 hopen
  cases hends : r.ends limit with
  | true => simp [ended, after, htaken, hends]
  | false =>
    refine ended_eq_false.2 ⟨?_, List.forall_mem_append.2 ⟨hreplies, hclose⟩⟩
    unfold after
    rw [htaken]
    exact List.forall_mem_append.2 ⟨hframes, List.forall_mem_singleton.2 hends⟩

/-- An open session takes its next frame. -/
theorem Orderly.heard (h : l.Orderly c) (hopen : l.ended c.frameLimit = false)
    (hnext : l.inbox.head? = some r.frame) (htaken : t.taken = some r)
    (hprocessed : r.outcome.isSome = r.frame.isHeard c.frameLimit)
    (htexts : t.replies.filterMap Reply.text? = acknowledgements c r.outcome.toList)
    (hclose : ∀ r ∈ t.replies, r.isClose = false)
    (hunbroken : Sanitize.IsMagnitude c.limits.maxMagnitude → r.outcome ≠ some .aborted) :
    (l.after t).Orderly c := by
  obtain ⟨hframes, hreplies⟩ := ended_eq_false.1 hopen
  have hquiet : ∀ r ∈ l.replies ++ t.replies, r.isClose = false :=
    List.forall_mem_append.2 ⟨hreplies, hclose⟩
  have houtcomes := outcomes_after (l := l) htaken
  obtain ⟨rest, hinbox⟩ := List.head?_eq_some_iff.1 hnext
  unfold after at houtcomes ⊢
  rw [htaken] at houtcomes ⊢
  refine ⟨?_, ?_, ?_, ?_, ?_, ?_, ?_⟩
  · simp [h.order, hinbox]
  · exact List.forall_mem_append.2 ⟨h.processed, List.forall_mem_singleton.2 hprocessed⟩
  · show ∀ s ∈ (l.taken ++ [r]).dropLast, s.ends c.frameLimit = false
    rw [List.dropLast_concat]
    exact hframes
  · rw [houtcomes, acknowledgements_append, ← h.acknowledged, ← htexts]
    exact List.filterMap_append
  · exact fun r hr => hquiet r (List.mem_of_mem_dropLast hr)
  · intro r hr hclosed
    rw [hquiet r hr] at hclosed
    cases hclosed
  · exact fun hm => List.forall_mem_append.2 ⟨h.unbroken hm, List.forall_mem_singleton.2 (hunbroken hm)⟩

/-- A stop ends an open session. -/
theorem Orderly.dismissed (h : l.Orderly c) (hopen : l.ended c.frameLimit = false)
    (htaken : t.taken = none) (hreplies : t.replies = [.goingAway]) : (l.after t).Orderly c := by
  obtain ⟨-, hquiet⟩ := ended_eq_false.1 hopen
  unfold after
  rw [htaken, hreplies]
  refine ⟨?_, ?_, ?_, ?_, ?_, ?_, ?_⟩
  · simpa using h.order
  · simpa using h.processed
  · simpa using h.last
  · show (l.replies ++ [Reply.goingAway]).filterMap Reply.text? =
      acknowledgements c ((l.taken ++ []).filterMap Receipt.outcome)
    rw [List.filterMap_append, List.append_nil, ← outcomes, ← h.acknowledged]
    exact List.append_nil _
  · simpa using hquiet
  · intro r hr hclosed
    rcases List.mem_append.1 hr with hold | hnew
    · rw [hquiet r hold] at hclosed
      cases hclosed
    · exact List.mem_singleton.1 hnew
  · simpa using h.unbroken

end Line

end Ingress
