import Ingress.Proofs.RateLimit.Check
import Ingress.Proofs.RateLimit.Tracking
import Mathlib

/-!
# Clients of a limiter are separate

* `AgreeOff` : two limiters hold the same of every client but one;
* `AgreeOff.check` : so they answer every other client alike, and go on doing so;
* `AgreeOff.check_left` : the one client may be checked in one of them alone;
* `AgreeOff.answer` : reading, and forgetting idle clients, is the same in both.
-/

namespace Ingress.RateLimit.Limiter

/-- Two limiters hold the same of every client but one. -/
structure AgreeOff (id : String) (l l' : Limiter) : Prop where
  config : l'.config = l.config
  others : ∀ other, other ≠ id → l'.clients.get? other = l.clients.get? other

/-- To read a client prunes its windows. -/
theorem get?_usage (l : Limiter) (client other : String) (now : Int) :
    (l.usage client now).2.clients.get? other =
      if other = client then (l.clients.get? other).map fun c => c.pruned l.config now
      else l.clients.get? other := by
  unfold usage
  by_cases heq : other = client
  · subst heq
    rw [if_pos rfl]
    cases hclient : l.clients.get? other with
    | none => exact hclient
    | some c => exact (Table.get?_insert _ _ _ _).trans (if_pos rfl)
  · rw [if_neg heq]
    cases l.clients.get? client with
    | none => rfl
    | some c => exact (Table.get?_insert _ _ _ _).trans (if_neg heq)

namespace AgreeOff

variable {id client : String} {l l' : Limiter} {now : Int}

theorem refl (id : String) (l : Limiter) : AgreeOff id l l := ⟨rfl, fun _ _ => rfl⟩

theorem check (h : AgreeOff id l l') (hclient : client ≠ id) (now : Int) :
    (l'.check client now).1 = (l.check client now).1 ∧
      AgreeOff id (l.check client now).2 (l'.check client now).2 := by
  by_cases hvalid : isClientId client = true
  · have hknown : l'.known client now = l.known client now := by
      unfold known
      rw [h.others client hclient]
    have hleft := changes_check l hvalid now
    have hright := changes_check l' hvalid now
    refine ⟨?_, hright.config.trans (h.config.trans hleft.config.symm), fun other hother => ?_⟩
    · rw [check_of_valid hvalid, check_of_valid hvalid, hknown, h.config]
    · by_cases heq : other = client
      · subst heq
        rw [hleft.client, hright.client, hknown, h.config]
      · rw [hleft.others other heq, hright.others other heq]
        exact h.others other hother
  · rw [check_of_invalid hvalid, check_of_invalid hvalid]
    exact ⟨rfl, h⟩

theorem check_left (h : AgreeOff id l l') (now : Int) : AgreeOff id (l.check id now).2 l' where
  config := h.config.trans (config_answer l ⟨now, .check id⟩).symm
  others := fun other hother => (h.others other hother).trans (check_others l now hother).symm

theorem usage (h : AgreeOff id l l') (client : String) (now : Int) :
    AgreeOff id (l.usage client now).2 (l'.usage client now).2 := by
  have hconfig (m : Limiter) : (m.usage client now).2.config = m.config :=
    config_answer m ⟨now, .usage client⟩
  refine ⟨?_, fun other hother => ?_⟩
  · rw [hconfig, hconfig, h.config]
  · rw [get?_usage, get?_usage, h.others other hother, h.config]

theorem top (h : AgreeOff id l l') (limit : Nat) (now : Int) :
    AgreeOff id (l.top limit now).2 (l'.top limit now).2 := by
  refine ⟨h.config, fun other hother => ?_⟩
  show (l'.clients.map _).get? other = (l.clients.map _).get? other
  rw [Table.get?_map, Table.get?_map, h.others other hother, h.config]

theorem cleanup (h : AgreeOff id l l') (now : Int) :
    AgreeOff id (l.cleanup now).2 (l'.cleanup now).2 := by
  refine ⟨h.config, fun other hother => ?_⟩
  show (l'.clients.filter _).get? other = (l.clients.filter _).get? other
  rw [Table.get?_filter, Table.get?_filter, h.others other hother, h.config]

theorem answer (h : AgreeOff id l l') {c : Call} (hreads : c.request.isCheck = false) :
    AgreeOff id (l.answer c).2 (l'.answer c).2 := by
  obtain ⟨time, request⟩ := c
  cases request with
  | check client => cases hreads
  | usage client => exact h.usage client time
  | top limit => exact h.top limit time
  | cleanup => exact h.cleanup time

end AgreeOff

end Ingress.RateLimit.Limiter
