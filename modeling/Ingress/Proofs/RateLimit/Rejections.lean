import Ingress.Proofs.RateLimit.Held
import Mathlib

/-!
# The rejections of a client

A limiter counts the rejections of a client as long as it remembers the client. No admission starts the
count anew, and both windows share it; only a clean-up ends it.

* `Limiter.tally?`, `Limiter.rejections` : the rejections of a client that is remembered, and of any client;
* `rejections_check` : a check of the client that is refused adds one, and no other check does;
* `Remembers` : a client may be forgotten, or its rejections stay; `remembers_answer` : so does a call
  that is not a check.
-/

namespace Ingress.RateLimit

theorem Client.rejections_check (k : Client) (cfg : RateLimit.Config) (now : Int) :
    (k.check cfg now).2.rejections =
      if (k.check cfg now).1.isRefusal = true then k.rejections + 1 else k.rejections := by
  rcases k.check_cases cfg now with ⟨hanswer, hclient⟩ | ⟨hrefusal, hclient⟩
  · rw [hclient, hanswer]
    rfl
  · rw [hclient, if_pos hrefusal]
    rfl

/-- A refusal carries the count with itself in it. -/
theorem Client.check_rejections {k : Client} {cfg : RateLimit.Config} {now : Int}
    (h : (k.check cfg now).1.isRefusal = true) :
    (k.check cfg now).1.rejections = k.rejections + 1 := by
  revert h
  unfold Client.check
  dsimp only
  split
  · exact fun _ => rfl
  · split
    · exact fun _ => rfl
    · exact Bool.noConfusion

namespace Limiter

variable {l l' l'' : Limiter} {id : String}

/-- The rejections of a client, if it is remembered. -/
def tally? (l : Limiter) (id : String) : Option Nat := (l.clients.get? id).map Client.rejections

/-- The rejections of a client, as far as they are remembered. -/
def rejections (l : Limiter) (id : String) : Nat := (l.tally? id).getD 0

theorem rejections_known (l : Limiter) (id : String) (now : Int) :
    (l.known id now).rejections = l.rejections id := by
  unfold known rejections tally?
  cases l.clients.get? id <;> rfl

theorem check_isRefusal_of_invalid (hid : ¬ isClientId id = true) (now : Int) :
    (l.check id now).1.isRefusal = false := by
  rw [check_of_invalid hid]
  rfl

/-- A check of the client that is refused adds one, and no other check does. -/
theorem rejections_check (l : Limiter) (j id : String) (now : Int) :
    (l.check j now).2.rejections id =
      if id = j ∧ (l.check j now).1.isRefusal = true then l.rejections id + 1 else l.rejections id := by
  by_cases hid : id = j
  · subst hid
    by_cases hvalid : isClientId id = true
    · have hclient : (l.check id now).2.rejections id =
          ((l.known id now).check l.config now).2.rejections := by
        unfold rejections tally?
        rw [(changes_check l hvalid now).client]
        rfl
      rw [hclient, Client.rejections_check, rejections_known, check_of_valid hvalid]
      simp only [true_and]
    · rw [check_isRefusal_of_invalid hvalid, check_of_invalid hvalid]
      simp
  · rw [if_neg fun h => hid h.1]
    unfold rejections tally?
    rw [check_others l now hid]

/-- A refusal carries the count with itself in it. -/
theorem check_rejections {now : Int} (h : (l.check id now).1.isRefusal = true) :
    (l.check id now).1.rejections = l.rejections id + 1 := by
  by_cases hvalid : isClientId id = true
  · rw [check_of_valid hvalid] at h ⊢
    exact (Client.check_rejections h).trans (congrArg (· + 1) (rejections_known l id now))
  · rw [check_isRefusal_of_invalid hvalid] at h
    cases h

/-! ## What is forgotten -/

/-- From `l` to `l'` the client is forgotten, or its rejections stay. -/
def Remembers (id : String) (l l' : Limiter) : Prop := l'.tally? id = none ∨ l'.tally? id = l.tally? id

theorem Remembers.refl (id : String) (l : Limiter) : Remembers id l l := .inr rfl

theorem Remembers.trans (h : Remembers id l l') (h' : Remembers id l' l'') : Remembers id l l'' := by
  rcases h' with hnone | hsame
  · exact .inl hnone
  · rcases h with hnone | hsame'
    · exact .inl (hsame.trans hnone)
    · exact .inr (hsame.trans hsame')

/-- A client that is not forgotten has as many rejections as before. -/
theorem Remembers.rejections (h : Remembers id l l')
    (hstays : l.clients.contains id = true → l'.clients.contains id = true) :
    l'.rejections id = l.rejections id := by
  have hheld (m : Limiter) : m.clients.contains id = (m.tally? id).isSome := Option.isSome_map.symm
  rcases h with hnone | hsame
  · rw [hheld, hheld, hnone] at hstays
    have hbefore : l.tally? id = none :=
      Option.not_isSome_iff_eq_none.1 fun hsome => Bool.noConfusion (hstays hsome)
    unfold Limiter.rejections
    rw [hnone, hbefore]
  · exact congrArg (Option.getD · 0) hsame

/-- Reading prunes windows, and a clean-up forgets a client with all it has. -/
theorem remembers_answer (l : Limiter) {c : Call} (hreads : c.request.isCheck = false) (id : String) :
    Remembers id l (l.answer c).2 := by
  obtain ⟨time, request⟩ := c
  have hpruned (k? : Option Client) :
      (k?.map fun k => k.pruned l.config time).map Client.rejections = k?.map Client.rejections := by
    cases k? <;> rfl
  unfold Remembers tally?
  rw [get?_answer]
  cases request with
  | check j => cases hreads
  | usage j =>
    refine .inr ?_
    unfold Call.leaves
    dsimp only
    split
    · exact hpruned _
    · rfl
  | top limit => exact .inr (hpruned _)
  | cleanup =>
    unfold Call.leaves
    dsimp only
    cases l.clients.get? id with
    | none => exact .inl rfl
    | some k =>
      rw [Option.filter_some]
      split
      · exact .inr rfl
      · exact .inl rfl

end Limiter

end Ingress.RateLimit
