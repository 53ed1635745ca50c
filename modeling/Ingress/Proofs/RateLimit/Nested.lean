import Ingress.Proofs.RateLimit.Held
import Ingress.Proofs.RateLimit.Refinement
import Mathlib

/-!
# Nested windows under any clock

Clocks of concurrent sessions may disagree, so the times in a window need not be in order, and pruning stops
at the first admission that is still recent, whatever comes after it. But an admission that leaves the
sustained window is old for the burst window, too, so the burst window is the end of the sustained one at any
time, and no window outgrows its limit.

* `prune_suffix` : pruning keeps one window the end of another;
* `Client.Nested` : the windows of a client, `Nested.check`, `Nested.leaves` : after a check, and any call;
* `exec_nested` : after any calls at any times, and in every usage that they report.
-/

namespace Ingress.RateLimit

theorem prune_suffix {short long : Nat} (h : short ≤ long) (now : Int) {burst sustained : List Int}
    (hsuffix : burst <:+ sustained) : prune now short burst <:+ prune now long sustained := by
  unfold prune
  induction sustained generalizing burst with
  | nil => rw [List.suffix_nil.1 hsuffix]; exact List.suffix_rfl
  | cons t rest ih =>
    by_cases hold : long ≤ span t now
    · -- `t` leaves the longer window; if it is the oldest of the shorter one as well, it leaves that, too
      rw [List.dropWhile_cons_of_pos (by simpa using hold)]
      rcases List.suffix_cons_iff.1 hsuffix with rfl | hrest
      · rw [List.dropWhile_cons_of_pos (by simpa using h.trans hold)]
        exact ih List.suffix_rfl
      · exact ih hrest
    · rw [List.dropWhile_cons_of_neg (by simpa using hold)]
      exact (List.dropWhile_suffix _).trans hsuffix

theorem length_prune_le (now : Int) (width : Nat) (window : List Int) :
    (prune now width window).length ≤ window.length := (List.dropWhile_suffix _).length_le

namespace Client

/-- The burst window is the end of the sustained one, and neither holds more than its limit. -/
structure Nested (cfg : RateLimit.Config) (c : Client) : Prop where
  suffix : c.burst <:+ c.sustained
  burst_le : c.burst.length ≤ cfg.burstLimit
  sustained_le : c.sustained.length ≤ cfg.sustainedLimit

theorem room_of_admitted {c : Client} {cfg : RateLimit.Config} {now : Int}
    (h : (c.check cfg now).1 = .admitted) :
    (prune now cfg.burstWindow c.burst).length < cfg.burstLimit ∧
      (prune now cfg.sustainedWindow c.sustained).length < cfg.sustainedLimit := by
  unfold check at h
  dsimp only [pruned] at h
  split at h
  next => cases h
  next =>
    split at h
    next => cases h
    next => omega

namespace Nested

variable {cfg : RateLimit.Config} {c : Client}

theorem fresh (cfg : RateLimit.Config) (now : Int) : (Client.fresh now).Nested cfg :=
  ⟨List.suffix_rfl, Nat.zero_le _, Nat.zero_le _⟩

variable (hwindows : cfg.burstWindow ≤ cfg.sustainedWindow)
include hwindows

theorem pruned (h : c.Nested cfg) (now : Int) : (c.pruned cfg now).Nested cfg where
  suffix := prune_suffix hwindows now h.suffix
  burst_le := (length_prune_le _ _ _).trans h.burst_le
  sustained_le := (length_prune_le _ _ _).trans h.sustained_le

theorem check (h : c.Nested cfg) (now : Int) : (c.check cfg now).2.Nested cfg := by
  have hpruned := h.pruned hwindows now
  rcases c.check_cases cfg now with ⟨hadmitted, heq⟩ | ⟨-, heq⟩
  · obtain ⟨hburst, hsustained⟩ := room_of_admitted hadmitted
    obtain ⟨older, holder⟩ := hpruned.suffix
    rw [heq]
    refine ⟨⟨older, ?_⟩, ?_, ?_⟩
    · show older ++ (prune now cfg.burstWindow c.burst ++ [now]) = _
      rw [← List.append_assoc]
      exact congrArg (· ++ [now]) holder
    · simpa [Client.admitted] using hburst
    · simpa [Client.admitted] using hsustained
  · rw [heq]
    exact ⟨hpruned.suffix, hpruned.burst_le, hpruned.sustained_le⟩

/-- Whatever a call leaves of a client is nested. -/
theorem leaves {id : String} {client? : Option Client} (h : ∀ k, client? = some k → k.Nested cfg)
    (c : Call) : ∀ k, c.leaves cfg id client? = some k → k.Nested cfg := by
  obtain ⟨now, request⟩ := c
  have hpruned : ∀ k, (client?.map fun k => k.pruned cfg now) = some k → k.Nested cfg := by
    intro k hk
    obtain ⟨k, hclient, rfl⟩ := Option.map_eq_some_iff.1 hk
    exact (h k hclient).pruned hwindows now
  unfold Call.leaves
  cases request with
  | check j =>
    dsimp only
    split
    · rintro _ ⟨⟩
      cases hclient : client? with
      | none => exact (fresh cfg now).check hwindows now
      | some k => exact (h k hclient).check hwindows now
    · exact h
  | usage j =>
    dsimp only
    split
    · exact hpruned
    · exact h
  | top limit => exact hpruned
  | cleanup => exact fun k hk => h k (Option.filter_eq_some_iff.1 hk).1

end Nested

end Client

/-! ## Reported usage -/

def Answer.usages : Answer → List Usage
  | .usage u => u.toList
  | .top reports => reports.map ClientReport.usage
  | _ => []

/-- A reported usage is that of a client that holds state, as of the time of the call. -/
theorem Limiter.mem_usages {l : Limiter} {c : Call} {u : Usage} (h : u ∈ (l.answer c).1.usages) :
    ∃ id k, l.clients.get? id = some k ∧ u = (k.pruned l.config c.time).usage := by
  obtain ⟨time, request⟩ := c
  cases request with
  | usage id =>
    obtain ⟨k, hk, hu⟩ := Limiter.usage_eq_some (Option.mem_toList.1 h)
    exact ⟨id, k, hk, hu⟩
  | top limit =>
    obtain ⟨r, hr, rfl⟩ := List.mem_map.1 h
    obtain ⟨k, hk, hu⟩ := Limiter.mem_top hr
    exact ⟨r.client, k, hk, hu⟩
  | check | cleanup => cases h

/-- **The windows of every client are nested and within their limits**, after any calls at any times, also
when the clock goes back; so no reported usage has more admissions in the burst window than in the sustained
one. -/
theorem exec_nested (cfg : RateLimit.Config) (hwindows : cfg.burstWindow ≤ cfg.sustainedWindow)
    (calls : List Call) :
    (∀ id c, ((Limiter.ofConfig cfg).exec calls).2.clients.get? id = some c → c.Nested cfg) ∧
      ∀ x ∈ ((Limiter.ofConfig cfg).exec calls).1, ∀ u ∈ x.answer.usages,
        u.burst ≤ u.sustained ∧ u.burst ≤ cfg.burstLimit ∧ u.sustained ≤ cfg.sustainedLimit := by
  have hnested : ∀ calls id c, ((Limiter.ofConfig cfg).exec calls).2.clients.get? id = some c →
      c.Nested cfg := fun calls id =>
    Limiter.holds_exec (I := fun _ client? => ∀ k, client? = some k → k.Nested cfg) nofun
      (fun _ c _ h => Client.Nested.leaves hwindows h c) calls
  refine ⟨hnested calls, fun x hx u hu => ?_⟩
  obtain ⟨before, hanswer⟩ := Limiter.mem_exec hx
  rw [hanswer] at hu
  obtain ⟨id, k, hk, rfl⟩ := Limiter.mem_usages hu
  rw [show ((Limiter.ofConfig cfg).exec before).2.config = cfg from Limiter.config_exec before _]
  have hpruned := (hnested before id k hk).pruned hwindows x.call.time
  exact ⟨hpruned.suffix.length_le, hpruned.burst_le, hpruned.sustained_le⟩

/-- Two admissions in 10 milliseconds, three in 100. -/
def paired : RateLimit.Config :=
  { burstLimit := 2, burstWindow := 10, sustainedLimit := 3, sustainedWindow := 100, cleanupInterval := 1 }

/-- The clock goes back between the first two checks, so that at 55 the burst window is held full by its
first admission, although the second one is old by then. -/
def unevenCalls : List Call :=
  [⟨50, .check "a"⟩, ⟨40, .check "a"⟩, ⟨55, .check "a"⟩, ⟨60, .check "a"⟩, ⟨30, .top 1⟩]

theorem unevenCalls_nested : paired.burstWindow ≤ paired.sustainedWindow ∧
    ((Limiter.ofConfig paired).exec unevenCalls).2.clients.get? "a" = some ⟨[60], [50, 40, 60], 1, 60⟩ ∧
    Client.Nested paired ⟨[60], [50, 40, 60], 1, 60⟩ := by
  have hwindows : paired.burstWindow ≤ paired.sustainedWindow := by decide
  have hclient : ((Limiter.ofConfig paired).exec unevenCalls).2.clients.get? "a" =
      some ⟨[60], [50, 40, 60], 1, 60⟩ := by decide +kernel
  exact ⟨hwindows, hclient, (exec_nested paired hwindows unevenCalls).1 "a" _ hclient⟩

end Ingress.RateLimit
