import Mathlib
import Ingress.Proofs.RateLimit.Ranking
import Ingress.Proofs.RateLimit.Tracking

/-!
# The limiter refines the naive one

* `Refines` : a limiter answers at a time as the naive limiter does after the same admissions;
* `exec_refines` : it does so after every run, and the verdicts of a client over the run are those
  of its own checks alone.

So neither pruning nor reading nor reaping is visible to a later check, and no client can tell
whether there are others.
-/

namespace Ingress.RateLimit

/-- A limiter answers at a time as the naive limiter does after the admissions of the exchanges so
far: `check`, the kind of a check; `held`, a usage is reported of the clients that hold state, and of no
others; `usage`, its counts; `listed`, a listing with room for all clients leaves none of them out; `top`,
the counts of what is listed. -/
structure Refines (cfg : RateLimit.Config) (l : Limiter) (exchanges : List Exchange) (now : Int) :
    Prop where
  check : ∀ id, isClientId id = true →
    (l.check id now).1.verdict? = some (Naive.verdict cfg (admissions id exchanges) now)
  held : ∀ id, (l.usage id now).1.isSome = l.clients.contains id
  usage : ∀ id u, (l.usage id now).1 = some u →
    u.burst = Naive.recent cfg.burstWindow (admissions id exchanges) now ∧
      u.sustained = Naive.recent cfg.sustainedWindow (admissions id exchanges) now
  listed : ∀ id, l.clients.contains id = true → ∀ limit, l.count ≤ limit →
    ∃ r ∈ (l.top limit now).1, r.client = id
  top : ∀ limit, ∀ r ∈ (l.top limit now).1,
    r.usage.burst = Naive.recent cfg.burstWindow (admissions r.client exchanges) now ∧
      r.usage.sustained = Naive.recent cfg.sustainedWindow (admissions r.client exchanges) now

theorem Client.Tracks.usage {cfg : RateLimit.Config} {past : List Int} {c : Client} {now : Int}
    (h : c.Tracks cfg past now) :
    (c.pruned cfg now).usage.burst = Naive.recent cfg.burstWindow past now ∧
      (c.pruned cfg now).usage.sustained = Naive.recent cfg.sustainedWindow past now :=
  ⟨h.burst.length_prune, h.sustained.length_prune⟩

theorem Limiter.usage_eq_some {l : Limiter} {id : String} {now : Int} {u : Usage}
    (h : (l.usage id now).1 = some u) :
    ∃ c, l.clients.get? id = some c ∧ u = (c.pruned l.config now).usage := by
  unfold Limiter.usage at h
  split at h
  next => cases h
  next c hc => exact ⟨c, hc, (Option.some_inj.1 h).symm⟩

theorem Limiter.mem_top {l : Limiter} {limit : Nat} {now : Int} {r : ClientReport}
    (h : r ∈ (l.top limit now).1) :
    ∃ c, l.clients.get? r.client = some c ∧ r.usage = (c.pruned l.config now).usage := by
  have hmem := List.mem_mergeSort.1 (List.mem_of_mem_take h)
  obtain ⟨e, he, rfl⟩ := List.mem_map.1 hmem
  obtain ⟨e, hentry, rfl⟩ := List.mem_map.1 he
  exact ⟨e.2, Table.get?_of_mem hentry, rfl⟩

theorem Limiter.isSome_usage (l : Limiter) (id : String) (now : Int) :
    (l.usage id now).1.isSome = l.clients.contains id := by
  rw [fst_usage, Option.isSome_map]
  rfl

/-- Whoever holds state is in a listing with room for all clients. -/
theorem Limiter.exists_mem_top {l : Limiter} {id : String} (hid : l.clients.contains id = true)
    {limit : Nat} (hlimit : l.count ≤ limit) (now : Int) :
    ∃ r ∈ (l.top limit now).1, r.client = id := by
  have hranks : Ranks l now (l.ranking now) := ranks_mergeSort (.refl _)
  rw [← l.isSome_usage id now] at hid
  obtain ⟨u, hu⟩ := Option.isSome_iff_exists.1 hid
  refine ⟨⟨id, u⟩, ?_, rfl⟩
  rw [top_eq, List.take_of_length_le (hranks.length.trans_le hlimit)]
  exact (hranks.members id u).2 hu

theorem Limiter.Tracks.refines {l : Limiter} {exchanges : List Exchange} {now : Int}
    (h : l.Tracks (fun id => admissions id exchanges) now)
    (hwindows : l.config.burstWindow ≤ l.config.sustainedWindow) :
    Refines l.config l exchanges now := by
  refine ⟨fun id hid => h.verdict hwindows hid, fun id => l.isSome_usage id now, fun id u hu => ?_,
    fun id hid limit hlimit => l.exists_mem_top hid hlimit now, fun limit r hr => ?_⟩
  · obtain ⟨c, hc, rfl⟩ := Limiter.usage_eq_some hu
    exact (h.held id c hc).usage
  · obtain ⟨c, hc, husage⟩ := Limiter.mem_top hr
    rw [husage]
    exact (h.held r.client c hc).usage

/-- **The limiter refines the naive limiter**, after any calls at times that do not go back; and
over the run the verdicts of a client are those of the naive limiter on its own checks. -/
theorem exec_refines (cfg : RateLimit.Config) (hwindows : cfg.burstWindow ≤ cfg.sustainedWindow)
    (calls : List Call) (htimes : Timely calls) (now : Int) (hnow : ∀ c ∈ calls, c.time ≤ now) :
    Refines cfg ((Limiter.ofConfig cfg).exec calls).2 ((Limiter.ofConfig cfg).exec calls).1 now ∧
      ∀ id, isClientId id = true →
        verdicts id ((Limiter.ofConfig cfg).exec calls).1
          = Naive.verdicts cfg [] (checkTimes id calls) := by
  obtain ⟨start, hstart⟩ := htimes.between hnow
  obtain ⟨htracks, hids⟩ := (Limiter.Tracks.ofConfig cfg start).exec calls hwindows hstart
  refine ⟨?_, fun id hid => (hids id hid).2⟩
  have hconfig : ((Limiter.ofConfig cfg).exec calls).2.config = cfg := Limiter.config_exec calls _
  have hrefines := htracks.refines (by rw [hconfig]; exact hwindows)
  rwa [hconfig] at hrefines

theorem sampleCalls_refines :
    verdicts "a" ((Limiter.ofConfig tight).exec sampleCalls).1
        = [.admitted, .burstExceeded, .admitted, .sustainedExceeded] ∧
      (((Limiter.ofConfig tight).exec sampleCalls).2.check "a" 120).1.verdict? = some .admitted ∧
      ∃ u, (((Limiter.ofConfig tight).exec (sampleCalls.take 6)).2.usage "a" 20).1 = some u ∧
        u.burst = 0 ∧ u.sustained = 2 := by
  have h := exec_refines tight (by decide) sampleCalls (by decide) 120 (by decide)
  -- two calls before the end, the client has yet to be forgotten
  have hearly := (exec_refines tight (by decide) (sampleCalls.take 6) (by decide) 20 (by decide)).1
  obtain ⟨u, hu⟩ := Option.isSome_iff_exists.1 ((hearly.held "a").trans (by decide +kernel))
  obtain ⟨hburst, hsustained⟩ := hearly.usage "a" u hu
  refine ⟨(h.2 "a" (by decide +kernel)).trans (by decide +kernel),
    (h.1.check "a" (by decide +kernel)).trans (by decide +kernel), u, hu, ?_, ?_⟩
  · exact hburst.trans (by decide +kernel)
  · exact hsustained.trans (by decide +kernel)

end Ingress.RateLimit
