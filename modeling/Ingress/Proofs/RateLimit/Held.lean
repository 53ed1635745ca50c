import Ingress.Proofs.RateLimit.Separation
import Mathlib

/-!
# Clients that hold state

No call makes the state of a client depend on that of another one, so a run can be followed for a single
client: a check renews it, reading prunes its windows, and a clean-up forgets it once it is idle.

* `Call.leaves`, `get?_answer` : what a call leaves of a client;
* `holds_exec`, `mem_exec` : what every call keeps of a client, every run keeps; an exchange of a run is with
  the limiter that the calls before it have left;
* `lastCheck?`, `Remembered` : the state of a client against its checks;
* `exec_reaps` : who holds state after a clean-up.
-/

namespace Ingress.RateLimit

/-- What a call leaves of a client, if it holds state before. -/
def Call.leaves (cfg : RateLimit.Config) (id : String) (c : Call) (client? : Option Client) :
    Option Client :=
  match c.request with
  | .check j =>
    if id = j ∧ isClientId id = true then some ((client?.getD (.fresh c.time)).check cfg c.time).2
    else client?
  | .usage j => if id = j then client?.map fun k => k.pruned cfg c.time else client?
  | .top _ => client?.map fun k => k.pruned cfg c.time
  | .cleanup => client?.filter fun k => decide (span k.lastSeen c.time < cfg.sustainedWindow)

namespace Limiter

theorem get?_check (l : Limiter) (j id : String) (now : Int) :
    (l.check j now).2.clients.get? id =
      if id = j ∧ isClientId id = true then some ((l.known id now).check l.config now).2
      else l.clients.get? id := by
  by_cases hid : id = j
  · subst hid
    by_cases hvalid : isClientId id = true
    · rw [if_pos ⟨rfl, hvalid⟩]
      exact (changes_check l hvalid now).client
    · rw [if_neg fun h => hvalid h.2, check_of_invalid hvalid]
  · rw [if_neg fun h => hid h.1]
    exact check_others l now hid

theorem get?_answer (l : Limiter) (c : Call) (id : String) :
    (l.answer c).2.clients.get? id = c.leaves l.config id (l.clients.get? id) := by
  obtain ⟨time, request⟩ := c
  cases request with
  | check j => exact get?_check l j id time
  | usage j => exact get?_usage l j id time
  | top limit => exact Table.get?_map _ _ id
  | cleanup => exact Table.get?_filter _ _ id

/-! ## Runs -/

theorem exec_concat (l : Limiter) (calls : List Call) (c : Call) :
    (l.exec (calls ++ [c])).2 = ((l.exec calls).2.answer c).2 := by
  rw [exec_append]
  rfl

/-- What every call keeps of a client, every run keeps. -/
theorem holds_exec {cfg : RateLimit.Config} {id : String} {I : List Call → Option Client → Prop}
    (hbegin : I [] none)
    (hcall : ∀ calls c client?, I calls client? → I (calls ++ [c]) (c.leaves cfg id client?))
    (calls : List Call) : I calls (((ofConfig cfg).exec calls).2.clients.get? id) := by
  induction calls using List.reverseRecOn with
  | nil => exact hbegin
  | append_singleton calls c ih =>
    rw [exec_concat, get?_answer, config_exec]
    exact hcall calls c _ ih

/-- An exchange of a run is with the limiter that the calls before it have left. -/
theorem mem_exec {calls : List Call} {x : Exchange} : ∀ {l : Limiter}, x ∈ (l.exec calls).1 →
    ∃ before, x.answer = ((l.exec before).2.answer x.call).1 := by
  induction calls with
  | nil => exact fun h => absurd h List.not_mem_nil
  | cons c rest ih =>
    intro l h
    rcases List.mem_cons.1 h with rfl | h
    · exact ⟨[], rfl⟩
    · obtain ⟨before, hx⟩ := ih h
      exact ⟨c :: before, hx⟩

end Limiter

/-! ## The last check -/

def lastCheck? (id : String) (calls : List Call) : Option Int := (checkTimes id calls).getLast?

theorem lastCheck?_concat (id : String) (calls : List Call) (c : Call) :
    lastCheck? id (calls ++ [c]) = (c.checkTime? id).or (lastCheck? id calls) := by
  unfold lastCheck? checkTimes
  rw [List.filterMap_append, List.getLast?_append]
  cases h : c.checkTime? id <;> simp [h]

theorem lastCheck?_mem {id : String} {calls : List Call} {t : Int} (h : lastCheck? id calls = some t) :
    ∃ c ∈ calls, c.time = t := by
  obtain ⟨c, hc, ht⟩ := List.mem_filterMap.1 (List.mem_of_getLast? h)
  refine ⟨c, hc, ?_⟩
  rcases c.checkTime?_cases id with hnone | hsome
  · rw [hnone] at ht
    cases ht
  · exact Option.some.inj (hsome.symm.trans ht)

/-- A client that holds state was last seen when it was last checked, and one that holds none has since then
been idle for a sustained window. -/
structure Remembered (cfg : RateLimit.Config) (id : String) (calls : List Call) (client? : Option Client) :
    Prop where
  held : ∀ k, client? = some k → isClientId id = true ∧ lastCheck? id calls = some k.lastSeen
  gone : client? = none → isClientId id = true → ∀ t, lastCheck? id calls = some t →
    ∃ c ∈ calls, t + cfg.sustainedWindow ≤ c.time

namespace Remembered

variable {cfg : RateLimit.Config} {id : String} {calls : List Call} {client? : Option Client} {c : Call}

/-- A check of the client renews it. -/
theorem checked (hvalid : isClientId id = true) (now : Int) (k : Client) :
    Remembered cfg id (calls ++ [⟨now, .check id⟩]) (some (k.check cfg now).2) := by
  have hseen : (k.check cfg now).2.lastSeen = now := by
    rcases k.check_cases cfg now with ⟨_, heq⟩ | ⟨_, heq⟩ <;> rw [heq] <;> rfl
  have hlast : lastCheck? id (calls ++ [⟨now, .check id⟩]) = some now := by
    rw [lastCheck?_concat, show Call.checkTime? id ⟨now, .check id⟩ = some now from if_pos rfl]
    rfl
  refine ⟨?_, fun h => by cases h⟩
  rintro _ ⟨⟩
  exact ⟨hvalid, hlast.trans (congrArg some hseen.symm)⟩

/-- Other calls leave the client as it was, but for its windows. -/
theorem other (h : Remembered cfg id calls client?) (hc : c.checkTime? id = none)
    (f : Client → Client) (hf : ∀ k, (f k).lastSeen = k.lastSeen) :
    Remembered cfg id (calls ++ [c]) (client?.map f) := by
  have hlast : lastCheck? id (calls ++ [c]) = lastCheck? id calls := by
    rw [lastCheck?_concat, hc]
    rfl
  refine ⟨fun k hk => ?_, fun hnone hvalid t ht => ?_⟩
  · obtain ⟨k, hclient, rfl⟩ := Option.map_eq_some_iff.1 hk
    rw [hlast, hf]
    exact h.held k hclient
  · rw [Option.map_eq_none_iff] at hnone
    obtain ⟨c', hmem, hidle⟩ := h.gone hnone hvalid t (hlast.symm.trans ht)
    exact ⟨c', List.mem_append_left _ hmem, hidle⟩

theorem unchanged (h : Remembered cfg id calls client?) (hc : c.checkTime? id = none) :
    Remembered cfg id (calls ++ [c]) client? := by
  have hleft := h.other hc (fun k => k) fun _ => rfl
  rwa [Option.map_id'] at hleft

/-- A clean-up forgets the client if it is idle. -/
theorem cleaned (h : Remembered cfg id calls client?) {now : Int} (hnow : ∀ c ∈ calls, c.time ≤ now) :
    Remembered cfg id (calls ++ [⟨now, .cleanup⟩])
      (client?.filter fun k => decide (span k.lastSeen now < cfg.sustainedWindow)) := by
  have hsame := h.unchanged (c := ⟨now, .cleanup⟩) rfl
  refine ⟨fun k hk => hsame.held k (Option.filter_eq_some_iff.1 hk).1, fun hnone hvalid t ht => ?_⟩
  cases hclient : client? with
  | none => exact hsame.gone hclient hvalid t ht
  | some k =>
    have hseen : t = k.lastSeen := Option.some.inj (ht.symm.trans (hsame.held k hclient).2)
    obtain ⟨c, hc, harrived⟩ := lastCheck?_mem (h.held k hclient).2
    have hle := hnow c hc
    have hidle : ¬ span k.lastSeen now < cfg.sustainedWindow := by
      intro hbusy
      rw [hclient, Option.filter_some, if_pos (decide_eq_true hbusy)] at hnone
      cases hnone
    unfold span at hidle
    exact ⟨⟨now, .cleanup⟩, List.mem_append_right _ List.mem_cons_self, by dsimp only; omega⟩

theorem call (h : Remembered cfg id calls client?) (hc : ∀ c' ∈ calls, c'.time ≤ c.time) :
    Remembered cfg id (calls ++ [c]) (c.leaves cfg id client?) := by
  obtain ⟨now, request⟩ := c
  cases request with
  | check j =>
    unfold Call.leaves
    dsimp only
    split
    next hj =>
      obtain ⟨rfl, hvalid⟩ := hj
      exact checked hvalid now _
    next hj =>
      by_cases hid : id = j
      · have hmalformed : ¬ isClientId id = true := fun hvalid => hj ⟨hid, hvalid⟩
        exact ⟨fun k hk => absurd (h.held k hk).1 hmalformed, fun _ hvalid => absurd hvalid hmalformed⟩
      · exact h.unchanged (if_neg fun heq => hid (by cases heq; rfl))
  | usage j =>
    unfold Call.leaves
    dsimp only
    split
    · exact h.other rfl _ fun _ => rfl
    · exact h.unchanged rfl
  | top limit => exact h.other rfl _ fun _ => rfl
  | cleanup => exact h.cleaned hc

/-- After a clean-up a client holds state if its last check is less than a sustained window ago. -/
theorem isSome_cleaned (h : Remembered cfg id calls client?) {now : Int} (hnow : ∀ c ∈ calls, c.time ≤ now) :
    (client?.filter fun k => decide (span k.lastSeen now < cfg.sustainedWindow)).isSome = true ↔
      isClientId id = true ∧ ∃ t, lastCheck? id calls = some t ∧ now - t < cfg.sustainedWindow := by
  cases hclient : client? with
  | none =>
    refine iff_of_false nofun ?_
    rintro ⟨hvalid, t, ht, hrecent⟩
    obtain ⟨c, hc, hidle⟩ := h.gone hclient hvalid t ht
    have hle := hnow c hc
    omega
  | some k =>
    obtain ⟨hvalid, hlast⟩ := h.held k hclient
    obtain ⟨c, hc, harrived⟩ := lastCheck?_mem hlast
    have hle := hnow c hc
    have hspan : span k.lastSeen now < cfg.sustainedWindow ↔ now - k.lastSeen < cfg.sustainedWindow := by
      unfold span
      omega
    simp [hvalid, hlast, hspan]

end Remembered

theorem remembered_exec (cfg : RateLimit.Config) (id : String) {calls : List Call} (htimes : Timely calls) :
    Remembered cfg id calls (((Limiter.ofConfig cfg).exec calls).2.clients.get? id) := by
  refine Limiter.holds_exec (I := fun calls client? => Timely calls → Remembered cfg id calls client?)
    (fun _ => ⟨nofun, nofun⟩) (fun calls c client? h htimes => ?_) calls htimes
  unfold Timely at htimes
  rw [List.map_append, List.pairwise_append] at htimes
  obtain ⟨hbefore, -, hlast⟩ := htimes
  exact (h hbefore).call fun c' hc' =>
    hlast _ (List.mem_map_of_mem hc') _ (List.mem_singleton_self _)

/-! ## Clean-ups -/

/-- What a clean-up of `l` leaves after some calls, and what it says. -/
structure Reaps (l : Limiter) (calls : List Call) (now : Int) : Prop where
  held : ∀ id, (l.cleanup now).2.clients.contains id = true ↔
    isClientId id = true ∧ ∃ t, lastCheck? id calls = some t ∧ now - t < l.config.sustainedWindow
  count : (l.cleanup now).1 + (l.cleanup now).2.count = l.count
  proper : ∀ id, l.clients.contains id = true → isClientId id = true

/-- **A clean-up leaves exactly the clients that were checked within the last sustained window**, whatever
the checks were answered and whatever was read in between, and says how many are gone; malformed ids never
hold state. -/
theorem exec_reaps (cfg : RateLimit.Config) {calls : List Call} (htimes : Timely calls) {now : Int}
    (hnow : ∀ c ∈ calls, c.time ≤ now) : Reaps ((Limiter.ofConfig cfg).exec calls).2 calls now := by
  have hremembered := fun id => remembered_exec cfg id htimes
  have hconfig : ((Limiter.ofConfig cfg).exec calls).2.config = cfg := Limiter.config_exec calls _
  generalize ((Limiter.ofConfig cfg).exec calls).2 = l at *
  refine ⟨fun id => ?_, ?_, fun id hheld => ?_⟩
  · unfold Limiter.cleanup Table.contains
    rw [Table.get?_filter, hconfig]
    exact (hremembered id).isSome_cleaned hnow
  · have hle : (l.cleanup now).2.count ≤ l.count := List.length_filter_le _ _
    exact Nat.sub_add_cancel hle
  · obtain ⟨k, hk⟩ := Option.isSome_iff_exists.1 hheld
    exact ((hremembered id).held k hk).1

/-- Two clients and a malformed id. One client is kept by a check that is refused; the other is read but not
checked, is forgotten, and comes back. -/
def sampleVisits : List Call :=
  [⟨0, .check "a"⟩, ⟨0, .check "b"⟩, ⟨5, .check "no id"⟩, ⟨50, .check "a"⟩, ⟨55, .check "a"⟩,
    ⟨90, .usage "b"⟩, ⟨99, .top 5⟩, ⟨100, .cleanup⟩, ⟨120, .check "b"⟩]

theorem sampleVisits_reaps :
    Timely sampleVisits ∧ (∀ c ∈ sampleVisits, c.time ≤ 155) ∧
      let cleaned := ((Limiter.ofConfig tight).exec sampleVisits).2.cleanup 155
      cleaned.2.clients.contains "a" = false ∧ cleaned.2.clients.contains "b" = true ∧
        cleaned.1 + cleaned.2.count = 2 := by
  have htimes : Timely sampleVisits := by decide
  have hnow : ∀ c ∈ sampleVisits, c.time ≤ 155 := by decide
  have hreaps := exec_reaps tight htimes hnow
  have hcount : ((Limiter.ofConfig tight).exec sampleVisits).2.count = 2 := by decide +kernel
  have hfirst : lastCheck? "a" sampleVisits = some 55 := by decide
  refine ⟨htimes, hnow, ?_, ?_, hreaps.count.trans hcount⟩
  · rw [← Bool.not_eq_true, hreaps.held, hfirst]
    rintro ⟨-, _, ⟨⟩, hrecent⟩
    exact absurd hrecent (by decide)
  · exact (hreaps.held "b").2 ⟨by decide +kernel, 120, by decide, by decide⟩

end Ingress.RateLimit
