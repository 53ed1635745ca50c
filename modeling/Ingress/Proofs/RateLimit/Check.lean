import Ingress.Proofs.RateLimit.Window
import Ingress.Proofs.Table
import Ingress.RateLimit.Limiter
import Mathlib

/-!
# What a check leaves behind

* `Client.refused`, `Client.admitted` : a client after a check: a refusal adds one rejection and no
  admission, an admission enters both windows;
* `Changes` : what concerns one client; `changes_refused`, `changes_admitted` : so does a check;
* `check_invalid` : one of a malformed id leaves nothing;
* `usage_check` : to read the usage of a client just after it was refused changes nothing.
-/

namespace Ingress.RateLimit

/-- A window of the client is full. -/
def Admission.isRefusal : Admission → Bool
  | .burstExceeded _ => true
  | .sustainedExceeded _ => true
  | _ => false

namespace Client

variable {c : Client} {cfg : RateLimit.Config} {now : Int}

/-- A client after a refusal: both windows keep what still counts. -/
def refused (c : Client) (cfg : RateLimit.Config) (now : Int) : Client :=
  { burst := prune now cfg.burstWindow c.burst
    sustained := prune now cfg.sustainedWindow c.sustained
    rejections := c.rejections + 1
    lastSeen := now }

/-- A client after an admission: it is the last in both windows. -/
def admitted (c : Client) (cfg : RateLimit.Config) (now : Int) : Client :=
  { burst := prune now cfg.burstWindow c.burst ++ [now]
    sustained := prune now cfg.sustainedWindow c.sustained ++ [now]
    rejections := c.rejections
    lastSeen := now }

theorem check_cases (c : Client) (cfg : RateLimit.Config) (now : Int) :
    ((c.check cfg now).1 = .admitted ∧ (c.check cfg now).2 = c.admitted cfg now) ∨
      ((c.check cfg now).1.isRefusal = true ∧ (c.check cfg now).2 = c.refused cfg now) := by
  unfold check
  dsimp only
  split
  · exact .inr ⟨rfl, rfl⟩
  · split
    · exact .inr ⟨rfl, rfl⟩
    · exact .inl ⟨rfl, rfl⟩

theorem check_admitted (h : (c.check cfg now).1 = .admitted) :
    (c.check cfg now).2 = c.admitted cfg now := by
  rcases c.check_cases cfg now with ⟨_, hclient⟩ | ⟨hrefusal, _⟩
  · exact hclient
  · rw [h] at hrefusal
    cases hrefusal

theorem check_refused (h : (c.check cfg now).1.isRefusal = true) :
    (c.check cfg now).2 = c.refused cfg now := by
  rcases c.check_cases cfg now with ⟨hadmitted, _⟩ | ⟨_, hclient⟩
  · rw [hadmitted] at h
    cases h
  · exact hclient

end Client

namespace Limiter

variable {l : Limiter} {id : String} {now : Int}

/-- What is known of a client at a time: a client without state is one without admissions. -/
def known (l : Limiter) (id : String) (now : Int) : Client := (l.clients.get? id).getD (.fresh now)

theorem check_of_valid (hid : isClientId id = true) :
    l.check id now = (((l.known id now).check l.config now).1,
      { l with clients := l.clients.insert id ((l.known id now).check l.config now).2 }) := by
  unfold check
  rw [if_pos hid]
  rfl

theorem check_of_invalid (hid : ¬ isClientId id = true) : l.check id now = (.invalidClient, l) := by
  unfold check
  rw [if_neg hid]

/-- A check of a malformed id leaves nothing. -/
theorem check_invalid (h : (l.check id now).1 = .invalidClient) : (l.check id now).2 = l := by
  by_cases hid : isClientId id = true
  · rw [check_of_valid hid] at h
    have hcases := (l.known id now).check_cases l.config now
    rw [h] at hcases
    rcases hcases with ⟨hanswer, _⟩ | ⟨hanswer, _⟩ <;> cases hanswer
  · rw [check_of_invalid hid]

/-- From `l` to `l'` a client becomes `c`, and nothing else changes. -/
structure Changes (l : Limiter) (id : String) (c : Client) (l' : Limiter) : Prop where
  config : l'.config = l.config
  client : l'.clients.get? id = some c
  others : ∀ other, other ≠ id → l'.clients.get? other = l.clients.get? other

theorem changes_check (l : Limiter) (hid : isClientId id = true) (now : Int) :
    l.Changes id ((l.known id now).check l.config now).2 (l.check id now).2 := by
  rw [check_of_valid hid]
  exact ⟨rfl, (Table.get?_insert _ _ _ _).trans (if_pos rfl),
    fun other hother => (Table.get?_insert _ _ _ _).trans (if_neg hother)⟩

/-- A check concerns no other client. -/
theorem check_others (l : Limiter) (now : Int) {other : String} (h : other ≠ id) :
    (l.check id now).2.clients.get? other = l.clients.get? other := by
  by_cases hid : isClientId id = true
  · exact (changes_check l hid now).others other h
  · rw [check_of_invalid hid]

theorem changes_refused (h : (l.check id now).1.isRefusal = true) :
    l.Changes id ((l.known id now).refused l.config now) (l.check id now).2 := by
  by_cases hid : isClientId id = true
  · have hchanges := changes_check l hid now
    rw [check_of_valid hid] at h
    rwa [Client.check_refused h] at hchanges
  · rw [check_of_invalid hid] at h
    cases h

/-- The windows of a client that was just refused are those of the time. -/
theorem usage_check (h : (l.check id now).1.isRefusal = true) :
    ((l.check id now).2.usage id now).2 = (l.check id now).2 := by
  have hchanges := changes_refused h
  have hpruned : ((l.known id now).refused l.config now).pruned l.config now =
      (l.known id now).refused l.config now := by
    unfold Client.pruned Client.refused
    dsimp only
    rw [prune_prune le_rfl, prune_prune le_rfl]
  unfold usage
  rw [hchanges.client, hchanges.config]
  dsimp only
  rw [hpruned, Table.insert_of_get? hchanges.client, ← hchanges.config]

end Limiter

end Ingress.RateLimit
