import Mathlib
import Ingress.RateLimit.Client

/-!
# The naive limiter

The naive limiter keeps every admission of a client forever, and counts those that are less than a
window old.

* `Verdict` : the kind of an answer, with `Admission.verdict?`;
* `Naive.verdict`, `Naive.record` : a check against a history, and the history after it;
* `Naive.admissions`, `Naive.verdicts` : checks one after the other;
* `Naive.Bounded`, `Kept.admissions` : no interval as long as a window holds more admissions than
  the window allows.
-/

namespace Ingress.RateLimit

inductive Verdict where
  | admitted
  | burstExceeded
  | sustainedExceeded
deriving DecidableEq, Repr

/-- The kind of an answer; a malformed id has none. -/
def Admission.verdict? : Admission → Option Verdict
  | .admitted => some .admitted
  | .burstExceeded _ => some .burstExceeded
  | .sustainedExceeded _ => some .sustainedExceeded
  | .invalidClient => none

theorem Admission.verdict?_eq_admitted {a : Admission} :
    a.verdict? = some .admitted ↔ a = .admitted := by
  cases a <;> simp [Admission.verdict?]

/-- The number of admissions in the interval of a width that begins at `start`. -/
def within (width : Nat) (past : List Int) (start : Int) : Nat :=
  past.countP fun t => decide (start ≤ t ∧ t < start + width)

theorem le_of_mem_push {past : List Int} {now : Int} (h : ∀ t ∈ past, t ≤ now) :
    ∀ t ∈ past ++ [now], t ≤ now := by
  intro t ht
  rcases List.mem_append.1 ht with hold | hnew
  · exact h t hold
  · exact (List.mem_singleton.1 hnew).le

namespace Naive

def recent (width : Nat) (past : List Int) (now : Int) : Nat :=
  past.countP fun t => now - t < width

/-- A check against a history, the burst window first. -/
def verdict (cfg : RateLimit.Config) (past : List Int) (now : Int) : Verdict :=
  if cfg.burstLimit ≤ recent cfg.burstWindow past now then .burstExceeded
  else if cfg.sustainedLimit ≤ recent cfg.sustainedWindow past now then .sustainedExceeded
  else .admitted

def record (cfg : RateLimit.Config) (past : List Int) (now : Int) : List Int :=
  if verdict cfg past now = .admitted then past ++ [now] else past

def admissions (cfg : RateLimit.Config) (past times : List Int) : List Int :=
  times.foldl (record cfg) past

def verdicts (cfg : RateLimit.Config) (past : List Int) : List Int → List Verdict
  | [] => []
  | now :: rest => verdict cfg past now :: verdicts cfg (record cfg past now) rest

theorem verdict_admitted {cfg : RateLimit.Config} {past : List Int} {now : Int}
    (h : verdict cfg past now = .admitted) :
    recent cfg.burstWindow past now < cfg.burstLimit ∧
      recent cfg.sustainedWindow past now < cfg.sustainedLimit := by
  unfold verdict at h
  split at h
  next => cases h
  next hburst =>
    split at h
    next => cases h
    next hsustained => exact ⟨by omega, by omega⟩

theorem le_of_mem_record {cfg : RateLimit.Config} {past : List Int} {now : Int}
    (h : ∀ t ∈ past, t ≤ now) : ∀ t ∈ record cfg past now, t ≤ now := by
  unfold record
  split
  · exact le_of_mem_push h
  · exact h

/-! ## The bound -/

/-- No interval as long as the window holds more admissions than its limit. -/
def Bounded (width limit : Nat) (past : List Int) : Prop := ∀ start, within width past start ≤ limit

theorem Bounded.nil (width limit : Nat) : Bounded width limit [] := fun _ => Nat.zero_le _

/-- An interval that holds `now` holds nothing that no longer counts at `now`. -/
theorem within_le_recent {width : Nat} {past : List Int} {now start : Int}
    (hpast : ∀ t ∈ past, t ≤ now) (hnow : now < start + width) :
    within width past start ≤ recent width past now := by
  refine List.countP_mono_left fun t ht hin => ?_
  have htnow := hpast t ht
  rw [decide_eq_true_eq] at hin ⊢
  omega

theorem Bounded.push {width limit : Nat} {past : List Int} {now : Int}
    (h : Bounded width limit past) (hpast : ∀ t ∈ past, t ≤ now)
    (hroom : recent width past now < limit) : Bounded width limit (past ++ [now]) := by
  intro start
  unfold within
  rw [List.countP_append, List.countP_singleton]
  split
  next hin =>
    rw [decide_eq_true_eq] at hin
    have hold := within_le_recent hpast hin.2
    unfold within at hold
    omega
  next => exact h start

/-- Both windows of a configuration are bounded. -/
structure Kept (cfg : RateLimit.Config) (past : List Int) : Prop where
  burst : Bounded cfg.burstWindow cfg.burstLimit past
  sustained : Bounded cfg.sustainedWindow cfg.sustainedLimit past

theorem Kept.record {cfg : RateLimit.Config} {past : List Int} {now : Int} (h : Kept cfg past)
    (hpast : ∀ t ∈ past, t ≤ now) : Kept cfg (record cfg past now) := by
  unfold Naive.record
  split
  next hadmitted =>
    obtain ⟨hburst, hsustained⟩ := verdict_admitted hadmitted
    exact ⟨h.burst.push hpast hburst, h.sustained.push hpast hsustained⟩
  next => exact h

/-- However the checks are spaced, both bounds are kept. -/
theorem Kept.admissions {cfg : RateLimit.Config} {times : List Int}
    (htimes : times.Pairwise (· ≤ ·)) :
    ∀ {past : List Int}, Kept cfg past → (∀ t ∈ past, ∀ now ∈ times, t ≤ now) →
      Kept cfg (admissions cfg past times) := by
  induction times with
  | nil => exact fun h _ => h
  | cons now rest ih =>
    intro past h hpast
    rw [List.pairwise_cons] at htimes
    have hnow : ∀ t ∈ past, t ≤ now := fun t ht => hpast t ht now List.mem_cons_self
    refine ih htimes.2 (h.record hnow) fun t ht later hlater => ?_
    exact (le_of_mem_record hnow t ht).trans (htimes.1 later hlater)

end Naive

end Ingress.RateLimit
