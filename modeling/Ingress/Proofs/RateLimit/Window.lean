import Mathlib
import Ingress.Proofs.RateLimit.Naive

/-!
# Sliding windows

A client keeps its admissions oldest first and drops the old ones from the front. Nothing is lost by
it: as long as the clock does not go back, the window counts what the whole history counts.

* `counted` : the admissions of a history that are less than a window old;
* `Holds` : pruned now or later, a window is the part of the history that still counts;
* `Holds.prune`, `Holds.push`, `Holds.of_old` : dropping what is old, one more admission, and a
  window emptied once all admissions are old.
-/

namespace Ingress.RateLimit

/-- The admissions less than `width` old. -/
def counted (width : Nat) (past : List Int) (now : Int) : List Int :=
  past.filter fun t => now - t < width

open Naive

theorem length_counted (width : Nat) (past : List Int) (now : Int) :
    (counted width past now).length = recent width past now := List.countP_eq_length_filter.symm

theorem le_span_iff {t now : Int} (h : t ≤ now) (width : Nat) :
    width ≤ span t now ↔ ¬ now - t < width := by
  unfold span
  omega

/-! ## Pruning -/

theorem prune_prune {now later : Int} (h : now ≤ later) (width : Nat) (window : List Int) :
    prune later width (prune now width window) = prune later width window := by
  unfold prune
  induction window with
  | nil => rfl
  | cons t rest ih =>
    rw [List.dropWhile_cons]
    split
    next hold =>
      have hlater : width ≤ span t later := by
        rw [decide_eq_true_eq] at hold
        unfold span at hold ⊢
        omega
      rw [ih, List.dropWhile_cons_of_pos (by simpa using hlater)]
    next => rfl

/-- From `now` on, the pruned window is the part of the history that still counts. -/
def Holds (width : Nat) (past window : List Int) (now : Int) : Prop :=
  ∀ later, now ≤ later → prune later width window = counted width past later

namespace Holds

variable {width : Nat} {past window : List Int} {now : Int}

theorem later (h : Holds width past window now) {now' : Int} (hle : now ≤ now') :
    Holds width past window now' := fun t ht => h t (hle.trans ht)

/-- Pruning keeps all that counts. -/
theorem prune (h : Holds width past window now) :
    Holds width past (RateLimit.prune now width window) now := by
  intro t ht
  rw [prune_prune ht]
  exact h t ht

/-- A pruned window is as long as the count of the naive limiter. -/
theorem length_prune (h : Holds width past window now) :
    (RateLimit.prune now width window).length = recent width past now := by
  rw [h now le_rfl, length_counted]

/-- One more admission enters both the window and the history. -/
theorem push (h : Holds width past window now) (hpast : ∀ t ∈ past, t ≤ now) :
    Holds width (past ++ [now]) (window ++ [now]) now := by
  intro later hle
  have hold := h later hle
  unfold RateLimit.prune counted at hold ⊢
  rw [List.dropWhile_append, List.filter_append, ← hold]
  split
  next hempty =>
    -- nothing of the window counts, so the new admission is the first to be looked at
    rw [List.isEmpty_iff] at hempty
    rw [hempty, List.nil_append]
    by_cases hcounts : later - now < width
    · have hstays : ¬ width ≤ span now later := fun h => (le_span_iff hle width).1 h hcounts
      rw [List.dropWhile_cons_of_neg (by simpa using hstays),
        List.filter_cons_of_pos (by simpa using hcounts), List.filter_nil]
    · have hleaves : width ≤ span now later := (le_span_iff hle width).2 hcounts
      rw [List.dropWhile_cons_of_pos (by simpa using hleaves), List.dropWhile_nil,
        List.filter_cons_of_neg (by simpa using hcounts), List.filter_nil]
  next hne =>
    -- an older admission counts, and so does the new one
    obtain ⟨t, ht⟩ : ∃ t, t ∈ window.dropWhile fun t => decide (width ≤ span t later) :=
      List.exists_mem_of_ne_nil _ (by simpa using hne)
    rw [hold, List.mem_filter, decide_eq_true_eq] at ht
    have htnow := hpast t ht.1
    rw [List.filter_cons_of_pos (by simp only [decide_eq_true_eq]; omega), List.filter_nil]

/-- Once every admission is old, the empty window will do. -/
theorem of_old {old : Nat} (hwidth : width ≤ old) (hpast : ∀ t ∈ past, old ≤ now - t) :
    Holds width past [] now := by
  intro later hle
  unfold counted
  refine (List.filter_eq_nil_iff.2 fun t ht => ?_).symm
  have htold := hpast t ht
  simp only [decide_eq_true_eq]
  omega

end Holds

end Ingress.RateLimit
