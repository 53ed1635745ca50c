import Mathlib
import Ingress.Config.Gateway

/-!
# Configurations that can be run

* `Section.check_eq_ok_iff`, `Gateway.Config.check_eq_ok_iff` : a configuration can be run when it
  breaks no rule and has no conflict;
* `conflict?_eq_none_iff` : the settings that go together.
-/

namespace Ingress

theorem Config.Section.check_eq_ok_iff {α : Type} (s : Section α) (a : α) :
    s.check a = .ok () ↔ s.violations a = [] := by
  have hsorted : s.sortedViolations a = [] ↔ s.violations a = [] := by
    unfold sortedViolations
    rw [← List.length_eq_zero_iff, List.length_mergeSort, List.length_eq_zero_iff]
  rw [← hsorted]
  unfold check
  split
  next h => exact iff_of_true rfl h
  next violations hne => exact iff_of_false (by simp) fun h => hne h

namespace Gateway.Config

variable (c : Gateway.Config)

theorem conflict?_eq_none_iff :
    c.conflict? = none ↔ c.wsPath.toList.head? = some '/' ∧ builtInPaths.contains c.wsPath = false ∧
      c.rateLimit.burstWindow ≤ c.rateLimit.sustainedWindow ∧
      c.metrics.health.securityEvents < c.metrics.securityLogSize := by
  unfold conflict?
  split
  next h => exact iff_of_false (by simp) fun hall => h hall.1
  next hroot =>
    split
    next h => exact iff_of_false (by simp) fun hall => by rw [h] at hall; cases hall.2.1
    next hfree =>
      split
      next h => exact iff_of_false (by simp) fun hall => by omega
      next hwindows =>
        split
        next h => exact iff_of_false (by simp) fun hall => by omega
        next hlog =>
          exact iff_of_true rfl ⟨not_not.1 hroot, by simpa using hfree, by omega, by omega⟩

/-- A configuration can be run when it breaks no rule and no settings are in conflict. -/
theorem check_eq_ok_iff :
    c.check = .ok () ↔ Gateway.config.violations c = [] ∧ c.conflict? = none := by
  unfold check
  rw [← Config.Section.check_eq_ok_iff]
  split
  next e he => exact iff_of_false (by simp) fun h => by rw [he] at h; cases h.1
  next hrules =>
    split
    next conflict hconflict =>
      exact iff_of_false (by simp) fun h => by rw [hconflict] at h; cases h.2
    next hnone => exact iff_of_true rfl ⟨hrules, hnone⟩

variable {c}

/-- The burst window is no longer than the sustained one. -/
theorem windows_of_check (h : c.check = .ok ()) :
    c.rateLimit.burstWindow ≤ c.rateLimit.sustainedWindow :=
  ((conflict?_eq_none_iff c).1 ((check_eq_ok_iff c).1 h).2).2.2.1

/-- The security log holds more events than the threshold. -/
theorem securityLog_of_check (h : c.check = .ok ()) :
    c.metrics.health.securityEvents < c.metrics.securityLogSize :=
  ((conflict?_eq_none_iff c).1 ((check_eq_ok_iff c).1 h).2).2.2.2

end Gateway.Config

end Ingress
