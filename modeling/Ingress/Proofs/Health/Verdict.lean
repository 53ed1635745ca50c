import Mathlib
import Ingress.Health.Verdict

/-!
# What a verdict says of its thresholds

The verdict is the worst of the crossed thresholds, so it is at least as bad as a given one exactly
when a threshold that is as bad has been crossed.

* `le_severity_report_iff` : the verdict is at least as bad as a given severity;
* `status_eq_securityAlert_iff`, `isServing_eq_false_iff` : a security alert, and a gateway that is to
  take no traffic.
-/

namespace Ingress.Health

theorem Status.severity_worst (a b : Status) : (a.worst b).severity = max a.severity b.severity := by
  unfold worst
  split <;> omega

theorem Status.le_severity_foldl_worst (k : Nat) (statuses : List Status) (s : Status) :
    k ≤ (statuses.foldl worst s).severity ↔ k ≤ s.severity ∨ ∃ x ∈ statuses, k ≤ x.severity := by
  induction statuses generalizing s with
  | nil => simp
  | cons x rest ih =>
    rw [List.foldl_cons, ih, severity_worst, le_max_iff, or_assoc, List.exists_mem_cons_iff]

variable (t : Thresholds) (c : Counts) (nowMs : Int)

/-- The verdict is at least as bad as a crossed threshold, and no worse than the worst of them. -/
theorem le_severity_report_iff {k : Nat} (hk : 0 < k) :
    k ≤ (report t c nowMs).status.severity ↔
      ∃ s ∈ signals t c, s.crossed = true ∧ k ≤ s.status.severity := by
  have hhealthy : ¬ k ≤ Status.healthy.severity := Nat.not_le.2 hk
  unfold report
  dsimp only
  rw [Status.le_severity_foldl_worst, or_iff_right hhealthy]
  simp only [List.mem_map, exists_exists_and_eq_and]
  simp only [List.mem_filter, and_assoc]

theorem status_eq_securityAlert_iff :
    (report t c nowMs).status = .securityAlert ↔ t.securityEvents < c.securityEvents := by
  have hworst : ∀ s : Status, s = .securityAlert ↔ 3 ≤ s.severity := fun s => by
    cases s <;> decide
  rw [hworst, le_severity_report_iff t c nowMs (by decide)]
  simp [signals, Status.severity]

/-- A gateway is to take no traffic when it fails too often or security events abound. -/
theorem isServing_eq_false_iff :
    (report t c nowMs).status.isServing = false ↔
      t.errorRate.lt c.processingErrorRate = true ∨ t.errorRate.lt c.deliveryErrorRate = true ∨
        t.securityEvents < c.securityEvents := by
  have hworse : ∀ s : Status, s.isServing = false ↔ 2 ≤ s.severity := fun s => by
    cases s <;> decide
  rw [hworse, le_severity_report_iff t c nowMs (by decide)]
  simp [signals, Status.severity]

end Ingress.Health
