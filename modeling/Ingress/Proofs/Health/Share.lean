import Ingress.Proofs.Double.Quotient
import Ingress.Proofs.Health.Verdict
import Mathlib

/-!
# Failures and the verdict

The verdict compares the processing errors per processed event, which is no less than their share of
both together. A share above the threshold is therefore reported as long as an event has been
processed; when none has, processing errors do not enter the verdict.

* `Counts.failureShare` : of the accepted payloads, the share that were no event;
* `lt_ratio_of_le` : what is less than a share of a whole is less than that of a smaller whole;
* `ratio_le_one` : a part has a share of at most one;
* `verdict_of_failures` : which failures are reported, and which are not.
-/

namespace Ingress.Health

open Metrics

/-- Of the accepted payloads, the share that were no event. -/
def Counts.failureShare (c : Counts) : Double :=
  ratio c.processingErrors (c.processingErrors + c.processed)

/-- What is less than the share of a part in a whole is less than its share in a smaller whole. -/
theorem lt_ratio_of_le {x : Double} {part whole whole' : Nat} (hpart : part ≠ 0) (hwhole : 0 < whole)
    (hle : whole ≤ whole') (hsmall : part < 2 ^ 64) (hsmall' : whole' < 2 ^ 65)
    (h : x.lt (ratio part whole') = true) : x.lt (ratio part whole) = true := by
  have hpartlog : part.log2 < 64 := (Nat.log2_lt hpart).2 hsmall
  have hlog' : whole'.log2 < 65 := (Nat.log2_lt (by omega)).2 hsmall'
  have hlog : whole.log2 < 65 := (Nat.log2_lt (by omega)).2 (by omega)
  have hnumber := Double.isNaN_div_ofNat hpart hwhole.ne' (by omega) (by omega)
  have hkey := Double.key_div_ofNat_anti hpart hwhole.ne' hle (by omega) (by omega)
  unfold ratio at h ⊢
  rw [if_neg (by omega)] at h ⊢
  simp only [Double.lt, hnumber, Bool.and_eq_true, Bool.not_eq_true', Bool.not_false,
    decide_eq_true_eq, and_true] at h ⊢
  exact ⟨h.1.1, h.2.trans_le hkey⟩

/-- A part of a whole has a share of at most one. -/
theorem ratio_le_one {part whole : Nat} (hle : part ≤ whole) (hsmall : whole < 2 ^ 64) :
    (ratio part whole).le (.ofNat 1) = true := by
  unfold ratio
  split
  · decide +kernel
  · next hwhole =>
    have hlog : whole.log2 < 64 := (Nat.log2_lt hwhole).2 hsmall
    exact Double.div_ofNat_le_one hwhole hle (by omega)

/-- Once an event has been processed, the rate that is compared is no less than the share. -/
theorem lt_processingErrorRate {x : Double} {c : Counts} (herrors : c.processingErrors < 2 ^ 64)
    (hprocessed : c.processed < 2 ^ 64) (hpos : 0 < c.processed)
    (h : x.lt c.failureShare = true) : x.lt c.processingErrorRate = true := by
  unfold Counts.failureShare at h
  rcases Nat.eq_zero_or_pos c.processingErrors with hzero | herror
  · -- without errors the two are the same quotient
    rw [hzero, Nat.zero_add] at h
    unfold Counts.processingErrorRate
    rw [hzero]
    exact h
  · exact lt_ratio_of_le herror.ne' hpos (by omega) herrors (by omega) h

/-- Without a processed event, processing errors do not matter. -/
theorem report_of_unprocessed (t : Thresholds) {c : Counts} (h : c.processed = 0) (nowMs : Int) :
    report t c nowMs = report t { c with processingErrors := 0 } nowMs := by
  have hrate : c.processingErrorRate = Double.zero := if_pos h
  have hrate' : ({ c with processingErrors := 0 } : Counts).processingErrorRate = Double.zero :=
    if_pos h
  unfold report signals
  rw [hrate, hrate']
  rfl

end Ingress.Health

namespace Ingress.Metrics.Collector

theorem windowed_lt (c : Collector) (name : String) (sinceMs : Int) :
    c.windowed name sinceMs < 2 ^ 64 := Nat.mod_lt _ (by decide)

/-- **Which failures the verdict reports**: a share of processing errors above the threshold once an
event has been processed, a share of failed deliveries above it, and no processing errors as long as
no event has been processed. -/
theorem verdict_of_failures (c : Collector) (nowMs : Int) :
    (0 < (c.healthCounts nowMs).processed →
        c.config.health.errorRate.lt (c.healthCounts nowMs).failureShare = true →
        (c.health nowMs).status.isServing = false) ∧
      (0 < (c.healthCounts nowMs).deliveries →
        c.config.health.errorRate.lt (Health.ratio (c.healthCounts nowMs).deliveryErrors
          (c.healthCounts nowMs).deliveries) = true →
        (c.health nowMs).status.isServing = false) ∧
      ((c.healthCounts nowMs).processed = 0 →
        c.health nowMs = Health.report c.config.health
          { c.healthCounts nowMs with processingErrors := 0 } nowMs) := by
  have hserving := Health.isServing_eq_false_iff c.config.health (c.healthCounts nowMs) nowMs
  refine ⟨fun hpos hshare => ?_, fun _ hshare => ?_, fun hzero => ?_⟩
  · have herrors := c.windowed_lt Name.processingErrors (nowMs - c.config.health.rateWindow * 1000)
    have hprocessed := c.windowed_lt Name.processed (nowMs - c.config.health.rateWindow * 1000)
    exact hserving.2 (.inl (Health.lt_processingErrorRate herrors hprocessed hpos hshare))
  · exact hserving.2 (.inr (.inl hshare))
  · exact Health.report_of_unprocessed _ hzero nowMs

/-- One payload that was no event, and nothing else. -/
def onlyFailures : Collector := (ofConfig .standard).count Name.processingErrors 0

/-- One payload in eight was no event, and one delivery of three failed. -/
def someFailures : Collector :=
  ((((ofConfig .standard).increment Name.processingErrors 1 [] 0).increment Name.processed 7 []
    0).increment Name.deliveries 3 [] 0).increment Name.deliveryErrors 1 [] 0

theorem verdict_someFailures :
    0 < (someFailures.healthCounts 0).processed ∧ 0 < (someFailures.healthCounts 0).deliveries ∧
      (someFailures.health 0).status.isServing = false ∧
      (onlyFailures.health 0).status.isServing = true :=
  ⟨by decide +kernel, by decide +kernel,
    (verdict_of_failures someFailures 0).1 (by decide +kernel) (by decide +kernel),
    by rw [(verdict_of_failures onlyFailures 0).2.2 (by decide +kernel)]; decide +kernel⟩

/-- Every accepted payload failed, and the gateway is healthy. -/
theorem healthy_onlyFailures :
    (onlyFailures.healthCounts 0).processingErrors = 1 ∧
      (onlyFailures.healthCounts 0).processed = 0 ∧
      onlyFailures.config.health.errorRate.lt (onlyFailures.healthCounts 0).failureShare = true ∧
      (onlyFailures.health 0).status = .healthy :=
  ⟨by decide +kernel, by decide +kernel, by decide +kernel, by decide +kernel⟩

end Ingress.Metrics.Collector
