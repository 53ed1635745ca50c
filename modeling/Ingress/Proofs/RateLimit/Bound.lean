import Mathlib
import Ingress.Proofs.Config.Check
import Ingress.Proofs.RateLimit.Tracking

/-!
# How many checks a limiter admits

* `exec_bounded` : no interval as long as a window, wherever it begins, holds more admissions of a
  client than the window allows.

The limiter itself only looks at intervals that end at a check.
-/

namespace Ingress.RateLimit

theorem kept_exec (cfg : RateLimit.Config) (hwindows : cfg.burstWindow ≤ cfg.sustainedWindow)
    {calls : List Call} (htimes : Timely calls) (id : String) :
    Naive.Kept cfg (admissions id ((Limiter.ofConfig cfg).exec calls).1) := by
  have hfresh : Naive.Kept cfg [] := ⟨Naive.Bounded.nil _ _, Naive.Bounded.nil _ _⟩
  cases hid : isClientId id with
  | false =>
    rw [Limiter.admissions_of_malformed calls hid]
    exact hfresh
  | true =>
    obtain ⟨fin, hfin⟩ := exists_end calls
    obtain ⟨start, hstart⟩ := htimes.between hfin
    obtain ⟨_, hids⟩ := (Limiter.Tracks.ofConfig cfg start).exec calls hwindows hstart
    have hhistory : admissions id ((Limiter.ofConfig cfg).exec calls).1
        = Naive.admissions cfg [] (checkTimes id calls) := (hids id hid).1
    rw [hhistory]
    exact hfresh.admissions (htimes.checkTimes id) fun t ht => absurd ht List.not_mem_nil

/-- **No interval holds more admissions than its window allows**, in any run of a limiter that a
gateway may be configured with, for any client and wherever the interval begins. -/
theorem exec_bounded (g : Gateway.Config) (hg : g.check = .ok ()) (calls : List Call)
    (htimes : Timely calls) (id : String) (start : Int) :
    within g.rateLimit.burstWindow
        (admissions id ((Limiter.ofConfig g.rateLimit).exec calls).1) start
      ≤ g.rateLimit.burstLimit ∧
    within g.rateLimit.sustainedWindow
        (admissions id ((Limiter.ofConfig g.rateLimit).exec calls).1) start
      ≤ g.rateLimit.sustainedLimit := by
  have hkept := kept_exec g.rateLimit (Gateway.Config.windows_of_check hg) htimes id
  exact ⟨hkept.burst start, hkept.sustained start⟩

def tightGateway : Gateway.Config := { Gateway.Config.standard with rateLimit := tight }

theorem sampleCalls_bounded :
    tightGateway.check = .ok () ∧
      admissions "a" ((Limiter.ofConfig tight).exec sampleCalls).1 = [0, 10] ∧
      within 10 (admissions "a" ((Limiter.ofConfig tight).exec sampleCalls).1) 1 ≤ 1 ∧
      within 100 (admissions "a" ((Limiter.ofConfig tight).exec sampleCalls).1) (-5) ≤ 2 := by
  have hcheck : tightGateway.check = .ok () :=
    (Gateway.Config.check_eq_ok_iff tightGateway).2 ⟨by decide +kernel, by decide +kernel⟩
  refine ⟨hcheck, by decide +kernel, ?_, ?_⟩
  · exact (exec_bounded tightGateway hcheck sampleCalls (by decide) "a" 1).1
  · exact (exec_bounded tightGateway hcheck sampleCalls (by decide) "a" (-5)).2

end Ingress.RateLimit
