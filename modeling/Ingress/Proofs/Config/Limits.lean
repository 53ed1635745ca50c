import Ingress.Proofs.Config.Check
import Ingress.Proofs.Sanitize.Value
import Mathlib

/-!
# Limits that break no rule

* `Setting.violations_nat`, `Setting.violations_real` : a setting that breaks no rule is in its
  range; `Range.hasNat_between` : what it is to be in one;
* `Section.between_of_violations` : a number of a section that breaks no rule;
* `Limits.one_le_maxStringLength`, `Limits.isMagnitude`, `Limits.maxEventBytes_le`,
  `Limits.maxHandSize_le` : what follows for the limits of an event;
* `limits_of_check` : a gateway that can be run has such limits.
-/

namespace Ingress

open Config

namespace Config

variable {α : Type} {a : α} {name : String}

theorem Section.violations_eq_nil_iff {s : Section α} :
    s.violations a = [] ↔ ∀ t ∈ s.settings, t.violations a = [] := List.flatMap_eq_nil_iff

theorem Setting.violations_nat {decoder : Json.Decoder Nat} {range : Range Nat} {get : α → Nat}
    {set : Nat → α → α} (h : (nat name decoder range get set).violations a = []) :
    range.hasNat (get a) = true := by
  by_contra hout
  have heq : (nat name decoder range get set).violations a = [_] := if_neg hout
  rw [heq] at h
  cases h

theorem Range.hasNat_between {low high n : Nat} :
    (between low high).hasNat n = true ↔ low ≤ n ∧ n ≤ high := by
  simp [hasNat, between]

/-- A number that a section bounds from both sides. -/
theorem Section.between_of_violations {s : Section α} {decoder : Json.Decoder Nat} {low high : Nat}
    {get : α → Nat} {set : Nat → α → α} (h : s.violations a = []) (i : Nat)
    (hi : i < s.settings.length)
    (hsetting : s.settings[i] = .nat name decoder (.between low high) get set) :
    low ≤ get a ∧ get a ≤ high := by
  have hnone := violations_eq_nil_iff.1 h s.settings[i] (List.getElem_mem hi)
  rw [hsetting] at hnone
  exact Range.hasNat_between.1 (Setting.violations_nat hnone)

theorem Setting.violations_real {range : Range Double} {get : α → Double} {set : Double → α → α}
    (h : (real name range get set).violations a = []) : range.hasReal (get a) = true := by
  by_contra hout
  have heq : (real name range get set).violations a = [_] := if_neg hout
  rw [heq] at h
  cases h

end Config

namespace Limits

variable {l : Limits}

/-- Some character of a text is kept. -/
theorem one_le_maxStringLength (h : config.violations l = []) : 1 ≤ l.maxStringLength := by
  have hrange : (Range.atLeast 1).hasNat l.maxStringLength = true :=
    Setting.violations_nat
      (Section.violations_eq_nil_iff.1 h config.settings[7] (List.getElem_mem (by decide)))
  simpa [Range.hasNat, Range.atLeast] using hrange

theorem maxEventBytes_le (h : config.violations l = []) : l.maxEventBytes ≤ 1048576 :=
  (Section.between_of_violations h 0 (by decide) rfl).2

theorem maxHandSize_le (h : config.violations l = []) : l.maxHandSize ≤ 52 :=
  (Section.between_of_violations h 9 (by decide) rfl).2

/-- The magnitude bounds numbers, if it is a number. -/
theorem isMagnitude (h : config.violations l = []) (hnumber : l.maxMagnitude.isNaN = false) :
    Sanitize.IsMagnitude l.maxMagnitude := by
  have hrange : (Range.atLeast (real 1)).hasReal l.maxMagnitude = true :=
    Setting.violations_real
      (Section.violations_eq_nil_iff.1 h config.settings[8] (List.getElem_mem (by decide)))
  have hone : l.maxMagnitude.lt (real 1) = false := by
    simpa [Range.hasReal, Range.atLeast] using hrange
  have hreal : (real 1).isNaN = false := by decide +kernel
  refine ⟨hnumber, ?_⟩
  rw [← Bool.not_eq_true, Double.lt_iff hnumber hreal, not_lt] at hone
  exact hone

end Limits

theorem Gateway.Config.limits_of_check {c : Gateway.Config} (h : c.check = .ok ()) :
    Limits.config.violations c.limits = [] := by
  have hsection := Section.violations_eq_nil_iff.1 ((check_eq_ok_iff c).1 h).1
    Gateway.config.settings[6] (List.getElem_mem (by decide))
  exact List.map_eq_nil_iff.1 hsection

end Ingress
