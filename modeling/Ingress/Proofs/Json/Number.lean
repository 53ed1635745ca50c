import Ingress.Json.Number
import Ingress.Proofs.Double.OfNat
import Mathlib

/-!
# Numbers as they are written

* `Number.value` : the number that is written; a check reads it as a double, rounded;
* `isFinite_toDouble` : that double is finite;
* `zero_le_iff`, `le_ofNat_iff` : comparing the double decides about the number itself, with zero and
  with a whole bound that has a double of its own (`IsWholeBound`).
-/

namespace Ingress.Json.Number

def value : Number → ℚ
  | .whole n _ => n
  | .real d _ => d.value

theorem natAbs_le (n : ℤ) (h : wholeMin ≤ n ∧ n < wholeBound) : n.natAbs ≤ 2 ^ 64 := by
  have hmin : wholeMin = -(2 ^ 63) := by decide
  have hbound : wholeBound = 2 ^ 64 := by decide
  omega

/-- The double of a whole number is that of its magnitude, with its sign. -/
theorem key_toDouble_whole (n : ℤ) (fits : wholeMin ≤ n ∧ n < wholeBound) :
    (whole n fits).toDouble.key =
      if n < 0 then -(Double.ofNat n.natAbs).key else (Double.ofNat n.natAbs).key := by
  show (Double.ofInt n).key = _
  unfold Double.ofInt
  split
  · exact Double.key_neg _
  · rfl

theorem isFinite_toDouble (n : Number) : n.toDouble.isFinite = true := by
  cases n with
  | real d finite => exact finite
  | whole n fits =>
    have hfinite := Double.isFinite_iff_key.1 (Double.isFinite_ofNat (natAbs_le n fits))
    rw [Double.isFinite_iff_key, key_toDouble_whole]
    split
    · rw [abs_neg]; exact hfinite
    · exact hfinite

theorem isNaN_toDouble (n : Number) : n.toDouble.isNaN = false :=
  Double.isNaN_of_isFinite n.isFinite_toDouble

/-- A number is negative exactly when its double is. -/
theorem key_toDouble_nonneg (n : Number) : 0 ≤ n.toDouble.key ↔ 0 ≤ n.value := by
  cases n with
  | real d finite => exact Double.value_nonneg_iff.symm
  | whole n fits =>
    have hbound := natAbs_le n fits
    have hone : 0 < (Double.ofNat 1).key := by decide +kernel
    rw [key_toDouble_whole, value, Int.cast_nonneg_iff]
    split
    next hneg =>
      have hmono := Double.key_ofNat_mono (show 1 ≤ n.natAbs by omega) hbound
      omega
    next hneg => exact iff_of_true (Double.key_ofNat_nonneg hbound) (by omega)

theorem zero_le_iff (n : Number) : Double.zero.le n.toDouble = true ↔ 0 ≤ n.value := by
  rw [Double.le_iff rfl n.isNaN_toDouble, ← n.key_toDouble_nonneg]
  rfl

theorem lt_zero_iff (n : Number) : n.toDouble.lt .zero = true ↔ ¬ 0 ≤ n.value := by
  rw [Double.lt_iff n.isNaN_toDouble rfl, ← n.key_toDouble_nonneg, not_le]
  rfl

/-- A whole number that is a double, and less than the double of the next one. -/
structure IsWholeBound (bound : Nat) : Prop where
  word : bound ≤ 2 ^ 63
  number : (Double.ofNat bound).isNaN = false
  exact : (Double.ofNat bound).value = bound
  next : (Double.ofNat bound).key < (Double.ofNat (bound + 1)).key

/-- A number is within a whole bound exactly when its double is. -/
theorem key_toDouble_le {bound : Nat} (h : IsWholeBound bound) (n : Number) :
    n.toDouble.key ≤ (Double.ofNat bound).key ↔ n.value ≤ bound := by
  cases n with
  | real d finite =>
    show d.key ≤ _ ↔ d.value ≤ _
    rw [Double.key_le_key, h.exact]
  | whole n fits =>
    have hn := natAbs_le n fits
    have hword : bound ≤ 2 ^ 64 := h.word.trans (by omega)
    rw [key_toDouble_whole, value, ← Int.cast_natCast, Int.cast_le]
    split
    next hneg =>
      have hnonneg := Double.key_ofNat_nonneg hn
      have hbound := Double.key_ofNat_nonneg hword
      exact iff_of_true (by omega) (by omega)
    next hneg =>
      rw [Double.key_ofNat_le_iff hn hword h.next]
      omega

theorem le_ofNat_iff {bound : Nat} (h : IsWholeBound bound) (n : Number) :
    n.toDouble.le (.ofNat bound) = true ↔ n.value ≤ bound := by
  rw [Double.le_iff n.isNaN_toDouble h.number, key_toDouble_le h]

theorem ofNat_lt_iff {bound : Nat} (h : IsWholeBound bound) (n : Number) :
    (Double.ofNat bound).lt n.toDouble = true ↔ bound < n.value := by
  rw [Double.lt_iff h.number n.isNaN_toDouble, ← not_le, key_toDouble_le h, not_le]

theorem le_largest (n : Number) : n.toDouble.le .largest = true := by
  rw [Double.le_iff n.isNaN_toDouble (by decide)]
  exact Double.key_le_largest n.isFinite_toDouble

/-! ## Whole bounds -/

theorem IsWholeBound.of_parts {bound k : Nat} (hword : bound ≤ 2 ^ 63)
    (hnumber : (Double.ofNat bound).isNaN = false) (hsign : (Double.ofNat bound).negative = false)
    (hparts : (Double.ofNat bound).parts = (bound * 2 ^ k, -(k : ℤ)))
    (hnext : (Double.ofNat bound).key < (Double.ofNat (bound + 1)).key) : IsWholeBound bound := by
  refine ⟨hword, hnumber, ?_, hnext⟩
  rw [Double.value_of_nonneg hsign, hparts, zpow_neg, zpow_natCast]
  push_cast
  exact mul_inv_cancel_right₀ (pow_ne_zero k two_ne_zero) _

theorem isWholeBound_costs : IsWholeBound 10000 :=
  .of_parts (k := 39) (by omega) (by decide +kernel) (by decide +kernel) (by decide +kernel)
    (by decide +kernel)

theorem isWholeBound_money : IsWholeBound 1000000 :=
  .of_parts (k := 33) (by omega) (by decide +kernel) (by decide +kernel) (by decide +kernel)
    (by decide +kernel)

theorem isWholeBound_chips : IsWholeBound 1000000000 :=
  .of_parts (k := 23) (by omega) (by decide +kernel) (by decide +kernel) (by decide +kernel)
    (by decide +kernel)

theorem isWholeBound_milliseconds : IsWholeBound 100000000000 :=
  .of_parts (k := 16) (by omega) (by decide +kernel) (by decide +kernel) (by decide +kernel)
    (by decide +kernel)

end Ingress.Json.Number
