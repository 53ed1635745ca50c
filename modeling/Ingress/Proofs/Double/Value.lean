import Mathlib
import Ingress.Double

/-!
# Doubles as rationals

A finite double is a whole number of units of `2 ^ (-1074)`, and the units grow with the bits: the
order of doubles, which compares bits, is the order of the rationals they are.

* `value` : the rational that a finite double is;
* `units` : the units of `2 ^ (-1074)` in a magnitude, strictly increasing (`units_strictMono`);
* `key_le_key`, `key_lt_key` : keys are ordered as values are;
* `value_neg`, `abs_value_clamp`, `wholeMagnitude_le`, `floor_value` : negation, clamping and whole parts.
-/

namespace Ingress.Double

/-- The rational that a finite double is. -/
def value (d : Double) : ℚ :=
  if d.negative then -(d.parts.1 * 2 ^ d.parts.2) else d.parts.1 * 2 ^ d.parts.2

/-! ## Units -/

/-- The units of `2 ^ (-1074)` in the finite double of a magnitude. -/
def units (m : Nat) : Nat :=
  if m / 2 ^ 52 = 0 then m % 2 ^ 52 else (2 ^ 52 + m % 2 ^ 52) * 2 ^ (m / 2 ^ 52 - 1)

theorem units_strictMono : StrictMono units := by
  refine strictMono_nat_of_lt_succ fun m => ?_
  unfold units
  by_cases hlast : m % 2 ^ 52 + 1 < 2 ^ 52
  · -- the next magnitude has the same exponent
    have hdiv : (m + 1) / 2 ^ 52 = m / 2 ^ 52 := by omega
    have hmod : (m + 1) % 2 ^ 52 = m % 2 ^ 52 + 1 := by omega
    rw [hdiv, hmod]
    split
    · omega
    · exact Nat.mul_lt_mul_of_pos_right (by omega) (Nat.two_pow_pos _)
  · -- the next magnitude is the first one of the next exponent
    have hdiv : (m + 1) / 2 ^ 52 = m / 2 ^ 52 + 1 := by omega
    have hmod : (m + 1) % 2 ^ 52 = 0 := by omega
    rw [hdiv, hmod, if_neg (Nat.succ_ne_zero _), Nat.add_zero, Nat.add_sub_cancel]
    split
    next hzero => rw [hzero, pow_zero]; omega
    next hpos =>
      obtain ⟨e, he⟩ := Nat.exists_eq_succ_of_ne_zero hpos
      have hdouble : 2 ^ e.succ = 2 * 2 ^ e := pow_succ' 2 e
      rw [he, Nat.succ_sub_one, hdouble, ← mul_assoc]
      exact Nat.mul_lt_mul_of_pos_right (by omega) (Nat.two_pow_pos _)

theorem parts_eq_units (d : Double) :
    (d.parts.1 : ℚ) * 2 ^ d.parts.2 = units d.magnitude / 2 ^ 1074 := by
  unfold parts units
  simp only [Nat.pow_eq]
  split
  next hzero =>
    rw [show (-1074 : ℤ) = -((1074 : ℕ) : ℤ) from rfl, zpow_neg, zpow_natCast, div_eq_mul_inv]
  next hpos =>
    obtain ⟨e, he⟩ := Nat.exists_eq_succ_of_ne_zero hpos
    have hexp : ((d.magnitude / 2 ^ 52 : ℕ) : ℤ) - 1075 = (e : ℤ) - (1074 : ℕ) := by omega
    rw [hexp, he, Nat.succ_sub_one, zpow_sub₀ two_ne_zero, zpow_natCast, zpow_natCast,
      ← mul_div_assoc]
    push_cast
    rfl

/-- The units of a key, negative for a negative one. -/
def signedUnits (k : ℤ) : ℤ := if k < 0 then -(units k.natAbs : ℤ) else units k.natAbs

theorem signedUnits_strictMono : StrictMono signedUnits := by
  intro j k hjk
  have hzero : units 0 = 0 := rfl
  unfold signedUnits
  split <;> split
  · have := units_strictMono (show k.natAbs < j.natAbs by omega); omega
  · have := units_strictMono (show 0 < j.natAbs by omega); omega
  · omega
  · have := units_strictMono (show j.natAbs < k.natAbs by omega); omega

theorem value_eq_units (d : Double) : d.value = signedUnits d.key / 2 ^ 1074 := by
  have hzero : units 0 = 0 := rfl
  unfold value signedUnits key
  rw [parts_eq_units]
  cases d.negative with
  | true =>
    rw [if_pos rfl, if_pos rfl, Int.natAbs_neg, Int.natAbs_natCast]
    split
    · rw [Int.cast_neg, Int.cast_natCast, neg_div]
    next h =>
      rw [show d.magnitude = 0 by omega, hzero]
      simp
  | false =>
    rw [if_neg Bool.false_ne_true, if_neg Bool.false_ne_true, Int.natAbs_natCast,
      if_neg (by omega)]
    push_cast
    rfl

/-! ## Order -/

variable {a b d m : Double}

theorem key_le_key : a.key ≤ b.key ↔ a.value ≤ b.value := by
  rw [value_eq_units, value_eq_units, div_le_div_iff_of_pos_right (by positivity), Int.cast_le,
    signedUnits_strictMono.le_iff_le]

theorem key_lt_key : a.key < b.key ↔ a.value < b.value := by
  rw [value_eq_units, value_eq_units, div_lt_div_iff_of_pos_right (by positivity), Int.cast_lt,
    signedUnits_strictMono.lt_iff_lt]

theorem lt_iff (ha : a.isNaN = false) (hb : b.isNaN = false) : a.lt b = true ↔ a.key < b.key := by
  simp [lt, ha, hb]

theorem le_iff (ha : a.isNaN = false) (hb : b.isNaN = false) : a.le b = true ↔ a.key ≤ b.key := by
  simp [le, ha, hb]

theorem isNaN_of_isFinite (h : d.isFinite = true) : d.isNaN = false := by
  simp only [isFinite, isNaN, decide_eq_true_eq, decide_eq_false_iff_not] at h ⊢
  omega

/-- No finite double is beyond the largest one. -/
theorem key_le_largest (h : d.isFinite = true) : d.key ≤ largest.key := by
  have hlargest : largest.key = infinityBits - 1 := by decide
  simp only [isFinite, decide_eq_true_eq] at h
  rw [hlargest]
  unfold key
  split <;> omega

/-! ## Negation and clamping -/

theorem magnitude_neg (d : Double) : d.neg.magnitude = d.magnitude := by
  unfold magnitude neg
  rw [Nat.pow_eq, UInt64.toNat_xor, Nat.xor_mod_two_pow,
    show UInt64.toNat 0x8000000000000000 % 2 ^ 63 = 0 from rfl, Nat.xor_zero]

theorem negative_neg (d : Double) : d.neg.negative = !d.negative := by
  have hbound : ∀ n < 2 ^ 64, decide (2 ^ 63 ≤ n) = n.testBit 63 := by
    intro n hn
    rw [Nat.testBit_eq_decide_div_mod_eq, decide_eq_decide]
    omega
  unfold negative neg
  rw [Nat.pow_eq, hbound _ (UInt64.toNat_lt _), hbound _ (UInt64.toNat_lt _), UInt64.toNat_xor,
    Nat.testBit_xor, show (UInt64.toNat 0x8000000000000000).testBit 63 = true from rfl,
    Bool.xor_true]

theorem key_neg (d : Double) : d.neg.key = -d.key := by
  unfold key
  rw [magnitude_neg, negative_neg]
  cases d.negative <;> simp

theorem isNaN_neg (d : Double) : d.neg.isNaN = d.isNaN := by
  unfold isNaN
  rw [magnitude_neg]

theorem signedUnits_neg (k : ℤ) : signedUnits (-k) = -signedUnits k := by
  have hzero : units 0 = 0 := rfl
  unfold signedUnits
  rw [Int.natAbs_neg]
  split <;> split <;> try omega
  rw [show k = 0 by omega, Int.natAbs_zero, hzero]
  rfl

theorem value_neg (d : Double) : d.neg.value = -d.value := by
  rw [value_eq_units, value_eq_units, key_neg, signedUnits_neg, Int.cast_neg, neg_div]

/-- A bound that is a number. -/
structure IsBound (m : Double) : Prop where
  number : m.isNaN = false
  nonneg : 0 ≤ m.key

theorem value_nonneg_iff : 0 ≤ d.value ↔ 0 ≤ d.key := by
  have hzero : zero.value = 0 := by
    rw [value_eq_units, show signedUnits zero.key = 0 from rfl]
    simp
  rw [← hzero, ← key_le_key, show zero.key = 0 from rfl]

theorem IsBound.value_nonneg (h : IsBound m) : 0 ≤ m.value := value_nonneg_iff.2 h.nonneg

/-- A clamped number: it is within its bounds, or it is as it was. -/
theorem clamp_cases (hd : d.isFinite = true) (hm : IsBound m) :
    (d.clamp m.neg m = m.neg ∧ d.key < m.neg.key) ∨ (d.clamp m.neg m = m ∧ m.key < d.key) ∨
      (d.clamp m.neg m = d ∧ m.neg.key ≤ d.key ∧ d.key ≤ m.key) := by
  have hdn := isNaN_of_isFinite hd
  have hmn := (isNaN_neg m).trans hm.number
  unfold clamp
  split
  next h => exact .inl ⟨rfl, (lt_iff hdn hmn).1 h⟩
  next hlow =>
    rw [lt_iff hdn hmn] at hlow
    split
    next h => exact .inr (.inl ⟨rfl, (lt_iff hm.number hdn).1 h⟩)
    next hhigh =>
      rw [lt_iff hm.number hdn] at hhigh
      exact .inr (.inr ⟨rfl, by omega, by omega⟩)

theorem isFinite_iff_key : d.isFinite = true ↔ |d.key| < infinityBits := by
  simp only [isFinite, key, decide_eq_true_eq]
  split <;> simp

theorem isFinite_clamp (hd : d.isFinite = true) (hm : IsBound m) :
    (d.clamp m.neg m).isFinite = true := by
  have hkey := isFinite_iff_key.1 hd
  have hneg := key_neg m
  have hnonneg := hm.nonneg
  rw [abs_lt] at hkey
  rcases clamp_cases hd hm with ⟨h, hlt⟩ | ⟨h, hlt⟩ | ⟨h, -⟩
  · rw [h, isFinite_iff_key, abs_lt]; omega
  · rw [h, isFinite_iff_key, abs_lt]; omega
  · rw [h]; exact hd

theorem abs_value_clamp (hd : d.isFinite = true) (hm : IsBound m) :
    |(d.clamp m.neg m).value| ≤ m.value := by
  have hnonneg := hm.value_nonneg
  rw [abs_le]
  rcases clamp_cases hd hm with ⟨h, -⟩ | ⟨h, -⟩ | ⟨h, hlow, hhigh⟩
  · rw [h, value_neg]; constructor <;> linarith
  · rw [h]; constructor <;> linarith
  · rw [key_le_key, value_neg] at hlow
    rw [key_le_key] at hhigh
    rw [h]; exact ⟨hlow, hhigh⟩

/-- Clamping brings a non-negative number no farther from zero, and keeps its sign. -/
theorem value_clamp_of_nonneg (hd : d.isFinite = true) (hm : IsBound m) (h : 0 ≤ d.value) :
    0 ≤ (d.clamp m.neg m).value ∧ (d.clamp m.neg m).value ≤ d.value := by
  have hnonneg := hm.value_nonneg
  rcases clamp_cases hd hm with ⟨_, hlt⟩ | ⟨hc, hlt⟩ | ⟨hc, -⟩
  · rw [key_lt_key, value_neg] at hlt; linarith
  · rw [key_lt_key] at hlt; rw [hc]; exact ⟨hnonneg, hlt.le⟩
  · rw [hc]; exact ⟨h, le_rfl⟩

/-! ## Whole parts -/

theorem wholeMagnitude_le (d : Double) :
    (d.wholeMagnitude : ℚ) ≤ d.parts.1 * 2 ^ d.parts.2 := by
  unfold wholeMagnitude
  simp only [Nat.pow_eq]
  split
  next e he =>
    rw [he, Int.ofNat_eq_natCast, zpow_natCast]
    push_cast
    exact le_rfl
  next e he =>
    rw [he, zpow_negSucc, ← div_eq_mul_inv]
    exact_mod_cast Nat.cast_div_le

theorem one_le_wholeMagnitude (h : 1 ≤ (d.parts.1 : ℚ) * 2 ^ d.parts.2) : 1 ≤ d.wholeMagnitude := by
  unfold wholeMagnitude
  simp only [Nat.pow_eq]
  split
  next e he =>
    rw [he, Int.ofNat_eq_natCast, zpow_natCast] at h
    exact_mod_cast h
  next e he =>
    rw [he, zpow_negSucc, ← div_eq_mul_inv, one_le_div (by positivity)] at h
    rw [Nat.one_le_div_iff (Nat.two_pow_pos _)]
    exact_mod_cast h

theorem value_of_nonneg (h : d.negative = false) : d.value = d.parts.1 * 2 ^ d.parts.2 := by
  unfold value
  rw [h, if_neg Bool.false_ne_true]

theorem floor_value (h : d.negative = false) : ⌊d.value⌋ = d.wholeMagnitude := by
  rw [value_of_nonneg h]
  unfold wholeMagnitude
  simp only [Nat.pow_eq]
  split
  next e he =>
    rw [he, Int.ofNat_eq_natCast, zpow_natCast]
    exact_mod_cast Int.floor_natCast (R := ℚ) (d.parts.1 * 2 ^ e)
  next e he =>
    rw [he, zpow_negSucc, ← div_eq_mul_inv]
    exact_mod_cast Rat.floor_natCast_div_natCast d.parts.1 (2 ^ (e + 1))

end Ingress.Double
