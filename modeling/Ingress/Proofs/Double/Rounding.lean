import Mathlib

/-!
# Rounding to a double

The quotient of two whole numbers is rounded to 53 bits, to nearest and of two the even one, and the
bits of the double that it becomes are those of its exponent followed by those 53 bits without the
first.

* `nearest m d` : the whole number nearest to `m / d`;
* `Kept m d` : what is known of `m / d` while its last bits are shifted out;
* `roundWithAccuracy_eq` : the double that a quotient becomes;
* `toNat_pack`, `reread_finite` : its bits, and the number that is read back from them.
-/

namespace Ingress.Rounding

open Float.Model Float.Model.UnpackedFloat

/-! ## Rounding -/

/-- The whole number nearest to `m / d`, of two the even one. -/
def nearest (m d : Nat) : Nat :=
  if 2 * (m % d) < d then m / d
  else if 2 * (m % d) = d then m / d + m / d % 2
  else m / d + 1

theorem nearest_bounds (m d : Nat) : m / d ≤ nearest m d ∧ nearest m d ≤ m / d + 1 := by
  unfold nearest
  repeat' split
  all_goals omega

/-- Greater quotients are rounded to greater numbers. -/
theorem nearest_mono {m d m' d' : Nat} (hd : 0 < d) (hd' : 0 < d') (h : m * d' ≤ m' * d) :
    nearest m d ≤ nearest m' d' := by
  have hm := Nat.div_add_mod m d
  have hm' := Nat.div_add_mod m' d'
  have hquot : m / d ≤ m' / d' := by
    rw [Nat.le_div_iff_mul_le hd']
    refine Nat.le_of_mul_le_mul_right ?_ hd
    calc m / d * d' * d = m / d * d * d' := by ring
      _ ≤ m * d' := Nat.mul_le_mul_right d' (Nat.div_mul_le_self m d)
      _ ≤ m' * d := h
  rcases hquot.lt_or_eq with hlt | heq
  · exact (nearest_bounds m d).2.trans (hlt.trans_le (nearest_bounds m' d').1)
  · -- of equal whole parts, the rests compare as the quotients do
    have hrest : m % d * d' ≤ m' % d' * d := by
      rw [← hm, ← hm', heq] at h
      linarith
    have hhalf : 2 * (m' % d') ≤ d' → 2 * (m % d) ≤ d := fun hle => by
      refine Nat.le_of_mul_le_mul_right ?_ hd'
      linarith [Nat.mul_le_mul_right d hle]
    have hless : 2 * (m' % d') < d' → 2 * (m % d) < d := fun hlt => by
      refine Nat.lt_of_mul_lt_mul_right (a := d') ?_
      linarith [Nat.mul_lt_mul_of_pos_right hlt hd]
    unfold nearest
    rw [heq]
    repeat' split
    all_goals omega

theorem nearest_mul_self (m : Nat) {d : Nat} (hd : 0 < d) : nearest (m * d) d = m := by
  unfold nearest
  rw [Nat.mul_mod_left, Nat.mul_div_cancel _ hd, if_pos (by omega)]

/-- What is kept of `m / d`: its whole part, and how the rest compares with one half. -/
structure Kept (m d : Nat) (em : ExtendedMantissa) : Prop where
  mantissa : em.mantissa = m / d
  roundBit : em.roundBit = true ↔ d ≤ 2 * (m % d)
  stickyBit : em.stickyBit = true ↔ m % d ≠ 0 ∧ 2 * (m % d) ≠ d

namespace Kept

variable {m d : Nat} {em : ExtendedMantissa}

theorem ofFraction (m : Nat) (hd : 0 < d) :
    Kept m d (.ofMantissaAndAccuracy (m / d) (accuracyOfFraction (m % d) d)) := by
  unfold accuracyOfFraction
  split
  · next hzero => exact ⟨rfl, by simp [ExtendedMantissa.ofMantissaAndAccuracy]; omega,
      by simp [ExtendedMantissa.ofMantissaAndAccuracy, hzero]⟩
  · next hrest =>
    rcases hcmp : compare (2 * (m % d)) d with _ | _ | _
    · rw [compare_lt_iff_lt] at hcmp
      exact ⟨rfl, by simp [ExtendedMantissa.ofMantissaAndAccuracy]; omega,
        by simp [ExtendedMantissa.ofMantissaAndAccuracy]; omega⟩
    · rw [compare_eq_iff_eq] at hcmp
      exact ⟨rfl, by simp [ExtendedMantissa.ofMantissaAndAccuracy]; omega,
        by simp [ExtendedMantissa.ofMantissaAndAccuracy]; omega⟩
    · rw [compare_gt_iff_gt] at hcmp
      exact ⟨rfl, by simp [ExtendedMantissa.ofMantissaAndAccuracy]; omega,
        by simp [ExtendedMantissa.ofMantissaAndAccuracy]; omega⟩

theorem shiftRightOne (hd : 0 < d) (h : Kept m d em) : Kept m (d * 2) em.shiftRightOne := by
  have hlt : m % d < d := Nat.mod_lt _ hd
  have hquot : m / (d * 2) = m / d / 2 := (Nat.div_div_eq_div_mul m d 2).symm
  have hrest : m % (d * 2) = m % d + d * (m / d % 2) := Nat.mod_mul
  refine ⟨?_, ?_, ?_⟩
  · rw [hquot, ← h.mantissa]
    rfl
  · show (em.mantissa % 2 != 0) = true ↔ _
    rw [bne_iff_ne, h.mantissa, hrest]
    rcases Nat.mod_two_eq_zero_or_one (m / d) with hbit | hbit
    · rw [hbit, Nat.mul_zero]; omega
    · rw [hbit, Nat.mul_one]; omega
  · show (em.roundBit || em.stickyBit) = true ↔ _
    rw [Bool.or_eq_true, h.roundBit, h.stickyBit, hrest]
    rcases Nat.mod_two_eq_zero_or_one (m / d) with hbit | hbit
    · rw [hbit, Nat.mul_zero]; omega
    · rw [hbit, Nat.mul_one]; omega

theorem repeat_shiftRightOne (hd : 0 < d) (h : Kept m d em) (n : Nat) :
    Kept m (d * 2 ^ n) (n.repeat ExtendedMantissa.shiftRightOne em) := by
  induction n with
  | zero =>
    rw [pow_zero, Nat.mul_one]
    exact h
  | succ n ih =>
    rw [pow_succ, ← mul_assoc]
    exact ih.shiftRightOne (Nat.mul_pos hd (Nat.two_pow_pos n))

theorem roundedMantissa (hd : 0 < d) (h : Kept m d em) : em.roundedMantissa = nearest m d := by
  obtain ⟨q, round, sticky⟩ := em
  obtain ⟨hq, hround, hsticky⟩ := h
  dsimp only at hq hround hsticky
  unfold ExtendedMantissa.roundedMantissa nearest
  rw [← hq]
  cases round <;> cases sticky <;>
    simp only [ExtendedMantissa.accuracy, Accuracy.roundToNearestEven, Bool.false_eq_true,
      false_iff, true_iff, not_le, not_and, not_not] at hround hsticky ⊢
  · rw [if_pos hround]
  · rw [if_pos hround]
  · rw [if_neg (by omega), if_pos (by omega)]
  · rw [if_neg (by omega), if_neg (by omega)]

end Kept

theorem log2_eq {m k : Nat} (hlow : 2 ^ k ≤ m) (hhigh : m < 2 ^ (k + 1)) : m.log2 = k := by
  have hpos := Nat.two_pow_pos k
  exact (Nat.log2_eq_iff (by omega)).2 ⟨hlow, hhigh⟩

theorem log2_mul_two_pow {m : Nat} (hm : m ≠ 0) (k : Nat) : (m * 2 ^ k).log2 = m.log2 + k := by
  have hlow := Nat.mul_le_mul_right (2 ^ k) (Nat.log2_self_le hm)
  have hhigh := Nat.mul_lt_mul_of_pos_right (Nat.lt_log2_self (n := m)) (Nat.two_pow_pos k)
  rw [← pow_add] at hlow hhigh
  exact log2_eq hlow (by rwa [Nat.add_right_comm])

/-- The exponent to which a mantissa is shifted. -/
def target (m : Nat) (e : ℤ) : ℤ := max (m.log2 + 1 + e - 53) (-1074)

/-- A mantissa of 53 bits. -/
structure Full (m : Nat) : Prop where
  low : 2 ^ 52 ≤ m
  high : m < 2 ^ 53

theorem Full.pos {m : Nat} (h : Full m) : 0 < m := (Nat.two_pow_pos 52).trans_le h.low

theorem Full.log2 {m : Nat} (h : Full m) : m.log2 = 52 := log2_eq h.low h.high

theorem shiftToTargetExponent_eq (m : Nat) (e : ℤ) (accuracy : Accuracy) :
    shiftToTargetExponent .binary64 m e accuracy =
      ((target m e - e).toNat.repeat ExtendedMantissa.shiftRightOne
        (.ofMantissaAndAccuracy m accuracy), e + (target m e - e).toNat) := rfl

/-- A quotient of at least 53 bits becomes a number of 53 bits. Its bits are those of the exponent,
and behind them the rounded mantissa without its first bit; a mantissa that is rounded up to 54 bits
raises the exponent by one. -/
theorem roundWithAccuracy_eq {m d : Nat} {e t : ℤ} (hd : 0 < d) (hm : 2 ^ 52 ≤ m / d)
    (ht : t = (m / d).log2 + e - 52) (hlow : -1074 ≤ t) : ∃ r u h,
      roundWithAccuracy .binary64 .positive (m / d) e (accuracyOfFraction (m % d) d)
        = .finite .positive r u h ∧
      Full r ∧ t ≤ u ∧ u ≤ t + 1 ∧
      (u + 1074) * 2 ^ 52 + r = (t + 1074) * 2 ^ 52 + nearest m (d * 2 ^ ((m / d).log2 - 52)) := by
  have hlog : 52 ≤ (m / d).log2 := (Nat.le_log2 (by omega)).2 hm
  obtain ⟨hquot, hnext⟩ := nearest_bounds m (d * 2 ^ ((m / d).log2 - 52))
  rw [← Nat.div_div_eq_div_mul] at hquot hnext
  have hfirst : 2 ^ 52 ≤ m / d / 2 ^ ((m / d).log2 - 52) := by
    rw [Nat.le_div_iff_mul_le (Nat.two_pow_pos _), ← pow_add, Nat.add_sub_cancel' hlog]
    exact Nat.log2_self_le (by omega)
  have hlast : m / d / 2 ^ ((m / d).log2 - 52) < 2 ^ 53 := by
    rw [Nat.div_lt_iff_lt_mul (Nat.two_pow_pos _), ← pow_add,
      show 53 + ((m / d).log2 - 52) = (m / d).log2 + 1 by omega]
    exact Nat.lt_log2_self
  have hshift : shiftToTargetExponent .binary64 (m / d) e (accuracyOfFraction (m % d) d) =
      (((m / d).log2 - 52).repeat ExtendedMantissa.shiftRightOne
        (.ofMantissaAndAccuracy (m / d) (accuracyOfFraction (m % d) d)), t) := by
    have htarget : target (m / d) e = t := by unfold target; omega
    rw [shiftToTargetExponent_eq, htarget, show (t - e).toNat = (m / d).log2 - 52 by omega,
      show e + ((m / d).log2 - 52 : ℕ) = t by omega]
  have hkept := (Kept.ofFraction m hd).repeat_shiftRightOne hd ((m / d).log2 - 52)
  have hrounded := hkept.roundedMantissa (Nat.mul_pos hd (Nat.two_pow_pos _))
  generalize nearest m (d * 2 ^ ((m / d).log2 - 52)) = r at hquot hnext hrounded ⊢
  unfold roundWithAccuracy
  rw [hshift]
  dsimp only
  rw [hrounded, shiftToTargetExponent_eq]
  rcases (show r ≤ 2 ^ 53 by omega).lt_or_eq with hlt | rfl
  · -- of 53 bits the mantissa is not shifted again
    have hfull : Full r := ⟨by omega, hlt⟩
    have hbits := hfull.log2
    have htarget : target r t = t := by unfold target; omega
    rw [htarget, Int.sub_self]
    refine ⟨r, t, hfull.pos, ?_, hfull, by omega, by omega, rfl⟩
    simp only [ExtendedMantissa.ofMantissaAndAccuracy, Int.toNat_zero, Nat.repeat, Nat.cast_zero,
      add_zero]
    exact dif_neg (by omega)
  · -- of 54 bits it is the next power of two, and loses a zero
    have htarget : target (2 ^ 53) t = t + 1 := by unfold target; rw [Nat.log2_two_pow]; omega
    rw [htarget, show (t + 1 - t).toNat = 1 by omega]
    exact ⟨2 ^ 52, t + 1, by omega, rfl, ⟨le_rfl, by omega⟩, by omega, by omega, by omega⟩

/-- A whole number of at least 53 bits. -/
theorem roundWithAccuracy_exact {m : Nat} {e t : ℤ} (hm : 2 ^ 52 ≤ m) (ht : t = m.log2 + e - 52)
    (hlow : -1074 ≤ t) : ∃ r u h,
      roundWithAccuracy .binary64 .positive m e .exact = .finite .positive r u h ∧
      Full r ∧ t ≤ u ∧ u ≤ t + 1 ∧
      (u + 1074) * 2 ^ 52 + r = (t + 1074) * 2 ^ 52 + nearest m (2 ^ (m.log2 - 52)) := by
  have h := roundWithAccuracy_eq (m := m) (e := e) (t := t) Nat.one_pos
  rw [Nat.div_one, Nat.mod_one, Nat.one_mul] at h
  exact h hm ht hlow

/-! ## Bits -/

theorem pack_eq {r : Nat} {u : ℤ} (h : 0 < r) (hfull : Full r)
    (hu' : u ≤ 970) :
    UnpackedFloat.pack .binary64 (.finite .positive r u h) =
      packComponents .binary64 .positive (BitVec.ofNat 11 (u + 1075).toNat) (BitVec.ofNat 52 r) := by
  have hbiased : (u + Format.binary64.exponentBias
      + Format.binary64.mantissaBitsWithoutImplicit).toNat = (u + 1075).toNat := by
    show (u + (1023 : ℕ) + (52 : ℕ)).toNat = _
    omega
  have hmantissa : 52 + 1 = Format.binary64.mantissaBits := rfl
  unfold UnpackedFloat.pack
  dsimp only
  rw [hbiased, hfull.log2, if_neg (by omega), if_pos hmantissa]

/-- The bits of a normal number. -/
theorem toNat_pack {r : Nat} {u : ℤ} (h : 0 < r) (hfull : Full r)
    (hu : -1074 ≤ u) (hu' : u ≤ 970) :
    ((UnpackedFloat.pack .binary64 (.finite .positive r u h)).toNat : ℤ) =
      (u + 1074) * 2 ^ 52 + r := by
  obtain ⟨hlow, hhigh⟩ := hfull
  rw [pack_eq h ⟨hlow, hhigh⟩ hu']
  unfold packComponents
  rw [BitVec.toNat_append, ← Nat.shiftLeft_add_eq_or_of_lt (BitVec.isLt _), BitVec.toNat_append,
    ← Nat.shiftLeft_add_eq_or_of_lt (BitVec.isLt _), Nat.shiftLeft_eq, BitVec.toNat_ofNat,
    BitVec.toNat_ofNat, show (Sign.toBitVec .positive).toNat = 0 from rfl]
  omega

/-- A number as it is read back from its bits. -/
def reread (x : UnpackedFloat) : UnpackedFloat :=
  UnpackedFloat.unpack .binary64 (UnpackedFloat.pack .binary64 x)

theorem reread_finite {r : Nat} {u : ℤ} (h : 0 < r) (hfull : Full r)
    (hu : -1074 ≤ u) (hu' : u ≤ 970) :
    reread (.finite .positive r u h) = .finite .positive r u h := by
  obtain ⟨hlow, hhigh⟩ := hfull
  have hexponent : (BitVec.ofNat 11 (u + 1075).toNat).toNat = (u + 1075).toNat := by
    rw [BitVec.toNat_ofNat]
    omega
  have hmantissa : (1#1 ++ BitVec.ofNat 52 r).toNat = r := by
    rw [BitVec.toNat_append, ← Nat.shiftLeft_add_eq_or_of_lt (BitVec.isLt _), BitVec.toNat_ofNat,
      Nat.shiftLeft_eq]
    show 1 * 2 ^ 52 + r % 2 ^ 52 = r
    omega
  have hnotLast : BitVec.ofNat 11 (u + 1075).toNat ≠ -1#11 := by
    rw [ne_eq, ← BitVec.toNat_inj, hexponent]
    show (u + 1075).toNat ≠ 2047
    omega
  have hnotFirst : BitVec.ofNat 11 (u + 1075).toNat ≠ 0#11 := by
    rw [ne_eq, ← BitVec.toNat_inj, hexponent]
    show (u + 1075).toNat ≠ 0
    omega
  have hsign : Sign.ofBitVec (unpackSign (packComponents .binary64 .positive
      (BitVec.ofNat 11 (u + 1075).toNat) (BitVec.ofNat 52 r))) = .positive := by
    simp only [unpackSign, packComponents, BitVec.extractLsb]
    rw [BitVec.extractLsb'_append_eq_of_le (by omega),
      BitVec.extractLsb'_append_eq_of_le (by omega)]
    rfl
  unfold reread
  rw [pack_eq h ⟨hlow, hhigh⟩ hu']
  unfold UnpackedFloat.unpack
  simp only [unpackMantissa_packComponents, unpackExponent_packComponents]
  rw [if_neg hnotLast, if_neg hnotFirst, hsign]
  simp only [hmantissa, hexponent]
  congr 1
  show ((u + 1075).toNat : ℤ) - ((1023 : ℕ) + (52 : ℕ)) = u
  omega

end Ingress.Rounding
