import Ingress.Proofs.Double.Quotient
import Mathlib

/-!
# Products of doubles

The product of two positive normal numbers is exact before it is rounded to 53 bits. A whole number
times the double of a fraction is therefore off by little, and its whole part is that of the exact
product: a product that should be whole is rounded to it, and any other is too far from the next whole
number to reach it.

* `Normal.mul` : the product of two positive normal numbers;
* `Normal.wholeMagnitude` : the whole part of a positive normal number;
* `IsBelow d a b` : `d` is `a / b`, between a half and one, or less by a small part of its last bit;
* `wholeMagnitude_mul` : the whole part of a whole number times such a double.
-/

namespace Ingress.Rounding

open Float.Model Float.Model.UnpackedFloat

variable {m₁ m₂ : Nat} {e₁ e₂ : ℤ}

/-- A product of two mantissas has 105 or 106 bits. -/
theorem log2_product (h₁ : Full m₁) (h₂ : Full m₂) :
    (m₁ * m₂).log2 = 104 ∧ m₁ * m₂ < 2 ^ 105 ∨ (m₁ * m₂).log2 = 105 ∧ m₁ * m₂ < 2 ^ 106 := by
  have hlow := Nat.mul_le_mul h₁.low h₂.low
  have hhigh := Nat.mul_lt_mul'' h₁.high h₂.high
  rw [← pow_add] at hlow hhigh
  rcases lt_or_ge (m₁ * m₂) (2 ^ 105) with hlt | hge
  · exact .inl ⟨log2_eq hlow hlt, hlt⟩
  · exact .inr ⟨log2_eq hge hhigh, hhigh⟩

theorem mul_eq (h₁ : Full m₁) (h₂ : Full m₂) {t : ℤ} (ht : t = (m₁ * m₂).log2 + (e₁ + e₂) - 52)
    (hlow : -1074 ≤ t) : ∃ r u h,
      UnpackedFloat.mul .binary64 (.finite .positive m₁ e₁ h₁.pos) (.finite .positive m₂ e₂ h₂.pos)
        = .finite .positive r u h ∧
      Full r ∧ t ≤ u ∧ u ≤ t + 1 ∧
      (u + 1074) * 2 ^ 52 + r =
        (t + 1074) * 2 ^ 52 + nearest (m₁ * m₂) (2 ^ ((m₁ * m₂).log2 - 52)) := by
  have hbits : 2 ^ 52 ≤ m₁ * m₂ := by
    have := Nat.mul_le_mul h₁.low h₂.pos
    omega
  exact roundWithAccuracy_exact hbits ht hlow

theorem nearest_product (h₁ : Full m₁) (h₂ : Full m₂) :
    nearest (m₁ * m₂) (2 ^ ((m₁ * m₂).log2 - 52)) ≤ 2 ^ 53 := by
  obtain ⟨hquot, hnext⟩ := nearest_bounds (m₁ * m₂) (2 ^ ((m₁ * m₂).log2 - 52))
  have hlast : m₁ * m₂ / 2 ^ ((m₁ * m₂).log2 - 52) < 2 ^ 53 := by
    rw [Nat.div_lt_iff_lt_mul (Nat.two_pow_pos _), ← pow_add]
    rcases log2_product h₁ h₂ with ⟨hlog, hlt⟩ | ⟨hlog, hlt⟩ <;> rw [hlog] <;> exact hlt
  omega

/-- A mantissa that was rounded up to 54 bits lost a zero, so its whole part is the same. -/
theorem div_of_carry {r n k j : Nat} {t u : ℤ} (hr : Full r) (hn : n ≤ 2 ^ 53) (htu : t ≤ u)
    (hut : u ≤ t + 1) (hbits : (u + 1074) * 2 ^ 52 + r = (t + 1074) * 2 ^ 52 + n)
    (ht : t = -(k : ℤ)) (hu : u = -(j : ℤ)) : r / 2 ^ j = n / 2 ^ k := by
  obtain ⟨hlow, hhigh⟩ := hr
  rcases htu.lt_or_eq with hlt | rfl
  · obtain rfl : k = j + 1 := by omega
    have hcarry : n = r * 2 := by omega
    rw [hcarry, pow_succ, Nat.mul_div_mul_right _ _ two_pos]
  · obtain rfl : k = j := by omega
    rw [show n = r by omega]

/-- A quotient is rounded as it is, however it is written. -/
theorem nearest_mul_mul (m d : Nat) {c : Nat} (hc : 0 < c) : nearest (m * c) (d * c) = nearest m d := by
  have hless : 2 * (m % d * c) < d * c ↔ 2 * (m % d) < d := by
    rw [← mul_assoc, Nat.mul_lt_mul_right hc]
  have hhalf : 2 * (m % d * c) = d * c ↔ 2 * (m % d) = d := by
    rw [← mul_assoc, Nat.mul_left_inj hc.ne']
  unfold nearest
  rw [Nat.mul_mod_mul_right, Nat.mul_div_mul_right _ _ hc]
  simp only [hless, hhalf]

/-- What is within half a unit of a multiple of `e` units is rounded to it or beyond. -/
theorem le_nearest {m d e k : Nat} (hd : 0 < d) (h : 2 * (k * (d * e)) < 2 * m + d) :
    k * e ≤ nearest m d := by
  have hdiv := Nat.div_add_mod m d
  have hrest := Nat.mod_lt m hd
  have hprod : 2 * (k * (d * e)) = 2 * (d * (k * e)) := by ring
  by_contra hless
  have hbounds := nearest_bounds m d
  -- the whole part is less than the multiple, so the rest has to round up
  have hnext : d * (m / d + 1) ≤ d * (k * e) := Nat.mul_le_mul_left d (by omega)
  rw [Nat.mul_add, Nat.mul_one] at hnext
  have hup : m / d + 1 = nearest m d := by
    unfold nearest
    rw [if_neg (by omega), if_neg (by omega)]
  have hfar : d * (nearest m d + 1) ≤ d * (k * e) := Nat.mul_le_mul_left d (by omega)
  rw [← hup] at hfar
  simp only [Nat.mul_add, Nat.mul_one] at hfar
  omega

/-- What is more than half a unit below a multiple of `e` units is rounded to less. -/
theorem nearest_lt {m d e k : Nat} (hd : 0 < d) (h : 2 * m + d < 2 * (k * (d * e))) :
    nearest m d < k * e := by
  have hdiv := Nat.div_add_mod m d
  have hprod : 2 * (k * (d * e)) = 2 * (d * (k * e)) := by ring
  have hless : m / d < k * e := by
    by_contra hge
    have := Nat.mul_le_mul_left d (not_lt.1 hge)
    omega
  have hbounds := nearest_bounds m d
  by_contra hge
  have hlast : d * (m / d + 1) = d * (k * e) := by rw [show m / d + 1 = k * e by omega]
  rw [Nat.mul_add, Nat.mul_one] at hlast
  have hdown : nearest m d = m / d := by
    unfold nearest
    rw [if_pos (by omega)]
  omega

end Ingress.Rounding

namespace Ingress.Double

open Rounding Float.Model

namespace Normal

variable {a b : Double} {m₁ m₂ r : Nat} {e₁ e₂ t u : ℤ}

/-- A product, by the numbers that are read back from the bits. -/
theorem toBitVec_mul (a b : Double) : (a.mul b).bits.toBitVec = UnpackedFloat.pack .binary64
    (UnpackedFloat.mul .binary64 (Rounding.reread (UnpackedFloat.unpack .binary64 a.bits.toBitVec))
      (Rounding.reread (UnpackedFloat.unpack .binary64 b.bits.toBitVec))) := rfl

/-- The product of two positive normal numbers of moderate exponents is one too. -/
theorem mul (ha : Normal a m₁ e₁) (hb : Normal b m₂ e₂)
    (ht : t = (m₁ * m₂).log2 + (e₁ + e₂) - 52) (hlow : -1074 ≤ t) (hhigh : t ≤ 969) :
    ∃ r u, Normal (a.mul b) r u ∧ t ≤ u ∧ u ≤ t + 1 ∧
      (u + 1074) * 2 ^ 52 + r =
        (t + 1074) * 2 ^ 52 + nearest (m₁ * m₂) (2 ^ ((m₁ * m₂).log2 - 52)) := by
  obtain ⟨r, u, h, heq, hfull, htu, hut, hbits⟩ := mul_eq ha.full hb.full ht hlow
  have hmul := toBitVec_mul a b
  rw [ha.reread, hb.reread, heq] at hmul
  exact ⟨r, u, of_pack hfull (by omega) (by omega) hmul, htu, hut, hbits⟩

theorem parts (h : Normal a r u) : a.parts = (r, u) := by
  obtain ⟨⟨hlow, hhigh⟩, hfirst, hlast, hbits⟩ := h
  have hmagnitude : a.magnitude = (u + 1074).toNat * 2 ^ 52 + r := by
    unfold magnitude
    rw [Nat.pow_eq]
    omega
  unfold Double.parts
  rw [hmagnitude]
  simp only [Nat.pow_eq]
  rw [if_neg (by omega)]
  exact Prod.ext (by omega) (by omega)

/-- The whole part of a positive normal number below `2 ^ 53`. -/
theorem wholeMagnitude {k : Nat} (h : Normal a r u) (hu : u = -(k : ℤ)) :
    a.wholeMagnitude = r / 2 ^ k := by
  unfold Double.wholeMagnitude
  rw [h.parts, hu]
  cases k with
  | zero => exact (Nat.mul_one r).trans (Nat.div_one r).symm
  | succ k => rfl

/-- The whole part of a product is that of the rounded product of the mantissas. -/
theorem wholeMagnitude_product {k : Nat} (ha : Normal a m₁ e₁) (hb : Normal b m₂ e₂) (hk : k ≤ 1000)
    (ht : -((k + 1 : ℕ) : ℤ) = (m₁ * m₂).log2 + (e₁ + e₂) - 52) :
    (a.mul b).wholeMagnitude =
      nearest (m₁ * m₂) (2 ^ ((m₁ * m₂).log2 - 52)) / 2 ^ (k + 1) := by
  obtain ⟨r, u, hnormal, htu, hut, hbits⟩ := ha.mul hb ht (by omega) (by omega)
  have hlast := nearest_product ha.full hb.full
  rcases htu.lt_or_eq with hlt | rfl
  · rw [hnormal.wholeMagnitude (show u = -(k : ℤ) by omega)]
    exact div_of_carry hnormal.full hlast htu hut hbits rfl (by omega)
  · rw [hnormal.wholeMagnitude rfl]
    exact div_of_carry hnormal.full hlast htu hut hbits rfl rfl

end Normal

/-- A positive whole number of at most 53 bits is normal, and exact. -/
theorem normal_ofNat_small {n : Nat} (hn : n ≠ 0) (hsmall : n < 2 ^ 53) :
    Normal (ofNat n) (aligned n) (n.log2 - 52) := by
  have hlog := log2_le_of_small hn hsmall
  have hbits := toNat_bits_ofNat hn (by omega)
  unfold wholeBits at hbits
  rw [← aligned_mul hn hsmall, nearest_mul_self _ (Nat.two_pow_pos _)] at hbits
  refine ⟨full_aligned hn hsmall, by omega, by omega, ?_⟩
  rw [hbits]
  push_cast
  ring

/-- The double `d`, between a half and one, is `a / b`, or less by so little that no product with a whole
number notices. -/
structure IsBelow (d : Double) (a b m s : Nat) : Prop where
  normal : Normal d m (-53)
  fraction : b * m + s = a * 2 ^ 53
  close : 2 * s * 2 ^ 53 ≤ b * m

namespace IsBelow

variable {d : Double} {n a b m s q unit : Nat}

/-- The multiple of a fraction is less than half a unit above the product. -/
theorem multiple_lt (h : IsBelow d a b m s) (hb : 0 < b) (hq : b * q ≤ n * a)
    (hunit : n * m < 2 ^ 53 * unit) : 2 * (q * 2 ^ 53) < 2 * (n * m) + unit := by
  have hfraction : n * (b * m) + n * s = n * a * 2 ^ 53 := by rw [← Nat.mul_add, h.fraction]; ring
  have hclose : 2 * (n * s) * 2 ^ 53 ≤ b * (n * m) := by
    have := Nat.mul_le_mul_left n h.close
    linarith
  have hgap : 2 * (n * s) < b * unit := by
    have := Nat.mul_lt_mul_of_pos_left hunit hb
    refine Nat.lt_of_mul_lt_mul_right (a := 2 ^ 53) ?_
    linarith
  have hmultiple := Nat.mul_le_mul_right (2 ^ 53) hq
  refine Nat.lt_of_mul_lt_mul_left (a := b) ?_
  linarith

/-- The product is more than half a unit below the next multiple. -/
theorem lt_next (h : IsBelow d a b m s) (hq : n * a < b * (q + 1)) (hunit : b * unit < 2 ^ 53) :
    2 * (n * m) + unit < 2 * ((q + 1) * 2 ^ 53) := by
  have hfraction : n * (b * m) + n * s = n * a * 2 ^ 53 := by rw [← Nat.mul_add, h.fraction]; ring
  have hnext := Nat.mul_le_mul_right (2 ^ 53) (Nat.succ_le_of_lt hq)
  rw [Nat.succ_mul] at hnext
  refine Nat.lt_of_mul_lt_mul_left (a := b) ?_
  linarith [Nat.zero_le (n * s)]

/-- The whole part of a whole number times such a double is that of its multiple of the fraction. -/
theorem wholeMagnitude_mul (h : IsBelow d a b m s) (hb : 0 < b) (hn : n ≠ 0)
    (hsize : n * b < 2 ^ 52) : ((ofNat n).mul d).wholeMagnitude = n * a / b := by
  have hle := Nat.le_mul_of_pos_right n hb
  have hlog : n.log2 ≤ 51 := Nat.le_of_lt_succ ((Nat.log2_lt hn).2 (by omega))
  have hnumber := normal_ofNat_small hn (by omega)
  have hscaled : aligned n * m = n * m * 2 ^ (52 - n.log2) := by unfold aligned; ring
  obtain ⟨j, hj, hj1, hbits⟩ : ∃ j, (aligned n * m).log2 = 104 + j ∧ j ≤ 1 ∧
      aligned n * m < 2 ^ (105 + j) := by
    rcases log2_product hnumber.full h.normal.full with ⟨hlog, hlt⟩ | ⟨hlog, hlt⟩
    · exact ⟨0, hlog, by omega, hlt⟩
    · exact ⟨1, hlog, le_rfl, hlt⟩
  have hlast : 2 ^ (104 + j - 52) = 2 ^ (n.log2 + j) * 2 ^ (52 - n.log2) := by
    rw [← pow_add]
    congr 1
    omega
  have hwhole : 2 ^ (n.log2 + j) * 2 ^ (52 - n.log2 - j + 1) = 2 ^ 53 := by
    rw [← pow_add]
    congr 1
    omega
  have hproduct : n * m < 2 ^ 53 * 2 ^ (n.log2 + j) := by
    refine Nat.lt_of_mul_lt_mul_right (a := 2 ^ (52 - n.log2)) ?_
    rw [← hscaled, mul_assoc, ← hlast, ← pow_add]
    exact hbits.trans_le (Nat.pow_le_pow_right two_pos (by omega))
  have hunit : b * 2 ^ (n.log2 + j) < 2 ^ 53 := by
    calc b * 2 ^ (n.log2 + j) ≤ b * 2 ^ (n.log2 + 1) :=
          Nat.mul_le_mul_left b (Nat.pow_le_pow_right two_pos (by omega))
      _ ≤ b * (n * 2) := Nat.mul_le_mul_left b (Nat.mul_le_mul_right 2 (Nat.log2_self_le hn))
      _ = n * b * 2 := by ring
      _ < 2 ^ 53 := by omega
  have hquotient := Nat.div_add_mod (n * a) b
  have hrest := Nat.mod_lt (n * a) hb
  rw [hnumber.wholeMagnitude_product (k := 52 - n.log2 - j) h.normal (by omega) (by omega), hj,
    hscaled, hlast, nearest_mul_mul _ _ (Nat.two_pow_pos _)]
  refine Nat.div_eq_of_lt_le (le_nearest (Nat.two_pow_pos _) ?_) (nearest_lt (Nat.two_pow_pos _) ?_)
  · rw [hwhole]
    exact h.multiple_lt hb (by omega) hproduct
  · rw [hwhole]
    exact h.lt_next (by rw [Nat.mul_succ]; omega) hunit

end IsBelow

end Ingress.Double
