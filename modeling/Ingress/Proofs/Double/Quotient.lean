import Ingress.Proofs.Double.OfNat
import Mathlib

/-!
# Quotients of doubles

A quotient of two positive normal numbers is taken to 53 bits or more and then rounded, so its bits are
known, and they shrink while the divisor grows.

* `quotientBits` : the bits of a quotient; `quotientBits_anti` : in the divisor they shrink;
* `Double.Normal d r u` : `d` is the positive normal number `r * 2 ^ u`;
* `Normal.div` : the quotient of two such numbers is one, with those bits;
* `key_div_ofNat_anti` : a whole number divided by a greater one gives no greater double;
* `div_ofNat_le_one` : a part of a whole number divided by it gives at most one.
-/

namespace Ingress.Rounding

open Float.Model Float.Model.UnpackedFloat

/-- The bits of `m₁ / m₂ * 2 ^ e`. -/
def quotientBits (m₁ m₂ : Nat) (e : ℤ) : ℤ :=
  ((m₁ * 2 ^ 53 / m₂).log2 + e + 969) * 2 ^ 52 +
    nearest (m₁ * 2 ^ 53) (m₂ * 2 ^ ((m₁ * 2 ^ 53 / m₂).log2 - 52))

variable {m₁ m₂ m₂' : Nat} {e₁ e₂ e₂' : ℤ}

theorem le_quotient (h₁ : Full m₁) (h₂ : Full m₂) : 2 ^ 52 ≤ m₁ * 2 ^ 53 / m₂ := by
  rw [Nat.le_div_iff_mul_le h₂.pos]
  exact (Nat.mul_le_mul_left _ h₂.high.le).trans (Nat.mul_le_mul_right _ h₁.low)

/-- A quotient is taken to 53 or 54 bits, to 54 when the divisor is no greater. -/
theorem log2_quotient (h₁ : Full m₁) (h₂ : Full m₂) :
    (m₁ * 2 ^ 53 / m₂).log2 = 53 ∧ m₂ ≤ m₁ ∨ (m₁ * 2 ^ 53 / m₂).log2 = 52 ∧ m₁ < m₂ := by
  have hlow₁ := h₁.low
  have hhigh₁ := h₁.high
  have hlow₂ := h₂.low
  rcases le_or_gt m₂ m₁ with hle | hlt
  · refine .inl ⟨log2_eq ?_ ?_, hle⟩
    · rw [Nat.le_div_iff_mul_le h₂.pos]
      omega
    · rw [Nat.div_lt_iff_lt_mul h₂.pos]
      omega
  · refine .inr ⟨log2_eq (le_quotient h₁ h₂) ?_, hlt⟩
    rw [Nat.div_lt_iff_lt_mul h₂.pos]
    omega

/-- The mantissa of a quotient before its last bits are shifted out. -/
theorem divCore_eq (h₁ : Full m₁) (h₂ : Full m₂) (he : -900 ≤ e₁ - e₂) :
    divCore .binary64 m₁ e₁ m₂ e₂ =
      (m₁ * 2 ^ 53 / m₂, e₁ - e₂ - 53, accuracyOfFraction (m₁ * 2 ^ 53 % m₂) m₂) := by
  have htarget : Format.targetExponent .binary64 (totalExponent m₁ e₁ - totalExponent m₂ e₂)
      = e₁ - e₂ - 53 := by
    show max ((m₁.log2 : ℤ) + 1 + e₁ - (m₂.log2 + 1 + e₂) - 53) (-1074) = _
    rw [h₁.log2, h₂.log2]
    omega
  unfold divCore
  dsimp only
  rw [htarget, min_eq_right (by omega), show (e₁ - e₂ - (e₁ - e₂ - 53)).toNat = 53 by omega,
    Nat.shiftLeft_eq]

theorem div_eq (h₁ : Full m₁) (h₂ : Full m₂) (hfirst : -900 ≤ e₁ - e₂) (hlast : e₁ - e₂ ≤ 900) :
    ∃ r u h,
      UnpackedFloat.div .binary64 (.finite .positive m₁ e₁ h₁.pos) (.finite .positive m₂ e₂ h₂.pos)
        = .finite .positive r u h ∧
      Full r ∧ -1074 ≤ u ∧ u ≤ 970 ∧
      (u + 1074) * 2 ^ 52 + r = quotientBits m₁ m₂ (e₁ - e₂) := by
  have hlog := log2_quotient h₁ h₂
  obtain ⟨r, u, h, heq, hfull, hu, hu', hbits⟩ :=
    roundWithAccuracy_eq (e := e₁ - e₂ - 53) h₂.pos (le_quotient h₁ h₂) rfl (by omega)
  refine ⟨r, u, h, ?_, hfull, by omega, by omega, ?_⟩
  · unfold UnpackedFloat.div
    dsimp only
    rw [divCore_eq h₁ h₂ hfirst]
    exact heq
  · unfold quotientBits
    rw [hbits]
    ring

theorem nearest_quotient (h₁ : Full m₁) (h₂ : Full m₂) :
    2 ^ 52 ≤ nearest (m₁ * 2 ^ 53) (m₂ * 2 ^ ((m₁ * 2 ^ 53 / m₂).log2 - 52)) ∧
      nearest (m₁ * 2 ^ 53) (m₂ * 2 ^ ((m₁ * 2 ^ 53 / m₂).log2 - 52)) ≤ 2 ^ 53 := by
  obtain ⟨hquot, hnext⟩ :=
    nearest_bounds (m₁ * 2 ^ 53) (m₂ * 2 ^ ((m₁ * 2 ^ 53 / m₂).log2 - 52))
  have hne : m₁ * 2 ^ 53 / m₂ ≠ 0 := by have := le_quotient h₁ h₂; omega
  obtain ⟨hlow, hhigh⟩ := (Nat.log2_eq_iff hne).1 rfl
  rw [← Nat.div_div_eq_div_mul] at hquot hnext
  rcases log2_quotient h₁ h₂ with ⟨hlog, _⟩ | ⟨hlog, _⟩ <;> rw [hlog] at hquot hnext hlow hhigh ⊢ <;>
    omega

/-- The bits of a quotient shrink while the bits of the divisor grow. -/
theorem quotientBits_anti (h₁ : Full m₁) (h₂ : Full m₂) (h₂' : Full m₂')
    (h : e₂ * 2 ^ 52 + m₂ ≤ e₂' * 2 ^ 52 + m₂') :
    quotientBits m₁ m₂' (e₁ - e₂') ≤ quotientBits m₁ m₂ (e₁ - e₂) := by
  have hlow := h₂.low
  have hhigh := h₂.high
  have hlow' := h₂'.low
  have hhigh' := h₂'.high
  have hlog := log2_quotient h₁ h₂
  have hlog' := log2_quotient h₁ h₂'
  have hbounds := nearest_quotient h₁ h₂
  have hbounds' := nearest_quotient h₁ h₂'
  unfold quotientBits
  by_cases hexp : ((m₁ * 2 ^ 53 / m₂').log2 : ℤ) + (e₁ - e₂')
      = (m₁ * 2 ^ 53 / m₂).log2 + (e₁ - e₂)
  · -- of one exponent, the quotients compare by their divisors
    have hdivisor : m₂ * 2 ^ ((m₁ * 2 ^ 53 / m₂).log2 - 52)
        ≤ m₂' * 2 ^ ((m₁ * 2 ^ 53 / m₂').log2 - 52) := by
      rcases hlog with ⟨hlog, _⟩ | ⟨hlog, _⟩ <;> rcases hlog' with ⟨hlog', _⟩ | ⟨hlog', _⟩ <;>
        rw [hlog, hlog'] at hexp ⊢ <;> omega
    have hnearest := nearest_mono (Nat.mul_pos h₂'.pos (Nat.two_pow_pos _))
      (Nat.mul_pos h₂.pos (Nat.two_pow_pos _)) (Nat.mul_le_mul_left (m₁ * 2 ^ 53) hdivisor)
    rw [hexp]
    exact Int.add_le_add_left (Int.ofNat_le.2 hnearest) _
  · -- the greater divisor gives the lesser exponent
    have hless : ((m₁ * 2 ^ 53 / m₂').log2 : ℤ) + (e₁ - e₂') + 1
        ≤ (m₁ * 2 ^ 53 / m₂).log2 + (e₁ - e₂) := by omega
    omega

/-- A number divided by itself has the bits of one. -/
theorem quotientBits_self (h : Full m₁) : quotientBits m₁ m₁ 0 = 1023 * 2 ^ 52 := by
  have hquot : m₁ * 2 ^ 53 / m₁ = 2 ^ 53 := Nat.mul_div_cancel_left _ h.pos
  have hnearest : nearest (m₁ * 2 ^ 53) (m₁ * 2 ^ (53 - 52)) = 2 ^ 52 := by
    rw [show m₁ * 2 ^ 53 = 2 ^ 52 * (m₁ * 2 ^ (53 - 52)) by ring]
    exact nearest_mul_self _ (Nat.mul_pos h.pos (Nat.two_pow_pos _))
  unfold quotientBits
  rw [hquot, Nat.log2_two_pow, hnearest]
  norm_num

end Ingress.Rounding

namespace Ingress.Double

open Rounding Float.Model

/-- The positive normal number `r * 2 ^ u`. -/
structure Normal (d : Double) (r : Nat) (u : ℤ) : Prop where
  full : Full r
  first : -1074 ≤ u
  last : u ≤ 970
  bits : (d.bits.toNat : ℤ) = (u + 1074) * 2 ^ 52 + r

namespace Normal

variable {a b : Double} {m₁ m₂ r : Nat} {e₁ e₂ u : ℤ}

theorem key (h : Normal a r u) : a.key = (u + 1074) * 2 ^ 52 + r := by
  obtain ⟨⟨hlow, hhigh⟩, hfirst, hlast, hbits⟩ := h
  unfold Double.key magnitude negative
  rw [Nat.pow_eq, if_neg (by simp only [decide_eq_true_eq]; omega)]
  omega

theorem isNaN (h : Normal a r u) : a.isNaN = false := by
  obtain ⟨⟨hlow, hhigh⟩, hfirst, hlast, hbits⟩ := h
  unfold Double.isNaN magnitude infinityBits
  rw [Nat.pow_eq, decide_eq_false_iff_not]
  omega

theorem pack (h : Normal a r u) :
    a.bits.toBitVec = UnpackedFloat.pack .binary64 (.finite .positive r u h.full.pos) := by
  have hpack := toNat_pack h.full.pos h.full h.first h.last
  rw [← h.bits] at hpack
  exact BitVec.eq_of_toNat_eq (by exact_mod_cast hpack.symm)

theorem of_pack (hfull : Full r) (hfirst : -1074 ≤ u) (hlast : u ≤ 970)
    (h : a.bits.toBitVec = UnpackedFloat.pack .binary64 (.finite .positive r u hfull.pos)) :
    Normal a r u := by
  refine ⟨hfull, hfirst, hlast, ?_⟩
  rw [← toNat_pack hfull.pos hfull hfirst hlast, ← h]
  rfl

theorem reread (h : Normal a r u) :
    Rounding.reread (UnpackedFloat.unpack .binary64 a.bits.toBitVec) =
      .finite .positive r u h.full.pos := by
  have hreread := reread_finite h.full.pos h.full h.first h.last
  rw [h.pack]
  show Rounding.reread (Rounding.reread _) = _
  rw [hreread, hreread]

/-- A quotient, by the numbers that are read back from the bits. -/
theorem toBitVec_div (a b : Double) : (a.div b).bits.toBitVec = UnpackedFloat.pack .binary64
    (UnpackedFloat.div .binary64 (Rounding.reread (UnpackedFloat.unpack .binary64 a.bits.toBitVec))
      (Rounding.reread (UnpackedFloat.unpack .binary64 b.bits.toBitVec))) := rfl

/-- The quotient of two positive normal numbers of moderate exponents is one too. -/
theorem div (ha : Normal a m₁ e₁) (hb : Normal b m₂ e₂) (hfirst : -900 ≤ e₁ - e₂)
    (hlast : e₁ - e₂ ≤ 900) : ∃ r u, Normal (a.div b) r u ∧
      (a.div b).key = quotientBits m₁ m₂ (e₁ - e₂) := by
  obtain ⟨r, u, h, heq, hfull, hu, hu', hbits⟩ := div_eq ha.full hb.full hfirst hlast
  have hdiv := toBitVec_div a b
  rw [ha.reread, hb.reread, heq] at hdiv
  have hnormal := of_pack hfull hu hu' hdiv
  exact ⟨r, u, hnormal, hnormal.key.trans hbits⟩

theorem zero_div (hb : Normal b m₂ e₂) : zero.div b = zero := by
  have hdiv := toBitVec_div zero b
  rw [hb.reread, show Rounding.reread _ = UnpackedFloat.zero .positive from rfl] at hdiv
  exact congrArg Double.mk (UInt64.toBitVec_inj.1 hdiv)

end Normal

/-- A positive whole number is normal. -/
theorem normal_ofNat {n : Nat} (hn : n ≠ 0) (hlog : n.log2 ≤ 400) :
    ∃ r u, Normal (ofNat n) r u ∧ -52 ≤ u ∧ u ≤ 349 := by
  have hbits := toNat_bits_ofNat hn (by omega)
  have hbounds := nearest_wholeBits hn
  unfold wholeBits at hbits
  rcases hbounds.2.lt_or_eq with hlt | heq
  · exact ⟨_, n.log2 - 52, ⟨⟨hbounds.1, hlt⟩, by omega, by omega, by rw [hbits]; push_cast; ring⟩,
      by omega, by omega⟩
  · rw [heq] at hbits
    exact ⟨2 ^ 52, n.log2 - 51, ⟨⟨le_rfl, by omega⟩, by omega, by omega, by omega⟩, by omega,
      by omega⟩

/-- A positive whole number divided by another one is a number. -/
theorem isNaN_div_ofNat {m n : Nat} (hm : m ≠ 0) (hn : n ≠ 0) (hmlog : m.log2 ≤ 400)
    (hnlog : n.log2 ≤ 400) : ((ofNat m).div (ofNat n)).isNaN = false := by
  obtain ⟨_, _, hnum, _, _⟩ := normal_ofNat hm hmlog
  obtain ⟨_, _, hden, _, _⟩ := normal_ofNat hn hnlog
  obtain ⟨_, _, hquot, _⟩ := hnum.div hden (by omega) (by omega)
  exact hquot.isNaN

/-- A positive whole number divided by a greater one gives no greater double. -/
theorem key_div_ofNat_anti {m n n' : Nat} (hm : m ≠ 0) (hn : n ≠ 0) (h : n ≤ n')
    (hmlog : m.log2 ≤ 400) (hnlog : n'.log2 ≤ 400) :
    ((ofNat m).div (ofNat n')).key ≤ ((ofNat m).div (ofNat n)).key := by
  have hn' : n' ≠ 0 := by omega
  have hlog : n.log2 ≤ n'.log2 := (Nat.le_log2 hn').2 ((Nat.log2_self_le hn).trans h)
  have hbits := wholeBits_mono hn h
  rw [← toNat_bits_ofNat hn (by omega), ← toNat_bits_ofNat hn' (by omega)] at hbits
  obtain ⟨_, _, hnum, _, _⟩ := normal_ofNat hm hmlog
  obtain ⟨_, _, hden, _, _⟩ := normal_ofNat hn (hlog.trans hnlog)
  obtain ⟨_, _, hden', _, _⟩ := normal_ofNat hn' hnlog
  obtain ⟨_, _, _, hkey⟩ := hnum.div hden (by omega) (by omega)
  obtain ⟨_, _, _, hkey'⟩ := hnum.div hden' (by omega) (by omega)
  rw [hkey, hkey']
  have hgrow := hden.bits
  have hgrow' := hden'.bits
  exact quotientBits_anti hnum.full hden.full hden'.full (by omega)

theorem key_div_ofNat_self {n : Nat} (hn : n ≠ 0) (hlog : n.log2 ≤ 400) :
    ((ofNat n).div (ofNat n)).key = (ofNat 1).key := by
  have hone : (ofNat 1).key = 1023 * 2 ^ 52 := by decide +kernel
  obtain ⟨_, _, hnum, _, _⟩ := normal_ofNat hn hlog
  obtain ⟨_, _, _, hkey⟩ := hnum.div hnum (by omega) (by omega)
  rw [hkey, sub_self, quotientBits_self hnum.full, hone]

/-- A part of a positive whole number divided by it is at most one. -/
theorem div_ofNat_le_one {m n : Nat} (hn : n ≠ 0) (h : m ≤ n) (hlog : n.log2 ≤ 400) :
    ((ofNat m).div (ofNat n)).le (ofNat 1) = true := by
  have hone : (ofNat 1).isNaN = false := by decide +kernel
  obtain ⟨_, _, hden, _, _⟩ := normal_ofNat hn hlog
  unfold Double.le
  rcases Nat.eq_zero_or_pos m with rfl | hm
  · rw [ofNat_zero, hden.zero_div]
    decide +kernel
  · have hmlog : m.log2 ≤ n.log2 := (Nat.le_log2 hn).2 ((Nat.log2_self_le hm.ne').trans h)
    have hkey := key_div_ofNat_anti hm.ne' hm.ne' h (hmlog.trans hlog) hlog
    rw [key_div_ofNat_self hm.ne' (hmlog.trans hlog)] at hkey
    rw [isNaN_div_ofNat hm.ne' hn (hmlog.trans hlog) hlog, hone]
    simpa using hkey

end Ingress.Double
