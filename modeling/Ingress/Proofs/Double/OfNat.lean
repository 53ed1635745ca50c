import Ingress.Proofs.Double.Rounding
import Ingress.Proofs.Double.Value

/-!
# Whole numbers as doubles

A positive whole number below `2 ^ 1000` becomes the double whose bits are its exponent and its
leading bits, rounded to nearest: the bits, and with them the doubles, grow with the number.

* `wholeBits n` : the bits of a positive whole number as a double;
* `key_ofNat` : its place among the doubles;
* `key_ofNat_mono`, `isFinite_ofNat` : what is used of them.
-/

namespace Ingress.Rounding

open Float.Model Float.Model.UnpackedFloat

/-- The bits of a positive whole number as a double. -/
def wholeBits (n : Nat) : Nat := (n.log2 + 1022) * 2 ^ 52 + nearest (n * 2 ^ 53) (2 ^ (n.log2 + 1))

theorem toNat_pack_roundWithAccuracy {m : Nat} {e : ℤ} {k : Nat} (hm : 2 ^ 52 ≤ m)
    (ht : (k : ℤ) = m.log2 + e) (hk : k ≤ 1000) :
    (UnpackedFloat.pack .binary64 (roundWithAccuracy .binary64 .positive m e .exact)).toNat =
      (k + 1022) * 2 ^ 52 + nearest m (2 ^ (m.log2 - 52)) := by
  obtain ⟨r, u, h, heq, hfull, hu, hu', hbits⟩ :=
    roundWithAccuracy_exact (e := e) (t := (k : ℤ) - 52) hm (by omega) (by omega)
  have hpack := toNat_pack (u := u) h hfull (by omega) (by omega)
  rw [heq]
  omega

theorem ofScientific_eq {n : Nat} (hn : n ≠ 0) : UnpackedFloat.ofScientific .binary64 n 0 =
    roundWithAccuracy .binary64 .positive (n * 2 ^ 53) (-53) .exact := by
  have hrange : ¬ (0 : ℤ) < -((2 ^ 11 : ℤ) + n.log2) := by omega
  unfold UnpackedFloat.ofScientific
  rw [dif_neg hn, if_neg (by decide), if_neg hrange, if_pos le_rfl]
  unfold UnpackedFloat.mul
  dsimp only
  rw [show Format.binary64.mantissaBits = 53 from rfl, Int.toNat_zero, pow_zero, Nat.mul_one,
    Nat.shiftLeft_eq, add_zero]
  rfl

/-- A whole number of any size. -/
theorem toNat_ofScientific {n : Nat} (hn : n ≠ 0) (hlog : n.log2 ≤ 1000) :
    (UnpackedFloat.pack .binary64 (UnpackedFloat.ofScientific .binary64 n 0)).toNat =
      wholeBits n := by
  have hlog53 := log2_mul_two_pow hn 53
  rw [ofScientific_eq hn, toNat_pack_roundWithAccuracy (k := n.log2) (by omega) (by omega) hlog,
    hlog53]
  rfl

/-- A whole number of at most 53 bits, shifted until it has all of them. -/
def aligned (n : Nat) : Nat := n * 2 ^ (52 - n.log2)

theorem log2_le_of_small {n : Nat} (hn : n ≠ 0) (hsmall : n < 2 ^ 53) : n.log2 ≤ 52 :=
  Nat.le_of_lt_succ ((Nat.log2_lt hn).2 hsmall)

theorem log2_aligned {n : Nat} (hn : n ≠ 0) (hsmall : n < 2 ^ 53) : (aligned n).log2 = 52 := by
  have hlog := log2_le_of_small hn hsmall
  unfold aligned
  rw [log2_mul_two_pow hn]
  omega

theorem full_aligned {n : Nat} (hn : n ≠ 0) (hsmall : n < 2 ^ 53) : Full (aligned n) := by
  have hne : aligned n ≠ 0 := Nat.mul_ne_zero hn (Nat.two_pow_pos _).ne'
  obtain ⟨hlow, hhigh⟩ := (Nat.log2_eq_iff hne).1 (log2_aligned hn hsmall)
  exact ⟨hlow, hhigh⟩

theorem aligned_mul {n : Nat} (hn : n ≠ 0) (hsmall : n < 2 ^ 53) :
    aligned n * 2 ^ (n.log2 + 1) = n * 2 ^ 53 := by
  have hlog := log2_le_of_small hn hsmall
  unfold aligned
  rw [mul_assoc, ← pow_add, show 52 - n.log2 + (n.log2 + 1) = 53 by omega]

/-- A whole number of at most 53 bits is exact. -/
theorem ofNat_eq {n : Nat} (hn : n ≠ 0) (hsmall : n < 2 ^ 53) : ∃ h,
    UnpackedFloat.ofNat .binary64 n = .finite .positive (aligned n) (n.log2 - 52) h := by
  have hlog := log2_le_of_small hn hsmall
  have hmlog := log2_aligned hn hsmall
  have hfull := full_aligned hn hsmall
  have hgt : compare (n : ℤ) 0 = .gt := by
    rw [compare_gt_iff_gt]
    omega
  have htarget : Format.targetExponent .binary64 (totalExponent n 0) = n.log2 - 52 := by
    show max ((n.log2 : ℤ) + 1 + 0 - 53) (-1074) = _
    omega
  have hshift : ((0 : ℤ) - (n.log2 - 52)).toNat = 52 - n.log2 := by omega
  unfold UnpackedFloat.ofNat UnpackedFloat.ofInt UnpackedFloat.normalize
  rw [hgt]
  dsimp only
  unfold UnpackedFloat.round decreaseExponent
  rw [Int.toNat_natCast, htarget]
  dsimp only
  rw [hshift, Nat.shiftLeft_eq, ← aligned]
  -- nothing is shifted out
  obtain ⟨r, u, h, heq, ⟨hlow, hhigh⟩, hu, hu', hbits⟩ :=
    roundWithAccuracy_exact (e := 0 - (52 - n.log2 : ℕ)) (t := (n.log2 : ℤ) - 52) hfull.low (by omega)
      (by omega)
  have hexact := nearest_mul_self (aligned n) Nat.one_pos
  have hlast := hfull.high
  rw [Nat.mul_one] at hexact
  rw [hmlog, Nat.sub_self, pow_zero, hexact] at hbits
  obtain rfl : u = n.log2 - 52 := by omega
  obtain rfl : r = aligned n := by omega
  exact ⟨h, heq⟩

/-- The power of ten that a whole number of at most 53 bits is multiplied by. -/
def one : UnpackedFloat := UnpackedFloat.unpack .binary64 (UInt64.toBitVec 0x3FF0000000000000)

theorem reread_one : reread one = .finite .positive (2 ^ 52) (-52) (Nat.two_pow_pos 52) := rfl

theorem ofScientific_small {n : Nat} (hsmall : n < 2 ^ 53) :
    (Float.ofScientific n false 0).toBits.toBitVec =
      UnpackedFloat.pack .binary64 (UnpackedFloat.mul .binary64
        (reread (UnpackedFloat.ofNat .binary64 n)) (reread one)) := by
  have hword : n.toUInt64.toNat = n := by
    show n % 2 ^ 64 = n
    omega
  have hofNat : UnpackedFloat.ofNat .binary64 n = UnpackedFloat.ofUInt64 .binary64 n.toUInt64 := by
    unfold UnpackedFloat.ofUInt64
    rw [hword]
  unfold Float.ofScientific
  rw [dif_pos ⟨hsmall, by omega⟩, hofNat]
  dsimp only
  rw [if_neg Bool.false_ne_true]
  rfl

/-- A whole number of at most 53 bits is multiplied by one. -/
theorem toNat_ofScientific_small {n : Nat} (hn : n ≠ 0) (hsmall : n < 2 ^ 53) :
    (Float.ofScientific n false 0).toBits.toNat = wholeBits n := by
  obtain ⟨h, heq⟩ := ofNat_eq hn hsmall
  have hlog := log2_le_of_small hn hsmall
  have hmlog := log2_aligned hn hsmall
  have hfull := full_aligned hn hsmall
  have hlow := hfull.low
  have hprod : (aligned n * 2 ^ 52).log2 = 104 := by rw [log2_mul_two_pow (by omega), hmlog]
  have hbits := toNat_pack_roundWithAccuracy (e := n.log2 - 52 + -52) (k := n.log2)
    (m := aligned n * 2 ^ 52) (by omega) (by omega) (by omega)
  rw [hprod, show 104 - 52 = 52 from rfl, nearest_mul_self _ (Nat.two_pow_pos 52)] at hbits
  show (Float.ofScientific n false 0).toBits.toBitVec.toNat = _
  rw [ofScientific_small hsmall, heq, reread_finite h hfull (by omega) (by omega), reread_one]
  unfold wholeBits
  rw [← aligned_mul hn hsmall, nearest_mul_self _ (Nat.two_pow_pos _)]
  exact hbits

theorem nearest_wholeBits {n : Nat} (hn : n ≠ 0) :
    2 ^ 52 ≤ nearest (n * 2 ^ 53) (2 ^ (n.log2 + 1)) ∧
      nearest (n * 2 ^ 53) (2 ^ (n.log2 + 1)) ≤ 2 ^ 53 := by
  obtain ⟨hquot, hnext⟩ := nearest_bounds (n * 2 ^ 53) (2 ^ (n.log2 + 1))
  have hlow : 2 ^ 52 ≤ n * 2 ^ 53 / 2 ^ (n.log2 + 1) := by
    rw [Nat.le_div_iff_mul_le (Nat.two_pow_pos _), ← pow_add,
      show 52 + (n.log2 + 1) = n.log2 + 53 by omega, pow_add]
    exact Nat.mul_le_mul_right _ (Nat.log2_self_le hn)
  have hhigh : n * 2 ^ 53 / 2 ^ (n.log2 + 1) < 2 ^ 53 := by
    rw [Nat.div_lt_iff_lt_mul (Nat.two_pow_pos _), mul_comm]
    exact Nat.mul_lt_mul_of_pos_left Nat.lt_log2_self (Nat.two_pow_pos _)
  omega

/-- The bits of a whole number grow with it. -/
theorem wholeBits_mono {m n : Nat} (hm : m ≠ 0) (h : m ≤ n) : wholeBits m ≤ wholeBits n := by
  have hn : n ≠ 0 := by omega
  have hlog : m.log2 ≤ n.log2 := (Nat.le_log2 hn).2 ((Nat.log2_self_le hm).trans h)
  have hbm := nearest_wholeBits hm
  have hbn := nearest_wholeBits hn
  unfold wholeBits
  rcases hlog.lt_or_eq with hlt | heq
  · -- the greater number has a greater exponent
    have hexp := Nat.mul_le_mul_right (2 ^ 52) (show m.log2 + 1022 + 1 ≤ n.log2 + 1022 by omega)
    rw [Nat.add_mul, Nat.one_mul] at hexp
    linarith
  · rw [heq]
    have hpos := Nat.two_pow_pos (n.log2 + 1)
    have hcross := Nat.mul_le_mul_right (2 ^ (n.log2 + 1)) (Nat.mul_le_mul_right (2 ^ 53) h)
    exact Nat.add_le_add_left (nearest_mono hpos hpos hcross) _

end Ingress.Rounding

namespace Ingress.Double

open Rounding

theorem toNat_bits_ofNat {n : Nat} (hn : n ≠ 0) (hlog : n.log2 ≤ 1000) :
    (ofNat n).bits.toNat = wholeBits n := by
  show (Float.ofScientific n false 0).toBits.toNat = _
  by_cases hsmall : n < 2 ^ 53
  · exact toNat_ofScientific_small hn hsmall
  · unfold Float.ofScientific
    rw [dif_neg (by omega)]
    exact toNat_ofScientific hn hlog

theorem ofNat_zero : ofNat 0 = zero := by decide +kernel

theorem key_ofNat {n : Nat} (hn : n ≠ 0) (hlog : n.log2 ≤ 1000) : (ofNat n).key = wholeBits n := by
  have hbits := toNat_bits_ofNat hn hlog
  have hbound := nearest_wholeBits hn
  have hlt : wholeBits n < 2 ^ 63 := by
    have hexp := Nat.mul_le_mul_right (2 ^ 52) (show n.log2 + 1022 ≤ 2022 by omega)
    unfold wholeBits
    omega
  unfold key magnitude negative
  rw [Nat.pow_eq, hbits, if_neg (by simpa using hlt), Nat.mod_eq_of_lt hlt]

theorem log2_le_of_word {n : Nat} (hn : n ≠ 0) (h : n ≤ 2 ^ 64) : n.log2 ≤ 1000 := by
  have hlog : n.log2 < 65 := (Nat.log2_lt hn).2 (by omega)
  omega

variable {m n : Nat}

theorem key_ofNat_nonneg (h : n ≤ 2 ^ 64) : 0 ≤ (ofNat n).key := by
  rcases Nat.eq_zero_or_pos n with rfl | hpos
  · rw [ofNat_zero]
    exact le_rfl
  · rw [key_ofNat hpos.ne' (log2_le_of_word hpos.ne' h)]
    exact Int.natCast_nonneg _

/-- Greater whole numbers are no lesser doubles. -/
theorem key_ofNat_mono (h : m ≤ n) (hn : n ≤ 2 ^ 64) : (ofNat m).key ≤ (ofNat n).key := by
  rcases Nat.eq_zero_or_pos m with rfl | hpos
  · rw [ofNat_zero]
    exact key_ofNat_nonneg hn
  · rw [key_ofNat hpos.ne' (log2_le_of_word hpos.ne' (h.trans hn)),
      key_ofNat (by omega) (log2_le_of_word (by omega) hn)]
    exact_mod_cast wholeBits_mono hpos.ne' h

theorem isFinite_ofNat (h : n ≤ 2 ^ 64) : (ofNat n).isFinite = true := by
  have hlast : (ofNat (2 ^ 64)).key < infinityBits := by decide +kernel
  rw [isFinite_iff_key, abs_of_nonneg (key_ofNat_nonneg h)]
  exact (key_ofNat_mono h le_rfl).trans_lt hlast

/-- A whole number is within a whole bound exactly when its double is within that of the bound,
where the next number has a greater double. -/
theorem key_ofNat_le_iff (hn : n ≤ 2 ^ 64) (hm : m ≤ 2 ^ 64)
    (hnext : (ofNat m).key < (ofNat (m + 1)).key) : (ofNat n).key ≤ (ofNat m).key ↔ n ≤ m := by
  refine ⟨fun h => ?_, fun h => key_ofNat_mono h hm⟩
  by_contra hlt
  have := key_ofNat_mono (show m + 1 ≤ n by omega) hn
  omega

end Ingress.Double
