import Ingress.Metrics.Histogram
import Ingress.Proofs.Double.Product
import Ingress.Proofs.Recent
import Mathlib

/-!
# Summaries of recent samples

A histogram holds the last samples that were observed, and its summary is read off them in order. The
order is total and tells all doubles apart, the zeros and the NaNs included, so how the samples came
does not matter. Where a percentile stands is computed in doubles, from a fraction that is not one; still
it is the whole part of the exact product.

* `totalLe_antisymm`, `Ascending.eq_of_perm` : the total order, and samples in that order;
* `rank_eq` : where a percentile stands, `floorRank` of a fraction;
* `IsRanked`, `Describes` : the sample of a rank, and what a summary says of samples;
* `observeAll_ofCapacity` : what a histogram holds;
* `Summarizes`, `summary_observeAll` : the summary of any samples.
-/

namespace Ingress

namespace Double

/-! ## The total order -/

variable {a b c : Double}

theorem totalLe_iff : a.totalLe b = true ↔ a.rank ≤ b.rank := decide_eq_true_iff

/-- Doubles of one place are the same. -/
theorem rank_injective : Function.Injective rank := by
  intro a b h
  have ha := a.bits.toNat_lt
  have hb := b.bits.toNat_lt
  unfold rank magnitude negative at h
  rw [Nat.pow_eq] at h
  simp only [decide_eq_true_eq] at h
  have hbits : a.bits.toNat = b.bits.toNat := by
    split at h <;> split at h <;> omega
  exact congrArg mk (UInt64.toNat_inj.1 hbits)

theorem totalLe_trans (a b c : Double) (hab : a.totalLe b = true) (hbc : b.totalLe c = true) :
    a.totalLe c = true := totalLe_iff.2 ((totalLe_iff.1 hab).trans (totalLe_iff.1 hbc))

theorem totalLe_total (a b : Double) : (a.totalLe b || b.totalLe a) = true := by
  rw [Bool.or_eq_true, totalLe_iff, totalLe_iff]
  exact le_total _ _

theorem totalLe_antisymm (hab : a.totalLe b = true) (hba : b.totalLe a = true) : a = b :=
  rank_injective (le_antisymm (totalLe_iff.1 hab) (totalLe_iff.1 hba))

theorem totalLe_refl (a : Double) : a.totalLe a = true := totalLe_iff.2 le_rfl

def Ascending (samples : List Double) : Prop := samples.Pairwise fun a b => a.totalLe b = true

theorem ascending_mergeSort (samples : List Double) : Ascending (samples.mergeSort totalLe) :=
  List.pairwise_mergeSort totalLe_trans totalLe_total samples

/-- There is one way to put samples in order. -/
theorem Ascending.eq_of_perm {xs ys : List Double} (hx : Ascending xs) (hy : Ascending ys)
    (h : xs.Perm ys) : xs = ys :=
  List.Perm.eq_of_pairwise (fun _ _ _ _ => totalLe_antisymm) hx hy h

theorem Ascending.le_of_le {xs : List Double} (h : Ascending xs) {i j : Nat} (hij : i ≤ j)
    (ha : xs[i]? = some a) (hb : xs[j]? = some b) : a.totalLe b = true := by
  obtain ⟨hi, rfl⟩ := List.getElem?_eq_some_iff.1 ha
  obtain ⟨hj, rfl⟩ := List.getElem?_eq_some_iff.1 hb
  rcases hij.lt_or_eq with hlt | rfl
  · exact List.pairwise_iff_getElem.1 h i j hi hj hlt
  · exact totalLe_refl _

end Double

namespace Metrics

open Double

/-! ## Ranks -/

namespace Summary

/-- The rank of a fraction among `count` samples. -/
def floorRank (q : ℚ) (count : Nat) : Nat := Min.min ⌊q * count⌋₊ (count - 1)

theorem floorRank_div {count a b : Nat} :
    floorRank (a / b) count = Min.min (count * a / b) (count - 1) := by
  have hfloor : ⌊(a / b : ℚ) * count⌋₊ = count * a / b := by
    rw [← Nat.floor_div_eq_div (K := ℚ)]
    congr 1
    push_cast
    ring
  rw [floorRank, hfloor]

theorem floorRank_mono {q q' : ℚ} (h : q ≤ q') (count : Nat) :
    floorRank q count ≤ floorRank q' count :=
  min_le_min_right _ (Nat.floor_le_floor (mul_le_mul_of_nonneg_right h (Nat.cast_nonneg count)))

theorem floorRank_lt {count : Nat} (q : ℚ) (h : 0 < count) : floorRank q count < count := by
  have hle : floorRank q count ≤ count - 1 := Nat.min_le_right _ _
  omega

/-- A percentile stands at the whole part of the exact product. -/
theorem rank_eq {count a b m s : Nat} {p : Double} (hp : IsBelow p a b m s) (hb : 0 < b)
    (hpos : 0 < count) (hsize : count * b < 2 ^ 52) : rank count p = floorRank (a / b) count := by
  rw [floorRank_div, rank, hp.wholeMagnitude_mul hb hpos.ne' hsize]

theorem isBelow_half : IsBelow (quotient 1 2) 1 2 (2 ^ 52) 0 :=
  ⟨⟨⟨by decide, by decide⟩, by decide, by decide, by decide +kernel⟩, by decide, by decide⟩

theorem isBelow_ninetyFive : IsBelow (quotient 95 100) 95 100 8556839292003942 40 :=
  ⟨⟨⟨by decide, by decide⟩, by decide, by decide, by decide +kernel⟩, by decide, by decide⟩

theorem isBelow_ninetyNine : IsBelow (quotient 99 100) 99 100 8917127262193582 8 :=
  ⟨⟨⟨by decide, by decide⟩, by decide, by decide, by decide +kernel⟩, by decide, by decide⟩

/-! ## Samples in order -/

/-- A sample of a rank: it stands there once the samples are in order. -/
def IsRanked (samples : List Double) (k : Nat) (d : Double) : Prop :=
  ∃ sorted : List Double, sorted.Perm samples ∧ Ascending sorted ∧ sorted[k]? = some d

/-- What a summary says of samples: `min` and `max`, the least and the greatest; `p50`, `p95` and `p99`, the
samples of the ranks of a half, nineteen twentieths and ninety-nine hundredths; `among`, these are samples
themselves; `ordered`, and none of the five comes before the one ahead of it. -/
structure Describes (s : Summary) (samples : List Double) : Prop where
  min : s.min ∈ samples ∧ ∀ d ∈ samples, s.min.totalLe d = true
  max : s.max ∈ samples ∧ ∀ d ∈ samples, d.totalLe s.max = true
  p50 : IsRanked samples (floorRank (1 / 2) samples.length) s.p50
  p95 : IsRanked samples (floorRank (19 / 20) samples.length) s.p95
  p99 : IsRanked samples (floorRank (99 / 100) samples.length) s.p99
  among : s.p50 ∈ samples ∧ s.p95 ∈ samples ∧ s.p99 ∈ samples
  ordered : s.min.totalLe s.p50 = true ∧ s.p50.totalLe s.p95 = true ∧ s.p95.totalLe s.p99 = true ∧
    s.p99.totalLe s.max = true

section

variable {sorted samples : List Double}

theorem getElem?_getD {i : Nat} (h : i < sorted.length) : sorted[i]? = some (sorted.getD i .zero) := by
  rw [List.getElem?_eq_getElem h, List.getD_eq_getElem sorted Double.zero h]

/-- A percentile of sorted samples stands at the rank of its fraction. -/
theorem getElem?_percentile {a b m s : Nat} {p : Double} (hp : IsBelow p a b m s) (hb : 0 < b)
    (hbound : b ≤ 100) (hpos : 0 < sorted.length) (hsize : sorted.length ≤ 100000) :
    sorted[floorRank (a / b) sorted.length]? = some (sorted.getD (rank sorted.length p) .zero) := by
  have hproduct := Nat.mul_le_mul hsize hbound
  rw [rank_eq hp hb hpos (by omega)]
  exact getElem?_getD (floorRank_lt _ hpos)

theorem describes_ofSorted (hperm : sorted.Perm samples) (hsorted : Ascending sorted)
    (hpos : 0 < sorted.length) (hsize : sorted.length ≤ 100000) :
    (ofSorted sorted).Describes samples := by
  have hmin : sorted[0]? = some (ofSorted sorted).min := getElem?_getD hpos
  have hmax : sorted[sorted.length - 1]? = some (ofSorted sorted).max := getElem?_getD (by omega)
  have hp50 : sorted[floorRank (1 / 2) sorted.length]? = some (ofSorted sorted).p50 := by
    rw [show (1 / 2 : ℚ) = (1 : ℕ) / (2 : ℕ) by norm_num]
    exact getElem?_percentile isBelow_half two_pos (by omega) hpos hsize
  have hp95 : sorted[floorRank (19 / 20) sorted.length]? = some (ofSorted sorted).p95 := by
    rw [show (19 / 20 : ℚ) = (95 : ℕ) / (100 : ℕ) by norm_num]
    exact getElem?_percentile isBelow_ninetyFive (by omega) le_rfl hpos hsize
  have hp99 : sorted[floorRank (99 / 100) sorted.length]? = some (ofSorted sorted).p99 := by
    rw [show (99 / 100 : ℚ) = (99 : ℕ) / (100 : ℕ) by norm_num]
    exact getElem?_percentile isBelow_ninetyNine (by omega) le_rfl hpos hsize
  have hmem : ∀ {k : Nat} {d : Double}, sorted[k]? = some d → d ∈ samples := fun h =>
    hperm.mem_iff.1 (List.mem_of_getElem? h)
  have hplace : ∀ d ∈ samples, ∃ k, k ≤ sorted.length - 1 ∧ sorted[k]? = some d := by
    intro d hd
    obtain ⟨k, hk⟩ := List.mem_iff_getElem?.1 (hperm.mem_iff.2 hd)
    have := (List.getElem?_eq_some_iff.1 hk).1
    exact ⟨k, by omega, hk⟩
  have hlast : ∀ q, floorRank q sorted.length ≤ sorted.length - 1 := fun q => Nat.min_le_right _ _
  exact
    { min := ⟨hmem hmin, fun d hd =>
        let ⟨k, _, hk⟩ := hplace d hd
        hsorted.le_of_le (Nat.zero_le k) hmin hk⟩
      max := ⟨hmem hmax, fun d hd =>
        let ⟨_, hle, hk⟩ := hplace d hd
        hsorted.le_of_le hle hk hmax⟩
      p50 := ⟨sorted, hperm, hsorted, hperm.length_eq ▸ hp50⟩
      p95 := ⟨sorted, hperm, hsorted, hperm.length_eq ▸ hp95⟩
      p99 := ⟨sorted, hperm, hsorted, hperm.length_eq ▸ hp99⟩
      among := ⟨hmem hp50, hmem hp95, hmem hp99⟩
      ordered := ⟨hsorted.le_of_le (Nat.zero_le _) hmin hp50,
        hsorted.le_of_le (floorRank_mono (by norm_num) _) hp50 hp95,
        hsorted.le_of_le (floorRank_mono (by norm_num) _) hp95 hp99,
        hsorted.le_of_le (hlast _) hp99 hmax⟩ }

end

theorem of_of_ne_nil {samples : List Double} (h : samples ≠ []) :
    of samples = ofSorted (samples.mergeSort totalLe) := by
  unfold of
  rw [if_neg (by simpa using h)]

theorem count_of (samples : List Double) : (of samples).count = samples.length := by
  by_cases h : samples = []
  · rw [h]
    rfl
  · rw [of_of_ne_nil h]
    exact (List.mergeSort_perm samples totalLe).length_eq

/-- How the samples came does not matter. -/
theorem of_perm {samples others : List Double} (h : others.Perm samples) : of others = of samples := by
  by_cases hempty : samples = []
  · subst hempty
    rw [h.eq_nil]
  · have hother : others ≠ [] := fun he => hempty (he ▸ h).symm.eq_nil
    rw [of_of_ne_nil hempty, of_of_ne_nil hother]
    congr 1
    refine (ascending_mergeSort others).eq_of_perm (ascending_mergeSort samples) ?_
    exact (List.mergeSort_perm others _).trans (h.trans (List.mergeSort_perm samples _).symm)

end Summary

/-! ## Histograms -/

namespace Histogram

def observeAll (h : Histogram) (samples : List Double) : Histogram := samples.foldl observe h

variable {capacity : Nat}

/-- A histogram holds the last samples. -/
theorem observeAll_ofCapacity (hpos : 0 < capacity) (samples : List Double) :
    (ofCapacity capacity).observeAll samples = ⟨capacity, samples.rtake capacity⟩ := by
  induction samples using List.reverseRecOn with
  | nil => rw [List.rtake_nil]; rfl
  | append_singleton samples d ih =>
    unfold observeAll at ih ⊢
    rw [List.foldl_append, ih]
    exact congrArg (mk capacity) (replace_rtake hpos samples d)

/-- The summary of samples by a histogram of a capacity: `count`, how many are held; `nothing` and `window`, it
is the empty one, or it describes the last samples; `permuted`, and it is the same whenever the last samples
are, in any order. -/
structure Summarizes (capacity : Nat) (samples : List Double) (s : Summary) : Prop where
  count : s.count = Min.min samples.length capacity
  nothing : samples = [] → s = .none
  window : samples ≠ [] → s.Describes (samples.rtake capacity)
  permuted : ∀ others : List Double, (others.rtake capacity).Perm (samples.rtake capacity) →
    ((ofCapacity capacity).observeAll others).summary = s

/-- **A summary depends on the last samples alone, and not on their order**, and its percentiles stand where
exact fractions would place them. -/
theorem summary_observeAll (hpos : 1 ≤ capacity) (hbound : capacity ≤ 100000) (samples : List Double) :
    Summarizes capacity samples ((ofCapacity capacity).observeAll samples).summary := by
  have hlength := length_rtake samples capacity
  have hsummary : ∀ samples, ((ofCapacity capacity).observeAll samples).summary =
      Summary.of (samples.rtake capacity) := fun samples => by
    rw [observeAll_ofCapacity hpos]
    rfl
  rw [hsummary]
  refine ⟨(Summary.count_of _).trans hlength, ?_, fun hne => ?_, fun others hperm => ?_⟩
  · rintro rfl
    rw [List.rtake_nil]
    rfl
  · have hsome := List.length_pos_iff.2 hne
    have hsorted := List.mergeSort_perm (samples.rtake capacity) totalLe
    have hcount := hsorted.length_eq
    rw [Summary.of_of_ne_nil (List.length_pos_iff.1 (by omega))]
    exact Summary.describes_ofSorted hsorted (ascending_mergeSort _) (by omega) (by omega)
  · rw [hsummary]
    exact Summary.of_perm hperm

/-- A NaN that has left the window by the time it is full, both zeros, and an infinity. -/
def sampleReadings : List Double := [.nan, .ofNat 4, .zero, .infinity, .negZero]

/-- The readings are those of the window, and their least comes last. -/
theorem sampleReadings_summarized : 1 ≤ 3 ∧ 3 ≤ 100000 ∧
    ((ofCapacity 3).observeAll sampleReadings).summary.count = 3 ∧
    ((ofCapacity 3).observeAll sampleReadings).summary.min = .negZero ∧
    ((ofCapacity 3).observeAll sampleReadings).summary.max = .infinity := by
  have hsummary := summary_observeAll (by decide : 1 ≤ 3) (by decide) sampleReadings
  have hwindow := hsummary.window (by decide)
  have hleast : ∀ d ∈ sampleReadings.rtake 3, (∀ x ∈ sampleReadings.rtake 3, d.totalLe x = true) →
      d = .negZero := by decide +kernel
  have hgreatest : ∀ d ∈ sampleReadings.rtake 3, (∀ x ∈ sampleReadings.rtake 3, x.totalLe d = true) →
      d = .infinity := by decide +kernel
  exact ⟨by decide, by decide, hsummary.count, hleast _ hwindow.min.1 hwindow.min.2,
    hgreatest _ hwindow.max.1 hwindow.max.2⟩

end Histogram

end Metrics

end Ingress
