import Ingress.Proofs.Json.Everywhere
import Ingress.Proofs.Json.Number
import Ingress.Sanitize
import Mathlib

/-!
# What sanitizing leaves

* `items_eq`, `fields_eq` : the first elements of an array, and the fields with short keys;
* `abs_value_number_le`, `value_number_of_nonneg` : a number after it is brought into its range;
* `Tidy` : what a sanitized value is like at every depth, whatever it was before (`everywhere_value`);
* `event?_of_isMagnitude` : no number lacks a range, if the magnitude is a number.
-/

namespace Ingress.Sanitize

open Json

/-! ## Numbers -/

/-- A magnitude that a configuration may name: a number from one on, or infinity. -/
structure IsMagnitude (m : Double) : Prop where
  number : m.isNaN = false
  one_le : (Double.ofNat 1).key ≤ m.key

theorem value_one : (Double.ofNat 1).value = 1 := by
  have hparts : (Double.ofNat 1).parts = (2 ^ 52, -52) := by decide +kernel
  rw [Double.value_of_nonneg (by decide +kernel), hparts]
  norm_num

namespace IsMagnitude

variable {m : Double}

theorem isBound (h : IsMagnitude m) : m.IsBound :=
  ⟨h.number, (Double.key_ofNat_nonneg (by omega)).trans h.one_le⟩

theorem negative_eq (h : IsMagnitude m) : m.negative = false := by
  have hone : 0 < (Double.ofNat 1).key := by decide +kernel
  have hpos := hone.trans_le h.one_le
  unfold Double.key at hpos
  by_contra hneg
  rw [Bool.not_eq_false] at hneg
  rw [if_pos hneg] at hpos
  omega

/-- The whole part of a magnitude is one at least, also when it is brought into a word. -/
theorem one_le_toIntWithin (h : IsMagnitude m) (low : ℤ) {high : ℤ} (hhigh : 1 ≤ high) :
    1 ≤ m.toIntWithin low high := by
  have hvalue : 1 ≤ m.value := value_one ▸ Double.key_le_key.1 h.one_le
  rw [Double.value_of_nonneg h.negative_eq] at hvalue
  have hwhole := Double.one_le_wholeMagnitude hvalue
  unfold Double.toIntWithin Double.truncate
  rw [h.number, h.negative_eq]
  split
  next hnan => cases hnan
  next =>
    split
    · exact hhigh
    · show 1 ≤ max low (min high (m.wholeMagnitude : ℤ))
      omega

theorem toIntWithin_le {low : ℤ} (h : IsMagnitude m) (hlow : low ≤ 0) (high : ℤ)
    (hfinite : m.isFinite = true) : (m.toIntWithin low high : ℚ) ≤ m.value := by
  have hwhole := Double.wholeMagnitude_le m
  have hinfinite : m.isInfinite = false := by
    unfold Double.isFinite Double.isInfinite at *
    simp only [decide_eq_true_eq, beq_eq_false_iff_ne] at *
    omega
  rw [← Double.value_of_nonneg h.negative_eq] at hwhole
  refine le_trans ?_ hwhole
  unfold Double.toIntWithin Double.truncate
  rw [h.number, h.negative_eq, hinfinite]
  show ((max low (min high (m.wholeMagnitude : ℤ)) : ℤ) : ℚ) ≤ ((m.wholeMagnitude : ℤ) : ℚ)
  rw [Int.cast_le]
  omega

end IsMagnitude

theorem toIntWithin_le_high (m : Double) {low high : ℤ} (hlow : low ≤ 0) (hhigh : 0 ≤ high) :
    m.toIntWithin low high ≤ high := by
  unfold Double.toIntWithin
  split
  · exact hhigh
  · split
    · split
      · omega
      · exact le_rfl
    · show max low (min high m.truncate) ≤ high
      omega

theorem ofInt_eq {n : ℤ} (h : wholeMin ≤ n ∧ n < wholeBound) : Number.ofInt n = .whole n h :=
  dif_pos h

variable {m : Double}

/-- A whole number is clamped between whole numbers; one beyond the signed words is not negative. -/
theorem number_whole (h : IsMagnitude m) (n : ℤ) (fits : wholeMin ≤ n ∧ n < wholeBound) :
    ∃ b : ℤ, 1 ≤ b ∧ (m.isFinite = true → b ≤ m.value) ∧
      ∃ fits', number m (.whole n fits) = .whole (max (-b) (min b n)) fits' := by
  have hwords : wholeMin = -9223372036854775808 ∧ wholeBound = 18446744073709551616 ∧
    signedBound = 9223372036854775808 := by decide
  obtain ⟨hmin, hbound, hsigned⟩ := hwords
  unfold number
  dsimp only
  -- a signed word is brought between two words, a greater number only below one
  split
  next hsmall =>
    have hone : 1 ≤ m.toIntWithin wholeMin (signedBound - 1) := h.one_le_toIntWithin _ (by omega)
    have hhigh : m.toIntWithin wholeMin (signedBound - 1) ≤ signedBound - 1 :=
      toIntWithin_le_high m (by omega) (by omega)
    exact ⟨_, hone, h.toIntWithin_le (by omega) _, ⟨by omega, by omega⟩, ofInt_eq _⟩
  next hlarge =>
    have hone : 1 ≤ m.toIntWithin 0 (wholeBound - 1) := h.one_le_toIntWithin _ (by omega)
    have hsame : max (-m.toIntWithin 0 (wholeBound - 1)) (min (m.toIntWithin 0 (wholeBound - 1)) n) =
        min n (m.toIntWithin 0 (wholeBound - 1)) := by omega
    refine ⟨_, hone, h.toIntWithin_le le_rfl _, ?_⟩
    rw [hsame]
    exact ⟨⟨by omega, by omega⟩, ofInt_eq _⟩

theorem number_real (h : IsMagnitude m) (d : Double) (finite : d.isFinite = true) :
    number m (.real d finite) =
      .real (d.clamp m.neg m) (Double.isFinite_clamp finite h.isBound) :=
  dif_pos _

/-- A number is brought into the range of the magnitude. -/
theorem abs_value_number_le (h : IsMagnitude m) (hfinite : m.isFinite = true) (n : Number) :
    |(number m n).value| ≤ m.value := by
  cases n with
  | whole n fits =>
    obtain ⟨b, hb, hle, fits', heq⟩ := number_whole h n fits
    have hrange : |max (-b) (min b n)| ≤ b := by
      rw [abs_le]
      omega
    rw [heq, Number.value]
    calc |((max (-b) (min b n) : ℤ) : ℚ)| = ((|max (-b) (min b n)| : ℤ) : ℚ) := (Int.cast_abs).symm
      _ ≤ b := Int.cast_le.2 hrange
      _ ≤ m.value := hle hfinite
  | real d finite =>
    rw [number_real h]
    exact Double.abs_value_clamp finite h.isBound

/-- A number that is not negative stays so, and becomes no greater. -/
theorem value_number_of_nonneg (h : IsMagnitude m) {n : Number} (hn : 0 ≤ n.value) :
    0 ≤ (number m n).value ∧ (number m n).value ≤ n.value := by
  cases n with
  | whole n fits =>
    obtain ⟨b, hb, -, fits', heq⟩ := number_whole h n fits
    have hn' : 0 ≤ n := Int.cast_nonneg_iff.1 hn
    rw [heq, Number.value, Number.value, Int.cast_nonneg_iff, Int.cast_le]
    omega
  | real d finite =>
    rw [number_real h]
    exact Double.value_clamp_of_nonneg finite h.isBound hn

/-! ## Containers -/

theorem items_eq (l : Limits) (depth : Nat) (vs : List Value) (room : Nat) :
    items l depth room vs = (vs.take room).map (value l (depth + 1)) := by
  induction vs generalizing room with
  | nil => cases room <;> rfl
  | cons v rest ih =>
    cases room with
    | zero => rfl
    | succ room => rw [items, ih, List.take_succ_cons, List.map_cons]

theorem fields_eq (l : Limits) (depth : Nat) (fs : Fields) :
    fields l depth fs = (fs.filter fun f => decide (f.1.length ≤ l.maxKeyLength)).map
      fun f => (f.1, value l (depth + 1) f.2) := by
  induction fs with
  | nil => rfl
  | cons f rest ih =>
    obtain ⟨key, v⟩ := f
    rw [fields, ih, List.filter_cons]
    split
    next hlong => rw [if_neg (by simpa using hlong)]
    next hshort => rw [if_pos (by simpa using hshort), List.map_cons]

/-! ## Every depth -/

def IsUnsafe (c : Char) : Prop := Text.isControlCode c = true ∧ c ≠ '\t' ∧ c ≠ '\n'

/-- What the limits ask of a sanitized value at a depth. A magnitude that is infinite bounds
nothing. -/
def Tidy (l : Limits) : Value → Nat → Prop
  | .string s, _ => s.length ≤ l.maxStringLength ∧ ∀ c ∈ s.toList, ¬ IsUnsafe c
  | .number n, _ => l.maxMagnitude.isFinite = true → |n.value| ≤ l.maxMagnitude.value
  | .array items, d => items.length ≤ l.maxElements ∧ (l.maxDepth < d → items = [])
  | .object fields, d =>
    (∀ f ∈ fields, f.1.length ≤ l.maxKeyLength) ∧ (l.maxDepth < d → fields = [])
  | _, _ => True

theorem length_string_le (max : Nat) (s : String) : (string max s).length ≤ max := by
  unfold string
  rw [String.length_ofList]
  exact List.length_take_le _ _

theorem not_isUnsafe_of_mem_string {max : Nat} {s : String} {c : Char}
    (h : c ∈ (string max s).toList) : ¬ IsUnsafe c := by
  unfold string at h
  rw [String.toList_ofList] at h
  have hkeeps := List.of_mem_filter (List.mem_of_mem_take h)
  rintro ⟨hcontrol, htab, hnewline⟩
  unfold keeps at hkeeps
  simp [hcontrol, htab, hnewline] at hkeeps

/-- Sanitizing tidies a value at every depth, whatever it was before. -/
theorem everywhere_value {l : Limits}
    (hm : l.maxMagnitude.isFinite = true → IsMagnitude l.maxMagnitude) (v : Value) :
    ∀ depth, Everywhere (Tidy l) (value l depth v) depth := by
  induction v using Value.induction with
  | null => exact fun _ => everywhere_null.2 trivial
  | bool b => exact fun _ => everywhere_bool.2 trivial
  | number n =>
    exact fun _ => everywhere_number.2 fun hfinite => abs_value_number_le (hm hfinite) hfinite n
  | string s =>
    exact fun _ => everywhere_string.2
      ⟨length_string_le _ s, fun _ hc => not_isUnsafe_of_mem_string hc⟩
  | array vs ih =>
    intro depth
    unfold value
    split
    next hdeep =>
      exact everywhere_array.2 ⟨⟨Nat.zero_le _, fun _ => rfl⟩, List.forall_mem_nil _⟩
    next hdepth =>
      rw [items_eq, everywhere_array]
      refine ⟨⟨?_, fun h => absurd h hdepth⟩, fun w hw => ?_⟩
      · rw [List.length_map]
        exact List.length_take_le _ _
      · obtain ⟨v, hv, rfl⟩ := List.mem_map.1 hw
        exact ih v (List.mem_of_mem_take hv) _
  | object fs ih =>
    intro depth
    unfold value
    split
    next hdeep =>
      exact everywhere_object.2
        ⟨⟨List.forall_mem_nil _, fun _ => rfl⟩, List.forall_mem_nil _⟩
    next hdepth =>
      rw [fields_eq, everywhere_object]
      refine ⟨⟨fun w hw => ?_, fun h => absurd h hdepth⟩, fun w hw => ?_⟩
      · obtain ⟨f, hf, rfl⟩ := List.mem_map.1 hw
        simpa using List.of_mem_filter hf
      · obtain ⟨f, hf, rfl⟩ := List.mem_map.1 hw
        exact ih f (List.mem_of_mem_filter hf) _

/-! ## Ranges -/

theorem event?_eq_some_iff {l : Limits} {v w : Value} :
    event? l v = some w ↔ breaksEvent l v = false ∧ w = event l v := by
  unfold event?
  cases breaksEvent l v with
  | true => simp
  | false => simp [eq_comm]

theorem lacksRange_of_isMagnitude (h : IsMagnitude m) (n : Number) : lacksRange m n = false := by
  cases n with
  | whole n fits =>
    have hone := h.one_le_toIntWithin wholeMin (show 1 ≤ signedBound - 1 by decide)
    have hbound : ¬ m.toIntWithin wholeMin (signedBound - 1) < 0 := by omega
    unfold lacksRange
    dsimp only
    rw [decide_eq_false hbound, Bool.and_false]
  | real d finite =>
    have hneg := (Double.isNaN_neg m).trans h.number
    have hle : m.neg.le m = true := by
      rw [Double.le_iff hneg h.number, Double.key_neg]
      have hnonneg := h.isBound.nonneg
      omega
    unfold lacksRange
    rw [hle]
    rfl

section Range

variable {l : Limits}

theorem breaksItems_eq_false {depth : Nat} {vs : List Value}
    (h : ∀ v ∈ vs, breaks l (depth + 1) v = false) (room : Nat) : breaksItems l depth room vs = false := by
  induction vs generalizing room with
  | nil => cases room <;> rfl
  | cons v rest ih =>
    obtain ⟨hv, hrest⟩ := List.forall_mem_cons.1 h
    cases room with
    | zero => rfl
    | succ room => rw [breaksItems, hv, ih hrest, Bool.or_false]

theorem breaksFields_eq_false {depth : Nat} {fs : Fields}
    (h : ∀ f ∈ fs, breaks l (depth + 1) f.2 = false) : breaksFields l depth fs = false := by
  induction fs with
  | nil => rfl
  | cons f rest ih =>
    obtain ⟨hf, hrest⟩ := List.forall_mem_cons.1 h
    rw [breaksFields, hf, ih hrest, Bool.and_false, Bool.or_false]

theorem breaks_of_isMagnitude (hm : IsMagnitude l.maxMagnitude) (v : Value) :
    ∀ depth, breaks l depth v = false := by
  induction v using Value.induction with
  | null | bool b | string s => exact fun _ => rfl
  | number n => exact fun _ => lacksRange_of_isMagnitude hm n
  | array vs ih =>
    intro depth
    rw [breaks, breaksItems_eq_false fun v hv => ih v hv _, Bool.and_false]
  | object fs ih =>
    intro depth
    rw [breaks, breaksFields_eq_false fun f hf => ih f hf _, Bool.and_false]

/-- Nothing breaks off where the magnitude is a number. -/
theorem event?_of_isMagnitude (hm : IsMagnitude l.maxMagnitude) (v : Value) :
    event? l v = some (event l v) := by
  refine event?_eq_some_iff.2 ⟨?_, rfl⟩
  cases v with
  | object fs =>
    refine List.any_eq_false.2 fun (key, v) _ => ?_
    dsimp only
    unfold breaksTopField
    split
    · rw [breaks_of_isMagnitude hm, Bool.and_false]
      exact Bool.false_ne_true
    · exact Bool.false_ne_true
  | _ => rfl

end Range

end Ingress.Sanitize
