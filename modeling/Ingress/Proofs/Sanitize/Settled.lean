import Ingress.Proofs.Sanitize.Reach
import Ingress.Proofs.Sanitize.Shape
import Mathlib

/-!
# Sanitizing once is enough

What sanitizing has left it leaves as it is. A number may be clamped in another way the second time, for
one beyond the signed words may become one of them, but by then it is within every bound.

* `Settled` : at every depth, what sanitizing leaves as it is (`value_of_settled`);
* `settled_value` : a sanitized value is settled, whatever it was before;
* `event_event` : so is a sanitized event.

The range of the signed words has no place for the opposite of its least number, which is therefore never
left, not even within a magnitude that is beyond it.
-/

namespace Ingress.Sanitize

open Json

/-! ## Texts -/

/-- A text that is short enough, without a character that no text may hold. -/
def IsTidyText (max : Nat) (s : String) : Prop := s.length ≤ max ∧ ∀ c ∈ s.toList, ¬ IsUnsafe c

theorem isTidyText_string (max : Nat) (s : String) : IsTidyText max (string max s) :=
  ⟨length_string_le max s, fun _ hc => not_isUnsafe_of_mem_string hc⟩

theorem keeps_iff {c : Char} : keeps c = true ↔ ¬ IsUnsafe c := by
  unfold keeps IsUnsafe
  simp only [Bool.or_eq_true, beq_iff_eq, Bool.not_eq_true', ← Bool.not_eq_true]
  tauto

theorem string_of_isTidyText {max : Nat} {s : String} (h : IsTidyText max s) : string max s = s := by
  have hkept : s.toList.filter keeps = s.toList :=
    List.filter_eq_self.2 fun c hc => keeps_iff.2 (h.2 c hc)
  unfold string
  rw [hkept, List.take_of_length_le (by rw [String.length_toList]; exact h.1), String.ofList_toList]

/-! ## Numbers -/

/-- The least number of the signed words. -/
def IsLeast : Number → Prop
  | .whole n _ => n = wholeMin
  | .real _ _ => False

variable {m : Double}

/-- A whole number may go from one on up to the last of its words. -/
theorem wholeLimit_bounds (h : IsMagnitude m) (n : ℤ) : 1 ≤ wholeLimit m n ∧
    wholeLimit m n ≤ (if n < signedBound then signedBound else wholeBound) - 1 := by
  have hsigned : signedBound = 9223372036854775808 := rfl
  have hbound : wholeBound = 18446744073709551616 := rfl
  have hfloor : 1 ≤ ⌊m.value⌋ := by
    have hone : 1 ≤ m.value := value_one ▸ Double.key_le_key.1 h.one_le
    exact Int.le_floor.2 (by exact_mod_cast hone)
  unfold wholeLimit
  dsimp only
  split <;> split <;> omega

theorem not_isLeast_number (h : IsMagnitude m) (n : Number) : ¬ IsLeast (number m n) := by
  have hmin : wholeMin = -9223372036854775808 := rfl
  have hsigned : signedBound = 9223372036854775808 := rfl
  have hclamped := clamped_number h n
  generalize number m n = k at hclamped
  cases hclamped with
  | @whole n k _ _ hk =>
    have hlimit := wholeLimit_bounds h n
    show ¬ k = wholeMin
    split at hlimit <;> omega
  | real => exact id

/-- A number within its magnitude is left, if it is not the least one. -/
theorem number_of_within (h : IsMagnitude m) {n : Number}
    (hin : m.isFinite = true → |n.value| ≤ m.value) (hleast : ¬ IsLeast n) : number m n = n := by
  have hclamped := clamped_number h n
  generalize number m n = k at hclamped ⊢
  cases hclamped with
  | @whole n k fits _ hk =>
    have hmin : wholeMin = -9223372036854775808 := rfl
    have hsigned : signedBound = 9223372036854775808 := rfl
    have hleast : n ≠ wholeMin := hleast
    have hfloor : m.isFinite = true → |n| ≤ ⌊m.value⌋ := fun hfinite => by
      rw [Int.le_floor, Int.cast_abs]
      exact hin hfinite
    have hlimit : |n| ≤ wholeLimit m n := by
      unfold wholeLimit
      dsimp only
      rw [abs_le] at hfloor ⊢
      split
      next hfinite =>
        have hle := hfloor hfinite
        split <;> omega
      next => split <;> omega
    rw [abs_le] at hlimit
    congr 1
    omega
  | real finite _ he =>
    rw [Number.real.injEq, he]
    unfold nearest
    split
    next hlow => exact absurd (abs_le.1 (hin hlow.1)).1 (not_le.2 hlow.2)
    next =>
      split
      next hhigh => exact absurd (abs_le.1 (hin hhigh.1)).2 (not_le.2 hhigh.2)
      next => rfl

/-! ## Every depth -/

/-- What sanitizing leaves as it is, but for what is inside. -/
def Settled (l : Limits) : Value → Nat → Prop
  | .number n, d => Tidy l (.number n) d ∧ ¬ IsLeast n
  | v, d => Tidy l v d

variable {l : Limits}

/-- A sanitized value is settled at every depth, whatever it was before. -/
theorem settled_value (h : IsMagnitude l.maxMagnitude) (v : Value) (d : Nat) :
    Everywhere (Settled l) (value l d v) d := by
  intro w e hw
  have htidy := everywhere_value (fun _ => h) v d w e hw
  obtain ⟨u, -, rfl⟩ := inside_value_iff.1 hw
  cases u with
  | number n => exact ⟨htidy, not_isLeast_number h n⟩
  | array vs => rw [value_array_eq] at htidy ⊢; exact htidy
  | object fs => rw [value_object_eq] at htidy ⊢; exact htidy
  | _ => exact htidy

/-- What is settled is left as it is. -/
theorem value_of_settled (h : IsMagnitude l.maxMagnitude) (v : Value) :
    ∀ d, Everywhere (Settled l) v d → value l d v = v := by
  induction v using Value.induction with
  | null | bool => exact fun _ _ => rfl
  | number n =>
    intro d hv
    obtain ⟨hin, hleast⟩ := everywhere_number.1 hv
    exact congrArg Value.number (number_of_within h hin hleast)
  | string s =>
    intro d hv
    exact congrArg Value.string (string_of_isTidyText (everywhere_string.1 hv))
  | array vs ih =>
    intro d hv
    obtain ⟨⟨hcount, hdeep⟩, hinside⟩ := everywhere_array.1 hv
    rw [value_array_eq, List.take_of_length_le hcount]
    split
    next hd => rw [hdeep hd]
    next => rw [List.map_congr_left fun v hv => ih v hv _ (hinside v hv), List.map_id']
  | object fs ih =>
    intro d hv
    obtain ⟨⟨hkeys, hdeep⟩, hinside⟩ := everywhere_object.1 hv
    rw [value_object_eq, List.filter_eq_self.2 fun f hf => decide_eq_true (hkeys f hf)]
    split
    next hd => rw [hdeep hd]
    next =>
      have hsame : ∀ f ∈ fs, (f.1, value l (d + 1) f.2) = f := fun f hf =>
        Prod.ext rfl (ih f hf _ (hinside f hf))
      rw [List.map_congr_left hsame, List.map_id']

/-! ## Events -/

/-- A field of an event that sanitizing leaves as it is: an object under `data` is settled, and a text
elsewhere is tidy. -/
structure SettledField (l : Limits) (key : String) (v : Value) : Prop where
  data : key = "data" → ∀ fs, v = .object fs → Everywhere (Settled l) v 1
  text : key ≠ "data" → ∀ s, v = .string s → IsTidyText l.maxStringLength s

/-- An event whose fields are all left as they are; what is no object is none of them. -/
def SettledEvent (l : Limits) (v : Value) : Prop :=
  ∀ fs, v = .object fs → ∀ f ∈ fs, SettledField l f.1 f.2

theorem settledField_topField (h : IsMagnitude l.maxMagnitude) (key : String) (v : Value) :
    SettledField l key (topField l key v) := by
  unfold topField
  split
  next hdata =>
    refine ⟨fun _ fs hfs => ?_, fun hother => absurd hdata hother⟩
    cases v with
    | object => exact settled_value h _ 1
    | _ => cases hfs
  next hother =>
    refine ⟨fun hdata => absurd hdata hother, fun _ s hs => ?_⟩
    cases v with
    | string =>
      cases hs
      exact isTidyText_string _ _
    | _ => cases hs

theorem topField_of_settled (h : IsMagnitude l.maxMagnitude) {key : String} {v : Value}
    (hv : SettledField l key v) : topField l key v = v := by
  unfold topField
  split
  next hdata =>
    cases v with
    | object fs => exact value_of_settled h _ 1 (hv.data hdata fs rfl)
    | _ => rfl
  next hother =>
    cases v with
    | string s => exact congrArg Value.string (string_of_isTidyText (hv.text hother s rfl))
    | _ => rfl

theorem settledEvent_event (h : IsMagnitude l.maxMagnitude) (v : Value) :
    SettledEvent l (event l v) := by
  cases v with
  | object fields =>
    rintro _ ⟨⟩ f hf
    obtain ⟨⟨key, v⟩, -, rfl⟩ := List.mem_map.1 hf
    exact settledField_topField h key v
  | _ => exact nofun

theorem event_of_settled (h : IsMagnitude l.maxMagnitude) {v : Value} (hv : SettledEvent l v) :
    event l v = v := by
  cases v with
  | object fields =>
    have hsame : ∀ f ∈ fields, (f.1, topField l f.1 f.2) = f := fun f hf =>
      Prod.ext rfl (topField_of_settled h (hv fields rfl f hf))
    exact congrArg Value.object ((List.map_congr_left hsame).trans (List.map_id' fields))
  | _ => rfl

/-- **Sanitizing twice is sanitizing once**, for every value and within any magnitude from one on; and the
values that sanitizing leaves as they are, are the settled ones. -/
theorem event_event (h : IsMagnitude l.maxMagnitude) (v : Value) :
    event l (event l v) = event l v ∧ (event l v = v ↔ SettledEvent l v) :=
  ⟨event_of_settled h (settledEvent_event h v), fun hv => hv ▸ settledEvent_event h v,
    event_of_settled h⟩

/-- Two levels, two elements, keys of three characters, texts of four, and numbers up to two and a half. -/
def cramped : Limits :=
  { Limits.standard with
    maxElements := 2, maxDepth := 2, maxKeyLength := 3, maxStringLength := 4,
    maxMagnitude := ⟨0x4004000000000000⟩ }

/-- An event that breaks each of these limits; its first number is beyond the signed words, and the second
is the least of them. -/
def sprawling : Value :=
  .object [("data", .object [
      ("a", .number (.ofInt 18446744073709551615)), ("b", .number (.ofInt (-9223372036854775808))),
      ("c", .number (.ofDouble ⟨0xc006000000000000⟩)),
      ("d", .array [.array [.null], .string "x\u0007yz\u0000\tw", .bool true]), ("long", .null)]),
    ("game_id", .string "g\u001b-123")]

theorem event_sprawling : IsMagnitude cramped.maxMagnitude ∧
    (event cramped sprawling).render =
      "\x7b\"data\":\x7b\"a\":2,\"b\":-2,\"c\":-2.5,\"d\":[[],\"xyz\\t\"]\x7d,\"game_id\":\"g-12\"\x7d" ∧
    event cramped (event cramped sprawling) = event cramped sprawling := by
  have hmagnitude : IsMagnitude cramped.maxMagnitude := ⟨by decide, by decide +kernel⟩
  exact ⟨hmagnitude, by decide +kernel, (event_event hmagnitude sprawling).1⟩

end Ingress.Sanitize
