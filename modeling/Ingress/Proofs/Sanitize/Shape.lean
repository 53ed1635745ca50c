import Ingress.Proofs.Sanitize.Event
import Ingress.Proofs.Sanitize.Rules
import Mathlib

/-!
# Sanitizing keeps the shape of an event

The checks and the scrubbing walk the data each for itself, and both count depths, elements and the
characters of keys. What the checks let pass, the scrubbing leaves as it is, but for texts and numbers: no
key is dropped, no array is cut short, and nothing is emptied. The checks let pass whatever draws no error,
and a report that is not full has them all.

* `Clamped m n n'` : a number brought into the range of a magnitude;
* `Scrubbed l v w` : the same shape, with texts cleaned and numbers clamped;
* `clamped_number`, `scrubbed_value` : what becomes of numbers, and of data within its limits;
* `SameShape l v w` : events of the same shape;
* `event_sameShape` : a valid event and what is left of it; `chips_unsanitized` : nothing is if the magnitude is
  not a number.
-/

namespace Ingress.Sanitize

open Json Grammar Validation

variable {l : Limits} {nowMs : Int} {m : Double}

/-! ## Numbers -/

/-- How far a magnitude lets a whole number go: up to its whole part, within the word of the number. -/
def wholeLimit (m : Double) (n : ℤ) : ℤ :=
  let top := (if n < signedBound then signedBound else wholeBound) - 1
  if m.isFinite then min ⌊m.value⌋ top else top

/-- The nearest number within a magnitude; an infinite one lets every number be. -/
def nearest (m d : Double) : Double :=
  if m.isFinite = true ∧ d.value < -m.value then m.neg
  else if m.isFinite = true ∧ m.value < d.value then m
  else d

/-- A number brought into the range of a magnitude. Whole numbers stay whole. -/
inductive Clamped (m : Double) : Number → Number → Prop
  | whole {n k : ℤ} (fits : wholeMin ≤ n ∧ n < wholeBound) (fits' : wholeMin ≤ k ∧ k < wholeBound)
      (h : k = max (-wholeLimit m n) (min (wholeLimit m n) n)) :
      Clamped m (.whole n fits) (.whole k fits')
  | real {d e : Double} (finite : d.isFinite = true) (finite' : e.isFinite = true)
      (h : e = nearest m d) : Clamped m (.real d finite) (.real e finite')

/-- The whole part of a magnitude, brought into a word. -/
theorem IsMagnitude.toIntWithin_eq (h : IsMagnitude m) {low high : ℤ} (hlow : low ≤ 0) (hhigh : 0 ≤ high) :
    m.toIntWithin low high = if m.isFinite then min ⌊m.value⌋ high else high := by
  have hinfinite : m.isInfinite = !m.isFinite := by
    have hnumber := h.number
    unfold Double.isNaN Double.isInfinite Double.isFinite at *
    rw [decide_eq_false_iff_not] at hnumber
    rw [Bool.eq_iff_iff, beq_iff_eq, Bool.not_eq_true', decide_eq_false_iff_not]
    omega
  unfold Double.toIntWithin Double.truncate
  rw [h.number, h.negative_eq, Double.floor_value h.negative_eq, hinfinite]
  cases m.isFinite with
  | true =>
    show max low (min high (m.wholeMagnitude : ℤ)) = min (m.wholeMagnitude : ℤ) high
    omega
  | false => rfl

/-- A finite number is brought to the nearest one within a magnitude. -/
theorem IsMagnitude.clamp_eq (h : IsMagnitude m) {d : Double} (hd : d.isFinite = true) :
    d.clamp m.neg m = nearest m d := by
  have hkey := Double.key_neg m
  have hfinite := abs_lt.1 (Double.isFinite_iff_key.1 hd)
  have hm : m.isFinite = true ↔ m.key < Double.infinityBits := by
    rw [Double.isFinite_iff_key, abs_of_nonneg h.isBound.nonneg]
  unfold nearest
  simp only [hm, ← Double.value_neg, ← Double.key_lt_key]
  rcases Double.clamp_cases hd h.isBound with ⟨heq, hlow⟩ | ⟨heq, hhigh⟩ | ⟨heq, hlow, hhigh⟩
  · rw [heq, if_pos ⟨by omega, hlow⟩]
  · have hnonneg := h.isBound.nonneg
    rw [heq, if_neg (by omega), if_pos ⟨by omega, hhigh⟩]
  · rw [heq, if_neg (by omega), if_neg (by omega)]

/-- A number is clamped, and a whole number stays whole. -/
theorem clamped_number (h : IsMagnitude m) (n : Number) : Clamped m n (number m n) := by
  have hwords : wholeMin = -9223372036854775808 ∧ wholeBound = 18446744073709551616 ∧
    signedBound = 9223372036854775808 := by decide
  obtain ⟨hmin, hbound, hsigned⟩ := hwords
  cases n with
  | whole n fits =>
    unfold number
    dsimp only
    split
    next hsmall =>
      have hone := h.one_le_toIntWithin wholeMin (show 1 ≤ signedBound - 1 by omega)
      have hhigh : m.toIntWithin wholeMin (signedBound - 1) ≤ signedBound - 1 :=
        toIntWithin_le_high m (by omega) (by omega)
      have hlow : wholeMin ≤ 0 := by omega
      rw [ofInt_eq ⟨by omega, by omega⟩]
      refine .whole fits _ ?_
      unfold wholeLimit
      rw [if_pos hsmall, ← h.toIntWithin_eq hlow (by omega)]
    next hlarge =>
      have hone := h.one_le_toIntWithin 0 (show 1 ≤ wholeBound - 1 by omega)
      rw [ofInt_eq ⟨by omega, by omega⟩]
      refine .whole fits _ ?_
      unfold wholeLimit
      rw [if_neg hlarge, ← h.toIntWithin_eq (le_refl (0 : ℤ)) (by omega)]
      omega
  | real d finite =>
    have hleft : (d.clamp m.neg m).isFinite = true := Double.isFinite_clamp finite h.isBound
    have heq : number m (.real d finite) = .real (d.clamp m.neg m) hleft := dif_pos hleft
    rw [heq]
    exact .real finite hleft (h.clamp_eq finite)

/-! ## Data -/

/-- The first characters of a text, up to `max`, without control characters other than the tab and the
newline. -/
def cleaned (max : Nat) (s : String) : String :=
  String.ofList ((s.toList.filter fun c => c = '\t' ∨ c = '\n' ∨ Text.isControlCode c = false).take max)

/-- The same value, but for texts and numbers: texts are cleaned and cut, numbers are clamped. -/
inductive Scrubbed (l : Limits) : Value → Value → Prop
  | null : Scrubbed l .null .null
  | bool (b : Bool) : Scrubbed l (.bool b) (.bool b)
  | number {n k : Number} (h : Clamped l.maxMagnitude n k) : Scrubbed l (.number n) (.number k)
  | string (s : String) : Scrubbed l (.string s) (.string (cleaned l.maxStringLength s))
  | array {vs ws : List Value} (h : List.Forall₂ (Scrubbed l) vs ws) : Scrubbed l (.array vs) (.array ws)
  | object {fs gs : Fields} (hkeys : gs.map Prod.fst = fs.map Prod.fst)
      (h : List.Forall₂ (Scrubbed l) (fs.map Prod.snd) (gs.map Prod.snd)) :
      Scrubbed l (.object fs) (.object gs)

theorem string_eq_cleaned (max : Nat) (s : String) : string max s = cleaned max s := by
  unfold string cleaned
  congr 2
  refine List.filter_congr fun c _ => ?_
  unfold keeps
  rw [Bool.eq_iff_iff]
  simp only [Bool.or_eq_true, beq_iff_eq, Bool.not_eq_true', decide_eq_true_eq]
  tauto

/-- Data within its limits keeps its shape. -/
theorem scrubbed_value (hm : IsMagnitude l.maxMagnitude) (v : Value) :
    ∀ depth, Everywhere (Bounded l) v depth → Scrubbed l v (value l depth v) := by
  induction v using Value.induction with
  | null => exact fun _ _ => .null
  | bool b => exact fun _ _ => .bool b
  | number n => exact fun _ _ => .number (clamped_number hm n)
  | string s =>
    intro depth _
    rw [value, string_eq_cleaned]
    exact .string s
  | array vs ih =>
    intro depth h
    obtain ⟨hself, hinside⟩ := everywhere_array.1 h
    rw [value_array hself]
    refine .array (List.forall₂_map_right_iff.2 (List.forall₂_same.2 fun v hv => ?_))
    exact ih v hv _ (hinside v hv)
  | object fs ih =>
    intro depth h
    obtain ⟨hself, hinside⟩ := everywhere_object.1 h
    rw [value_object hself]
    unfold fieldsWithin
    refine .object (by rw [List.map_map]; rfl) ?_
    rw [List.map_map, List.forall₂_map_left_iff, List.forall₂_map_right_iff, List.forall₂_same]
    exact fun f hf => ih f hf _ (hinside f hf)

/-! ## Events -/

/-- A field of an event and what is left of it: data is scrubbed, a text elsewhere is cleaned and cut, and
all else is as it was. -/
inductive ScrubbedField (l : Limits) : String × Value → String × Value → Prop
  | data {v w : Value} (h : Scrubbed l v w) : ScrubbedField l ("data", v) ("data", w)
  | text {key : String} (hkey : key ≠ "data") (s : String) :
      ScrubbedField l (key, .string s) (key, .string (cleaned l.maxStringLength s))
  | other {key : String} (hkey : key ≠ "data") {v : Value} (hv : ∀ s, v ≠ .string s) :
      ScrubbedField l (key, v) (key, v)

/-- Events of the same shape, with the same fields in the same order. -/
inductive SameShape (l : Limits) : Value → Value → Prop
  | event {fs gs : Fields} (h : List.Forall₂ (ScrubbedField l) fs gs) :
      SameShape l (.object fs) (.object gs)

/-- A report that is valid and not full has found no error at all. -/
theorem clear_of_isValid {v : Value} (hvalid : (validate l nowMs v).isValid = true)
    (hfew : (validate l nowMs v).findings.length < 32) : Clear (findings l nowMs v) := by
  have hfound : (validate l nowMs v).findings = (findings l nowMs v).take 32 := Report.findings_ofFindings _
  rw [hfound, List.length_take] at hfew
  rw [List.take_of_length_le (by omega)] at hfound
  unfold Report.isValid at hvalid
  rw [hfound] at hvalid
  rw [clear_iff]
  simpa using hvalid

/-- **Sanitizing keeps the shape of a valid event**, if its report is not full and the magnitude is a number:
all keys are left, every array is as long as it was, booleans and nulls are the same, and in the data texts
are cleaned and numbers are clamped. -/
theorem event_sameShape (hl : Limits.config.violations l = []) (hnumber : l.maxMagnitude.isNaN = false)
    {v : Value} (hsorted : v.Sorted) (hvalid : (validate l nowMs v).isValid = true)
    (hfew : (validate l nowMs v).findings.length < 32) :
    ∃ w, event? l v = some w ∧ SameShape l v w := by
  have hm := Limits.isMagnitude hl hnumber
  obtain ⟨fields, k, rfl, hevent⟩ := (clear_findings l nowMs v).1 (clear_of_isValid hvalid hfew)
  refine ⟨_, event?_of_isMagnitude hm _,
    .event (List.forall₂_map_right_iff.2 (List.forall₂_same.2 fun f hf => ?_))⟩
  obtain ⟨key, v⟩ := f
  dsimp only
  unfold topField
  split
  next hdata =>
    subst hdata
    obtain ⟨data, rfl, hbounded, -⟩ := hevent.data v (lookup_of_mem (nodup_keys hsorted.1) hf)
    exact .data (scrubbed_value hm _ 1 hbounded)
  next hother =>
    cases v with
    | string s =>
      dsimp only
      rw [string_eq_cleaned]
      exact .text hother s
    | _ => exact .other hother nofun

/-! ## An event at its limits -/

/-- Limits of two elements, three levels, keys of five characters, texts of ten, and numbers up to 100. -/
def tight : Limits :=
  { Limits.standard with
    maxElements := 2, maxDepth := 3, maxKeyLength := 5, maxStringLength := 10, maxMagnitude := real 100 }

/-- An event as deep, as long and with keys as long as these limits allow, a text that is too long, and a
number that is too great. -/
def packed : Value :=
  .object [("data", .object [
      ("deep", .array [.array [.number (.ofInt (-1000)), .string "tab\tand\u0000 more than ten"],
        .bool true]),
      ("empty", .array [])]),
    ("game_id", .string "g"), ("timestamp", .number (.ofInt 1700000000)), ("type", .string "heartbeat")]

theorem sameShape_packed : Limits.config.violations tight = [] ∧ tight.maxMagnitude.isNaN = false ∧
    packed.Sorted ∧ (validate tight 1700000000000 packed).isValid = true ∧
    (validate tight 1700000000000 packed).findings.length = 1 ∧
    ∃ w, event? tight packed = some w ∧ SameShape tight packed w := by
  have hlimits : Limits.config.violations tight = [] := by decide +kernel
  have hnumber : tight.maxMagnitude.isNaN = false := by decide +kernel
  have hvalid : (validate tight 1700000000000 packed).isValid = true := by decide +kernel
  have hone : (validate tight 1700000000000 packed).findings.length = 1 := by decide +kernel
  have hsorted : packed.Sorted := by
    refine ⟨?_, ⟨?_, ⟨⟨trivial, trivial, trivial⟩, trivial, trivial⟩, trivial, trivial⟩, trivial, trivial,
      trivial, trivial⟩
    all_goals
      unfold KeysSorted
      decide +kernel
  exact ⟨hlimits, hnumber, hsorted, hvalid, hone,
    event_sameShape hlimits hnumber hsorted hvalid (by rw [hone]; decide)⟩

/-- Limits whose magnitude is not a number. -/
def unranged : Limits := { Limits.standard with maxMagnitude := .nan }

/-- Half a chip, which is a real number, and two chips. -/
def chips : Value :=
  .object [
    ("data", .object [("half", .number (.ofDouble ((real 1).div (real 2)))), ("two", .number (.ofInt 2))]),
    ("game_id", .string "g"), ("timestamp", .number (.ofInt 1700000000)), ("type", .string "action")]

/-- These limits can be used and find nothing in the event, which is not sanitized all the same. -/
theorem chips_unsanitized : Limits.config.violations unranged = [] ∧
    (validate unranged 1700000000000 chips).isValid = true ∧
    (validate unranged 1700000000000 chips).findings = [] ∧ event? unranged chips = none := by
  decide +kernel

end Ingress.Sanitize
