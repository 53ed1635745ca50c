import Mathlib
import Ingress.Config.Limits
import Ingress.Proofs.Json.Length
import Ingress.Proofs.Validation.Severity

/-!
# The verdict of a report

A report keeps the first `Report.capacity` findings, warnings and errors alike, and its verdict
reads what it keeps. So an error counts only where fewer than `Report.capacity` warnings stand ahead
of the first one.

* `findings_ofFindings` : what a report keeps;
* `leadingWarnings` : the warnings ahead of the first error;
* `countP_warns_findings` : only the walk over the data warns, and every warning takes bytes;
* `findings_of_leadingWarnings` : warnings come first only where nothing but the data is wrong;
* `isValid_validate` : the verdict of a report against all the findings of a value.
-/

namespace Ingress

open Json

/-! ## Reports -/

namespace Finding

/-- The warnings ahead of the first error. -/
def leadingWarnings (findings : List Finding) : List Finding := findings.takeWhile warns

theorem length_leadingWarnings_le (findings : List Finding) :
    (leadingWarnings findings).length ≤ findings.countP warns := by
  have hall : ∀ f ∈ leadingWarnings findings, warns f = true :=
    fun f hf => List.mem_takeWhile_imp hf
  rw [← List.countP_eq_length.2 hall]
  exact (List.takeWhile_prefix _).sublist.countP_le

theorem any_rejects_take (findings : List Finding) (n : Nat) :
    (findings.take n).any rejects = true ↔
      findings.any rejects = true ∧ (leadingWarnings findings).length < n := by
  induction findings generalizing n with
  | nil => simp
  | cons f rest ih =>
    unfold leadingWarnings at ih ⊢
    cases n with
    | zero => simp
    | succ n =>
      rw [List.take_succ_cons, List.any_cons, List.any_cons, List.takeWhile_cons]
      -- the first error, if it is `f`, has no warning ahead of it
      cases hf : f.rejects with
      | true => simp [warns, hf]
      | false => simp [warns, hf, ih n]

/-- No warning stands ahead of an error that comes first. -/
theorem leadingWarnings_append {fs : List Finding} (h : Rejecting fs) (hne : fs ≠ [])
    (gs : List Finding) : leadingWarnings (fs ++ gs) = [] := by
  cases fs with
  | nil => exact absurd rfl hne
  | cons f fs =>
    have hf : ¬ warns f = true := List.countP_eq_zero.1 h f List.mem_cons_self
    exact List.takeWhile_cons_of_neg hf

end Finding

namespace Report

theorem findings_foldl_push (fs : List Finding) (r : Report) :
    (fs.foldl push r).findings = (r.findings ++ fs).take capacity := by
  induction fs generalizing r with
  | nil => rw [List.foldl_nil, List.append_nil, List.take_of_length_le r.bounded]
  | cons f fs ih =>
    rw [List.foldl_cons, ih]
    unfold push
    split
    next => rw [List.append_assoc]; rfl
    next hfull =>
      have hlen : capacity = r.findings.length := by have := r.bounded; omega
      rw [hlen, List.take_left, List.take_left]

/-- A report keeps the first findings. -/
theorem findings_ofFindings (fs : List Finding) :
    (ofFindings fs).findings = fs.take capacity := findings_foldl_push fs empty

theorem isValid_ofFindings (fs : List Finding) :
    (ofFindings fs).isValid = false ↔
      fs.any Finding.rejects = true ∧ (Finding.leadingWarnings fs).length < capacity := by
  unfold isValid
  rw [findings_ofFindings, Bool.not_eq_false', Finding.any_rejects_take]

end Report

/-! ## The walk over the data -/

namespace Structure

variable (l : Limits)

mutual

/-- Every warning of a value takes the characters of a string that is too long. -/
theorem countP_warns_findings (path : String) (depth : Nat) : ∀ v : Value,
    (findings l path depth v).countP Finding.warns * (l.maxStringLength + 1) ≤ v.chars.length
  | .null => Rejecting.nil.mul_le _ _
  | .bool _ => Rejecting.nil.mul_le _ _
  | .number n => by
    unfold findings
    split
    next => exact Rejecting.nil.mul_le _ _
    next => exact (Rejecting.singleton rfl).mul_le _ _
  | .string s => by
    have hquote := length_quote s
    unfold findings
    rw [show (Value.string s).chars = Json.quote s from rfl]
    split
    next hlong =>
      rw [show List.countP Finding.warns [⟨path, .truncated l.maxStringLength⟩] = 1 from rfl]
      omega
    next => exact Rejecting.nil.mul_le _ _
  | .array items => by
    have hitems := countP_warns_itemFindings path depth 0 items
    have harray := length_chars_array items
    unfold findings
    split
    next => exact (Rejecting.singleton rfl).mul_le _ _
    next => rw [(Rejecting.ite rfl).countP_append]; omega
  | .object fields => by
    have hfields := countP_warns_fieldFindings path depth fields
    have hobject := length_chars_object fields
    unfold findings
    split
    next => exact (Rejecting.singleton rfl).mul_le _ _
    next => rw [(Rejecting.ite rfl).countP_append]; omega

theorem countP_warns_itemFindings (path : String) (depth index : Nat) : ∀ items : List Value,
    (itemFindings l path depth index items).countP Finding.warns * (l.maxStringLength + 1) ≤
      (itemsChars items).length
  | [] => Rejecting.nil.mul_le _ _
  | v :: rest => by
    have hv := countP_warns_findings (elementPath path index) (depth + 1) v
    have hrest := countP_warns_itemFindings path depth (index + 1) rest
    have hcons := length_itemsChars_cons v rest
    unfold itemFindings
    rw [List.countP_append, Nat.add_mul]
    omega

theorem countP_warns_fieldFindings (path : String) (depth : Nat) : ∀ fields : Fields,
    (fieldFindings l path depth fields).countP Finding.warns * (l.maxStringLength + 1) ≤
      (fieldsChars fields).length
  | [] => Rejecting.nil.mul_le _ _
  | (key, v) :: rest => by
    have hv := countP_warns_findings (fieldPath path key) (depth + 1) v
    have hrest := countP_warns_fieldFindings path depth rest
    have hcons := length_fieldsChars_cons key v rest
    unfold fieldFindings
    rw [List.countP_append, Nat.add_mul]
    split
    next => rw [Rejecting.singleton rfl]; omega
    next => omega

end

end Structure

/-! ## Validation -/

namespace Validation

open Finding

variable (l : Limits) (nowMs : Int)

/-- Warnings come first only in data, and only where every check ahead of the data passes. -/
theorem findings_of_leadingWarnings {v : Value} (h : leadingWarnings (findings l nowMs v) ≠ []) :
    ∃ fields data, v = .object fields ∧ v.render.utf8ByteSize ≤ l.maxEventBytes ∧
      lookup "data" fields = some (.object data) ∧
      findings l nowMs v = Structure.findings l "data" 1 (.object data)
        ++ ((kindOf l fields).map (Kind.findings l data)).getD [] := by
  unfold findings at h ⊢
  split at h
  next fields =>
    dsimp only at h ⊢
    split at h
    next => exact absurd rfl h
    next hsize =>
      have hhead : headFindings l nowMs fields = [] := by
        by_contra hne
        exact h (leadingWarnings_append (rejecting_headFindings l nowMs fields) hne _)
      have hfields : fieldsFindings l nowMs fields = dataFindings l fields := by
        unfold fieldsFindings
        rw [show _ ++ gameIdFindings l fields = headFindings l nowMs fields from rfl, hhead,
          List.nil_append]
      rw [hfields] at h
      rw [if_neg hsize, hfields]
      unfold dataFindings at h ⊢
      split at h
      next => exact absurd rfl h
      next data hdata => exact ⟨fields, data, rfl, by omega, hdata, rfl⟩
      next => exact absurd rfl h
  next => exact absurd rfl h

/-- The rule of a kind draws no warning, nor does a kind that is not known. -/
theorem rejecting_rule (fields data : Fields) :
    Rejecting (((kindOf l fields).map (Kind.findings l data)).getD []) := by
  cases kindOf l fields with
  | none => exact Rejecting.nil
  | some k => exact Kind.rejecting_findings l data k

/-- Every warning ahead of the first error takes bytes of the event. -/
theorem length_leadingWarnings_mul_le (v : Value) :
    (leadingWarnings (findings l nowMs v)).length * (l.maxStringLength + 1) ≤ l.maxEventBytes := by
  by_cases h : leadingWarnings (findings l nowMs v) = []
  · rw [h, List.length_nil, Nat.zero_mul]
    exact Nat.zero_le _
  obtain ⟨fields, data, rfl, hsize, hdata, heq⟩ := findings_of_leadingWarnings l nowMs h
  have hcount : (leadingWarnings (findings l nowMs (.object fields))).length
      ≤ (Structure.findings l "data" 1 (.object data)).countP warns := by
    refine (length_leadingWarnings_le _).trans ?_
    rw [heq, List.countP_append, rejecting_rule l fields data, Nat.add_zero]
  calc _ ≤ (Structure.findings l "data" 1 (.object data)).countP warns * (l.maxStringLength + 1) :=
        Nat.mul_le_mul_right _ hcount
    _ ≤ (Value.object data).chars.length := Structure.countP_warns_findings l "data" 1 _
    _ ≤ (Value.object fields).chars.length := length_chars_lookup hdata
    _ ≤ (Value.object fields).render.utf8ByteSize := length_chars_le_render _
    _ ≤ l.maxEventBytes := hsize

/-- Limits under which no event has room for a full report of warnings: an event is rejected exactly
where a check finds an error. -/
theorem isValid_of_tight (h : l.maxEventBytes < Report.capacity * (l.maxStringLength + 1))
    (v : Value) :
    (validate l nowMs v).isValid = false ↔ (findings l nowMs v).any rejects = true := by
  unfold validate
  rw [Report.isValid_ofFindings]
  refine and_iff_left ?_
  have hbytes := length_leadingWarnings_mul_le l nowMs v
  exact Nat.lt_of_mul_lt_mul_right (hbytes.trans_lt h)

theorem isValid_standard (nowMs : Int) (v : Value) :
    (validate Limits.standard nowMs v).isValid = false ↔
      (findings Limits.standard nowMs v).any rejects = true :=
  isValid_of_tight Limits.standard nowMs (by decide) v

/-- **The verdict of a report.** An event is rejected exactly where some check finds an error and
fewer than `Report.capacity` warnings stand ahead of the first one. Those warnings are of strings of
the data, so the bytes of the event bound their number. -/
theorem isValid_validate (l : Limits) (nowMs : Int) (v : Value) :
    ((validate l nowMs v).isValid = false ↔
      (findings l nowMs v).any rejects = true ∧
        (leadingWarnings (findings l nowMs v)).length < Report.capacity) ∧
    (leadingWarnings (findings l nowMs v)).length * (l.maxStringLength + 1) ≤ l.maxEventBytes :=
  ⟨Report.isValid_ofFindings _, length_leadingWarnings_mul_le l nowMs v⟩

/-- Limits that cut every string to one character. -/
def narrow : Limits := { Limits.standard with maxStringLength := 1 }

/-- A purchase without its cost, behind a full report of long strings. -/
def crowded : Value :=
  .object [("data", .object [("a", .array (.replicate Report.capacity (.string "xx")))]),
    ("game_id", .string "g"), ("timestamp", .number (.ofInt 1700000000)),
    ("type", .string "card_purchased")]

/-- The missing cost is found, and the report has no room for it. -/
theorem isValid_crowded : Limits.config.violations narrow = [] ∧
    (findings narrow 1700000000000 crowded).any rejects = true ∧
    (validate narrow 1700000000000 crowded).isValid = true := by
  decide +kernel

end Validation

end Ingress
