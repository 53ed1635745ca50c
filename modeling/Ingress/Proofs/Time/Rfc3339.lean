import Ingress.Proofs.Except
import Ingress.Proofs.Time.Calendar
import Ingress.Time.Rfc3339
import Mathlib

/-!
# Instants and their texts

An instant is read back from the text that it is rendered as. Each reader takes from the front of a text
just what the renderer has put there, as what follows is no digit.

* `Numeral digits n` : digits that spell a number; `padded_numeral`, the renderer's;
* `readDigits_append`, `readField_append`, `readYear_append`, `readNanos_append` : the readers on rendered
  fields;
* `dateChars`, `timeChars`, `readDate_append`, `readTime_append` : the readers on a date and on a time;
* `Representable` : the instants that there are; `representable_of_parse`, no other is read;
* `parse_render_iff` : they are those that are read back from their texts.
-/

namespace Ingress.Instant

/-! ## Numerals -/

/-- The number that digits spell. -/
def valueOf (digits : List Char) : Nat := digits.foldl (fun n c => n * 10 + (c.toNat - 48)) 0

structure Numeral (digits : List Char) (n : Nat) : Prop where
  isDigit : ∀ c ∈ digits, c.isDigit = true
  value : valueOf digits = n

theorem valueOf_toDigits (n : Nat) : valueOf (Nat.toDigits 10 n) = n := by
  have hdigits := Nat.ofDigitChars_toDigits (b := 10) (n := n) (by decide) le_rfl
  unfold Nat.ofDigitChars at hdigits
  unfold valueOf
  simp only [Nat.mul_comm _ 10]
  exact hdigits

theorem valueOf_zeros (k : Nat) (digits : List Char) :
    valueOf (List.replicate k '0' ++ digits) = valueOf digits := by
  induction k with
  | zero => rfl
  | succ k ih => exact ih

theorem toList_padded (width n : Nat) : (padded width n).toList =
    List.replicate (width - (Nat.toDigits 10 n).length) '0' ++ Nat.toDigits 10 n := by
  unfold padded
  rw [String.toList_ofList, Nat.toString_eq_repr, Nat.toList_repr]

theorem padded_numeral (width n : Nat) : Numeral (padded width n).toList n := by
  rw [toList_padded]
  refine ⟨List.forall_mem_append.2 ⟨fun c hc => ?_, fun c hc => ?_⟩, ?_⟩
  · rw [List.eq_of_mem_replicate hc]
    rfl
  · exact Nat.isDigit_of_mem_toDigits (by decide) le_rfl hc
  · rw [valueOf_zeros, valueOf_toDigits]

theorem length_padded {width n : Nat} (hwidth : 0 < width) (h : n < 10 ^ width) :
    (padded width n).toList.length = width := by
  have hlength := (Nat.length_toDigits_le_iff (b := 10) (by decide) hwidth).2 h
  rw [toList_padded, List.length_append, List.length_replicate]
  omega

theorem padded_ne_nil (width n : Nat) : (padded width n).toList ≠ [] := by
  rw [toList_padded]
  exact List.append_ne_nil_of_right_ne_nil _ Nat.toDigits_ne_nil

/-! ## Readers of rendered fields -/

theorem fieldBound_gt {n : Nat} (h : n < 1000000000) : n < fieldBound :=
  h.trans (by decide)

variable {digits rest : List Char} {n width : Nat} {c : Char}

theorem isDigit_iff : c.isDigit = true ↔ 48 ≤ c.toNat ∧ c.toNat ≤ 57 := by
  unfold Char.isDigit
  rw [Bool.and_eq_true, decide_eq_true_eq, decide_eq_true_eq]
  exact Iff.rfl

theorem not_blank_of_isDigit (h : c.isDigit = true) : Text.isBlankSpace c = false := by
  have hcode := isDigit_iff.1 h
  unfold Text.isBlankSpace
  simp only [Bool.or_eq_false_iff, Bool.and_eq_false_iff, decide_eq_false_iff_not, beq_eq_false_iff_ne]
  omega

theorem trimStart_append (h : Numeral digits n) (hne : digits ≠ []) (rest : List Char) :
    Text.trimStart (digits ++ rest) = digits ++ rest := by
  obtain ⟨d, ds, rfl⟩ := List.exists_cons_of_ne_nil hne
  exact List.dropWhile_cons_of_neg (by simp [not_blank_of_isDigit (h.isDigit d List.mem_cons_self)])

/-- The digits in front of another character are read. -/
theorem readDigits_append (h : Numeral digits n) (hne : digits ≠ []) (hwidth : digits.length ≤ width)
    (hn : n < fieldBound) (hc : c.isDigit = false) (rest : List Char) :
    readDigits width (digits ++ c :: rest) = .ok (n, c :: rest) := by
  have htaken : ((digits ++ c :: rest).take width).takeWhile Char.isDigit = digits := by
    rw [List.take_append, List.take_of_length_le hwidth, List.takeWhile_append_of_pos h.isDigit]
    cases width - digits.length with
    | zero => exact List.append_nil digits
    | succ k => rw [List.take_succ_cons, List.takeWhile_cons_of_neg (by simp [hc]), List.append_nil]
  obtain ⟨d, ds, rfl⟩ := List.exists_cons_of_ne_nil hne
  have hvalue : (d :: ds).foldl (fun n c => n * 10 + (c.toNat - 48)) 0 = n := h.value
  unfold readDigits
  rw [List.cons_append] at htaken ⊢
  dsimp only
  rw [if_pos (h.isDigit d List.mem_cons_self), htaken, hvalue, if_neg (by omega), ← List.cons_append,
    List.drop_left]

/-- A field of two digits in front of another character. -/
theorem readField_append {low high : Nat} (hlow : low ≤ n) (hhigh : n ≤ high) (hn : n < 100)
    (hc : c.isDigit = false) (rest : List Char) :
    readField low high ((padded 2 n).toList ++ c :: rest) = .ok (n, c :: rest) := by
  have hnumeral := padded_numeral 2 n
  have hread := readDigits_append hnumeral (padded_ne_nil 2 n) (length_padded two_pos hn).le
    (hn.trans (by decide)) hc rest
  unfold readField
  rw [trimStart_append hnumeral (padded_ne_nil 2 n), hread]
  exact if_pos ⟨hlow, hhigh⟩

theorem readMark_cons {mark : Char} (h : Text.isBlankSpace mark = false) (rest : List Char) :
    readMark mark (mark :: rest) = .ok rest := by
  unfold readMark Text.trimStart
  rw [List.dropWhile_cons_of_neg (by simp [h])]
  exact if_pos rfl

theorem readSigned_append {year : Int} (h : yearInRange year = true) (rest : List Char) :
    readSigned ((yearText year).toList ++ '-' :: rest) = .ok (year, '-' :: rest) := by
  unfold yearInRange at h
  simp only [Bool.and_eq_true, decide_eq_true_eq] at h
  have hstop : '-'.isDigit = false := rfl
  unfold yearText
  split
  · next hplain =>
    have hnumeral := padded_numeral 4 year.toNat
    have hdigits := readDigits_append hnumeral (padded_ne_nil 4 _)
      (length_padded four_pos (by omega)).le (fieldBound_gt (by omega)) hstop rest
    obtain ⟨d, ds, hcons⟩ := List.exists_cons_of_ne_nil (padded_ne_nil 4 year.toNat)
    rw [hcons] at hdigits hnumeral ⊢
    -- a digit is no sign
    have hfirst := isDigit_iff.1 (hnumeral.isDigit d List.mem_cons_self)
    have hminus : d ≠ '-' := by rintro rfl; exact absurd hfirst (by decide)
    have hplus : d ≠ '+' := by rintro rfl; exact absurd hfirst (by decide)
    unfold readSigned
    rw [List.cons_append] at hdigits ⊢
    dsimp only
    rw [if_neg hminus, if_neg hplus, hdigits]
    exact congrArg (fun y => Except.ok (y, '-' :: rest)) (by omega)
  · have hdigits := readDigits_append (padded_numeral 4 year.natAbs) (padded_ne_nil 4 _)
      (show (padded 4 year.natAbs).toList.length ≤ ((padded 4 year.natAbs).toList ++ '-' :: rest).length by
        rw [List.length_append]; omega) (fieldBound_gt (by omega)) hstop rest
    rw [String.toList_append]
    split
    · show readSigned ('-' :: ((padded 4 year.natAbs).toList ++ '-' :: rest)) = _
      unfold readSigned
      dsimp only
      rw [if_pos rfl, hdigits]
      exact congrArg (fun y => Except.ok (y, '-' :: rest)) (by omega)
    · show readSigned ('+' :: ((padded 4 year.natAbs).toList ++ '-' :: rest)) = _
      unfold readSigned
      dsimp only
      rw [if_neg (by decide), if_pos rfl, hdigits]
      exact congrArg (fun y => Except.ok (y, '-' :: rest)) (by omega)

theorem trimStart_yearText (year : Int) (rest : List Char) :
    Text.trimStart ((yearText year).toList ++ rest) = (yearText year).toList ++ rest := by
  unfold yearText
  split
  · exact trimStart_append (padded_numeral 4 _) (padded_ne_nil 4 _) rest
  · rw [String.toList_append]
    split <;> exact List.dropWhile_cons_of_neg (by decide)

theorem readYear_append {year : Int} (h : yearInRange year = true) (rest : List Char) :
    readYear ((yearText year).toList ++ '-' :: rest) = .ok (year, '-' :: rest) := by
  have hfits : yearFits year = true := by
    have hpow : Nat.pow 2 31 = 2147483648 := rfl
    unfold yearInRange at h
    unfold yearFits
    simp only [Bool.and_eq_true, decide_eq_true_eq] at h ⊢
    omega
  unfold readYear
  rw [trimStart_yearText, readSigned_append h]
  exact if_pos hfits

/-- A fraction of so many digits in front of the offset. -/
theorem readNanos_padded {k m : Nat} (hk : 0 < k) (hk9 : k ≤ 9) (hm : m < 10 ^ k) :
    readNanos (("." ++ padded k m).toList ++ ['Z']) = .ok (m * Nat.pow 10 (9 - k), ['Z']) := by
  have hlength := length_padded hk hm
  have hsmall : m < fieldBound := fieldBound_gt (hm.trans_le (Nat.pow_le_pow_right (by decide) hk9))
  have hdigits := readDigits_append (padded_numeral k m) (padded_ne_nil k m) (hlength.le.trans hk9) hsmall
    (show 'Z'.isDigit = false by rfl) []
  rw [String.toList_append]
  show readNanos ('.' :: ((padded k m).toList ++ ['Z'])) = _
  unfold readNanos
  dsimp only
  rw [if_pos rfl, hdigits]
  dsimp only [bind, Except.bind]
  rw [List.length_append, hlength, Nat.add_sub_cancel]
  rfl

theorem readNanos_append {nanos : Nat} (h : nanos < nanosPerSecond) :
    readNanos ((fractionText nanos).toList ++ ['Z']) = .ok (nanos, ['Z']) := by
  unfold nanosPerSecond at h
  have hexact {k m : Nat} (hk : 0 < k) (hk9 : k ≤ 9) (hm : m < 10 ^ k) (hnanos : m * 10 ^ (9 - k) = nanos) :
      readNanos (("." ++ padded k m).toList ++ ['Z']) = .ok (nanos, ['Z']) := by
    rw [readNanos_padded hk hk9 hm, Nat.pow_eq, hnanos]
  unfold fractionText
  split
  · next hzero =>
    rw [hzero]
    rfl
  · split
    · exact hexact (by decide) (by decide) (by omega) (by omega)
    · split
      · exact hexact (by decide) (by decide) (by omega) (by omega)
      · exact hexact (by decide) (by decide) (by omega) (by omega)

/-! ## Instants that there are -/

/-- The instants that there are: less than two seconds of nanoseconds, the second of them only behind the last
second of a minute, and a year in range. -/
structure Representable (t : Instant) : Prop where
  nanos : t.nanos < 2 * nanosPerSecond
  leap : nanosPerSecond ≤ t.nanos → t.seconds % 60 = 59
  year : yearInRange (Date.ofDays (t.seconds.fdiv 86400)).year = true

/-- The seconds of a day. -/
theorem ofDay_spec (seconds : Int) : (seconds.fmod 86400).toNat < 86400 ∧
    seconds.fdiv 86400 * 86400 + (seconds.fmod 86400).toNat = seconds ∧
    ((seconds.fmod 86400).toNat % 60 : Nat) = seconds % 60 := by
  rw [Int.fdiv_eq_ediv_of_nonneg _ (by decide), Int.fmod_eq_emod_of_nonneg _ (by decide)]
  omega

/-! ## Texts of dates and times -/

def dateChars (d : Date) : List Char :=
  (yearText d.year).toList ++ '-' :: ((padded 2 d.month).toList ++ '-' :: (padded 2 d.day).toList)

def timeChars (t : TimeOfDay) : List Char :=
  (padded 2 t.hour).toList ++ ':' :: ((padded 2 t.minute).toList ++ ':' ::
    ((padded 2 t.second).toList ++ (fractionText t.nanos).toList))

theorem readDate_append {d : Date} (hvalid : d.valid = true) (hyear : yearInRange d.year = true)
    (hc : c.isDigit = false) (rest : List Char) :
    readDate (dateChars d ++ c :: rest) = .ok (d, c :: rest) := by
  unfold Date.valid at hvalid
  simp only [Bool.and_eq_true, decide_eq_true_eq] at hvalid
  have hlength : Date.daysInMonth d.year d.month ≤ 31 := by
    unfold Date.daysInMonth
    split
    · split <;> omega
    · split <;> omega
  have hmonth := readField_append hvalid.1.1.1 hvalid.1.1.2 (by omega) (show '-'.isDigit = false by rfl)
    ((padded 2 d.day).toList ++ c :: rest)
  have hday := readField_append hvalid.1.2 (hvalid.2.trans hlength) (by omega) hc rest
  have hhyphen := readMark_cons (show Text.isBlankSpace '-' = false by decide)
  unfold readDate dateChars
  simp only [List.append_assoc, List.cons_append, readYear_append hyear, hhyphen, hmonth, hday, bind,
    Except.bind]

structure TimeInRange (t : TimeOfDay) : Prop where
  hour : t.hour ≤ 23
  minute : t.minute ≤ 59
  second : t.second ≤ 60
  nanos : t.nanos < nanosPerSecond

/-- A fraction begins with a point, and without one the offset follows. -/
theorem fraction_head (nanos : Nat) :
    ∃ c rest, (fractionText nanos).toList ++ ['Z'] = c :: rest ∧ c.isDigit = false := by
  have hpoint (s : String) : ∃ c rest, ("." ++ s).toList ++ ['Z'] = c :: rest ∧ c.isDigit = false := by
    rw [String.toList_append]
    exact ⟨'.', _, rfl, rfl⟩
  unfold fractionText
  split
  · exact ⟨'Z', [], rfl, rfl⟩
  · split
    · exact hpoint _
    · split <;> exact hpoint _

theorem readTime_append {t : TimeOfDay} (h : TimeInRange t) :
    readTime (timeChars t ++ ['Z']) = .ok (t, ['Z']) := by
  have hhour := readField_append (Nat.zero_le t.hour) h.hour (by have := h.hour; omega)
    (show ':'.isDigit = false by rfl)
  have hminute := readField_append (Nat.zero_le t.minute) h.minute (by have := h.minute; omega)
    (show ':'.isDigit = false by rfl)
  have hsecond : readField 0 60 ((padded 2 t.second).toList ++ ((fractionText t.nanos).toList ++ ['Z'])) =
      .ok (t.second, (fractionText t.nanos).toList ++ ['Z']) := by
    obtain ⟨c, rest, hcons, hc⟩ := fraction_head t.nanos
    rw [hcons]
    exact readField_append (Nat.zero_le _) h.second (by have := h.second; omega) hc rest
  have hcolon := readMark_cons (show Text.isBlankSpace ':' = false by decide)
  unfold readTime timeChars
  simp only [List.append_assoc, List.cons_append, hhour, hcolon, hminute, hsecond, readNanos_append h.nanos,
    bind, Except.bind]

/-! ## Instants -/

variable {t : Instant}

def date (t : Instant) : Date := Date.ofDays (t.seconds.fdiv 86400)

def timeOfDay (t : Instant) : TimeOfDay :=
  let ofDay := (t.seconds.fmod 86400).toNat
  ⟨ofDay / 3600, ofDay / 60 % 60, ofDay % 60 + t.nanos / nanosPerSecond, t.nanos % nanosPerSecond⟩

theorem toList_render (t : Instant) :
    t.render.toList = dateChars t.date ++ 'T' :: (timeChars t.timeOfDay ++ ['Z']) := by
  have hhyphen : "-".toList = ['-'] := rfl
  have hcolon : ":".toList = [':'] := rfl
  have hparting : "T".toList = ['T'] := rfl
  have hoffset : "Z".toList = ['Z'] := rfl
  unfold render dateChars timeChars date timeOfDay
  simp only [String.toList_append, List.append_assoc, List.cons_append, List.nil_append, hhyphen, hcolon,
    hparting, hoffset]

theorem Representable.timeInRange (h : t.Representable) : TimeInRange t.timeOfDay := by
  obtain ⟨hday, -, hminute⟩ := ofDay_spec t.seconds
  have hnanos := h.nanos
  have hleap := h.leap
  unfold nanosPerSecond at hnanos hleap
  refine ⟨?_, ?_, ?_, Nat.mod_lt _ (by decide)⟩ <;> unfold timeOfDay nanosPerSecond <;> dsimp only <;> omega

/-- The date and the time of an instant lead back to it. -/
theorem ofLocal_date (h : t.Representable) : ofLocal t.date t.timeOfDay 0 = .ok t := by
  obtain ⟨hday, hseconds, hminute⟩ := ofDay_spec t.seconds
  have hnanos := h.nanos
  have hleap := h.leap
  have htime : t.timeOfDay.seconds = (t.seconds.fmod 86400).toNat ∧
      t.timeOfDay.nanos + (if t.timeOfDay.isLeap then nanosPerSecond else 0) = t.nanos := by
    unfold TimeOfDay.seconds TimeOfDay.isLeap timeOfDay
    unfold nanosPerSecond at *
    dsimp only
    simp only [beq_iff_eq]
    split <;> omega
  have htotal : t.date.toDays * 86400 + t.timeOfDay.seconds - 0 = t.seconds := by
    rw [htime.1, date, Date.toDays_ofDays]
    omega
  have hexists : (t.date.valid && yearInRange t.date.year && decide ((0 : Int).natAbs < 86400)) = true := by
    rw [date, Date.valid_ofDays, h.year]
    rfl
  unfold ofLocal
  rw [if_pos hexists, htotal, htime.2]
  exact if_pos h.year

/-- **A rendered instant is read back.** -/
theorem parse_render (h : t.Representable) : parse t.render = .ok t := by
  have hparting : readParting ('T' :: (timeChars t.timeOfDay ++ ['Z'])) =
      .ok (timeChars t.timeOfDay ++ ['Z']) := rfl
  have hoffset : readOffset (Text.trimStart ['Z']) = .ok (0, []) := rfl
  have hdate := readDate_append (d := t.date) (Date.valid_ofDays _) h.year (show 'T'.isDigit = false by rfl)
    (timeChars t.timeOfDay ++ ['Z'])
  unfold parse
  simp only [toList_render, hdate, hparting, readTime_append h.timeInRange, hoffset, bind, Except.bind]
  exact ofLocal_date h

/-! ## What is read at all -/

theorem valueOf_lt {digits : List Char} (h : ∀ c ∈ digits, c.isDigit = true) :
    valueOf digits < 10 ^ digits.length := by
  induction digits using List.reverseRecOn with
  | nil => exact one_pos
  | append_singleton ds d ih =>
    have hds := ih fun c hc => h c (List.mem_append_left _ hc)
    have hd := isDigit_iff.1 (h d (List.mem_append_right _ List.mem_cons_self))
    unfold valueOf at hds ⊢
    rw [List.foldl_append, List.length_append, List.length_singleton, pow_succ]
    show _ * 10 + (d.toNat - 48) < _
    omega

theorem readDigits_lt {s rest : List Char} (h : readDigits width s = .ok (n, rest)) :
    n < 10 ^ (s.length - rest.length) ∧ s.length - rest.length ≤ width := by
  cases s with
  | nil => cases h
  | cons c cs =>
    unfold readDigits at h
    dsimp only at h
    split at h
    · split at h
      · cases h
      · cases h
        have hprefix := List.takeWhile_prefix (p := Char.isDigit) (l := (c :: cs).take width)
        have hlength := hprefix.length_le
        rw [List.length_take] at hlength
        have hcount : (c :: cs).length - ((c :: cs).drop
            (((c :: cs).take width).takeWhile Char.isDigit).length).length =
              (((c :: cs).take width).takeWhile Char.isDigit).length := by
          rw [List.length_drop]
          omega
        rw [hcount]
        refine ⟨valueOf_lt fun c hc => ?_, by omega⟩
        exact List.mem_takeWhile_imp hc
    · cases h

theorem readField_le {low high : Nat} {s rest : List Char} (h : readField low high s = .ok (n, rest)) :
    n ≤ high := by
  obtain ⟨⟨m, after⟩, -, h⟩ := exists_of_bind h
  dsimp only at h
  split at h
  · next hrange =>
    cases h
    exact hrange.2
  · cases h

theorem readNanos_lt {s rest : List Char} (h : readNanos s = .ok (n, rest)) : n < nanosPerSecond := by
  unfold readNanos at h
  split at h
  · cases h
    decide
  · split at h
    · obtain ⟨⟨m, after⟩, hdigits, h⟩ := exists_of_bind h
      obtain ⟨hlt, hle⟩ := readDigits_lt hdigits
      cases h
      calc _ < 10 ^ _ * 10 ^ (9 - _) := Nat.mul_lt_mul_of_pos_right hlt (by positivity)
        _ = nanosPerSecond := by
          rw [← pow_add, Nat.add_sub_cancel' hle]
          rfl
    · cases h
      decide

theorem readTime_second {s rest : List Char} {time : TimeOfDay} (h : readTime s = .ok (time, rest)) :
    time.second ≤ 60 ∧ time.nanos < nanosPerSecond := by
  obtain ⟨⟨hour, s₁⟩, -, h⟩ := exists_of_bind h
  obtain ⟨s₂, -, h⟩ := exists_of_bind h
  obtain ⟨⟨minute, s₃⟩, -, h⟩ := exists_of_bind h
  obtain ⟨s₄, -, h⟩ := exists_of_bind h
  obtain ⟨⟨second, s₅⟩, hsecond, h⟩ := exists_of_bind h
  obtain ⟨⟨nanos, s₆⟩, hnanos, h⟩ := exists_of_bind h
  cases h
  exact ⟨readField_le hsecond, readNanos_lt hnanos⟩

theorem readOffsetFields_mod {s rest : List Char} (h : readOffsetFields s = .ok (n, rest)) : n % 60 = 0 := by
  obtain ⟨⟨hours, s₁⟩, -, h⟩ := exists_of_bind h
  obtain ⟨⟨minutes, s₂⟩, -, h⟩ := exists_of_bind h
  dsimp only at h
  split at h
  · cases h
    omega
  · cases h

/-- Offsets are of whole minutes. -/
theorem readOffset_mod {s rest : List Char} {offset : Int} (h : readOffset s = .ok (offset, rest)) :
    offset % 60 = 0 := by
  unfold readOffset at h
  split at h
  · cases h
    rfl
  · split at h
    · cases h
    · split at h
      · cases h
        rfl
      · split at h
        · obtain ⟨⟨n, after⟩, hfields, h⟩ := exists_of_map h
          have hmod := readOffsetFields_mod hfields
          cases h
          omega
        · split at h
          · obtain ⟨⟨n, after⟩, hfields, h⟩ := exists_of_map h
            have hmod := readOffsetFields_mod hfields
            cases h
            omega
          · cases h

/-- What a date and a time make is an instant that there is. -/
theorem representable_of_ofLocal {date : Date} {time : TimeOfDay} {offset : Int}
    (htime : time.second ≤ 60 ∧ time.nanos < nanosPerSecond) (hoffset : offset % 60 = 0)
    (h : ofLocal date time offset = .ok t) : t.Representable := by
  unfold ofLocal at h
  split at h
  · dsimp only at h
    split at h
    · next hyear =>
      cases h
      refine ⟨?_, ?_, hyear⟩
      · dsimp only
        split <;> omega
      · dsimp only
        unfold TimeOfDay.seconds
        split
        · omega
        · omega
    · cases h
  · cases h

/-- The instants that are read are among those that there are. -/
theorem representable_of_parse {text : String} (h : parse text = .ok t) : t.Representable := by
  obtain ⟨⟨date, s₁⟩, -, h⟩ := exists_of_bind h
  obtain ⟨s₂, -, h⟩ := exists_of_bind h
  obtain ⟨⟨time, s₃⟩, htime, h⟩ := exists_of_bind h
  obtain ⟨⟨offset, s₄⟩, hoffset, h⟩ := exists_of_bind h
  dsimp only at h
  split at h
  · cases h
  · exact representable_of_ofLocal (readTime_second htime) (readOffset_mod hoffset) h

/-- The instants that there are are those whose text is read back. -/
theorem parse_render_iff : parse t.render = .ok t ↔ t.Representable :=
  ⟨representable_of_parse, parse_render⟩

end Ingress.Instant
