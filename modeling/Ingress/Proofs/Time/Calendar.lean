import Ingress.Time.Calendar
import Mathlib

/-!
# Days and dates

A day falls into an era of 400 years, into a year of the era that begins in March, and into a month. Which
year it is comes from a quotient that is corrected for the leap days so far. That quotient grows with the
day, and it is right on the first and on the last day of each of the 400 years; so it is right on every day.

* `yearStart`, `yearEnd`, `yearOfEra` : the first and the last day of a year, and the year of a day;
* `yearOfEra_spec` : a day lies in its year;
* `ofMarch` : the date of a day of a year that begins in March;
* `toDays_ofDays`, `valid_ofDays` : the date of a day exists, and leads back to it.
-/

namespace Ingress.Date

/-! ## Years of an era -/

def yearStart (year : Nat) : Nat := 365 * year + year / 4 - year / 100

/-- The last day of a year; a leap day is the last of its year. -/
def yearEnd (year : Nat) : Nat := yearStart year + if isLeap (year + 1) then 365 else 364

def yearOfEra (day : Nat) : Nat := (day - day / 1460 + day / 36524 - day / 146096) / 365

theorem yearOfEra_lt {day : Nat} (h : day < 146097) : yearOfEra day < 400 := by
  unfold yearOfEra
  omega

theorem yearOfEra_succ {day : Nat} (h : day < 146096) : yearOfEra day ≤ yearOfEra (day + 1) := by
  unfold yearOfEra
  refine Nat.div_le_div_right ?_
  omega

theorem yearOfEra_mono {a b : Nat} (hab : a ≤ b) (hb : b < 146097) : yearOfEra a ≤ yearOfEra b := by
  induction b, hab using Nat.le_induction with
  | base => exact le_rfl
  | succ b _ ih => exact (ih (by omega)).trans (yearOfEra_succ (by omega))

theorem yearOfEra_ends : ∀ year < 400, yearOfEra (yearStart year) = year ∧ yearOfEra (yearEnd year) = year := by
  decide +kernel

theorem yearEnd_succ : ∀ year < 399, yearEnd year + 1 = yearStart (year + 1) := by
  decide +kernel

theorem yearEnd_lt : ∀ year < 400, yearEnd year < 146097 := by
  decide +kernel

theorem yearEnd_last : yearEnd 399 = 146096 := by
  decide +kernel

/-- A day lies in its year. -/
theorem yearOfEra_spec {day : Nat} (h : day < 146097) :
    yearStart (yearOfEra day) ≤ day ∧ day ≤ yearEnd (yearOfEra day) := by
  have hyear := yearOfEra_lt h
  generalize hy : yearOfEra day = year at hyear ⊢
  constructor
  · by_contra hbefore
    -- then the day is not after the year before
    obtain ⟨before, rfl⟩ : ∃ before, year = before + 1 := by
      refine Nat.exists_eq_succ_of_ne_zero ?_
      rintro rfl
      exact hbefore (Nat.zero_le day)
    have hend := yearEnd_succ before (by omega)
    have hmono := yearOfEra_mono (show day ≤ yearEnd before by omega) (yearEnd_lt before (by omega))
    rw [(yearOfEra_ends before (by omega)).2, hy] at hmono
    omega
  · by_contra hafter
    by_cases hlast : year = 399
    · rw [hlast, yearEnd_last] at hafter
      omega
    · have hend := yearEnd_succ year (by omega)
      have hmono := yearOfEra_mono (show yearStart (year + 1) ≤ day by omega) h
      rw [(yearOfEra_ends (year + 1) (by omega)).1, hy] at hmono
      omega

/-! ## Days of a year that begins in March -/

/-- The month of a day, from 0 for March. -/
def marchMonth (day : Nat) : Nat := (5 * day + 2) / 153

/-- The days of a year that begins in March before a month. -/
def monthStart (month : Nat) : Nat := (153 * month + 2) / 5

/-- A month from 1 for January, of a month from 0 for March. -/
def monthOf (month : Nat) : Nat := if month < 10 then month + 3 else month - 9

/-- The date of a day of a year that begins in March; January and February are of the next year. -/
def ofMarch (year : Int) (day : Nat) : Date :=
  ⟨year + (if monthOf (marchMonth day) ≤ 2 then 1 else 0), monthOf (marchMonth day),
    day - monthStart (marchMonth day) + 1⟩

theorem monthOf_bounds {month : Nat} (h : month < 12) :
    1 ≤ monthOf month ∧ monthOf month ≤ 12 ∧ (monthOf month ≤ 2 ↔ 10 ≤ month) ∧
      (monthOf month = 2 ↔ month = 11) ∧
      (if 2 < monthOf month then monthOf month - 3 else monthOf month + 9) = month := by
  unfold monthOf
  split <;> split <;> omega

theorem isLeap_add_eras (year era : Int) : isLeap (year + era * 400) = isLeap year := by
  unfold isLeap
  rw [show (year + era * 400) % 4 = year % 4 by omega, show (year + era * 400) % 100 = year % 100 by omega,
    show (year + era * 400) % 400 = year % 400 by omega]

/-- Day by day: the month exists and does not begin later, and the day exists in it, if it is not February,
the last one. -/
theorem ofMarch_days : ∀ day < 366, marchMonth day < 12 ∧ monthStart (marchMonth day) ≤ day ∧
    (marchMonth day ≠ 11 → day - monthStart (marchMonth day) + 1 ≤
      daysInMonth 0 (monthOf (marchMonth day))) := by
  decide +kernel

theorem daysInMonth_of_ne {month : Nat} (h : month ≠ 2) (year other : Int) :
    daysInMonth year month = daysInMonth other month := by
  unfold daysInMonth
  rw [if_neg h, if_neg h]

theorem valid_ofMarch {year : Int} {day : Nat} (hday : day < 366)
    (hleap : day = 365 → isLeap (year + 1) = true) : (ofMarch year day).valid = true := by
  obtain ⟨hmonth, -, hlength⟩ := ofMarch_days day hday
  obtain ⟨hfirst, hlast, hturn, hfebruary, -⟩ := monthOf_bounds hmonth
  unfold ofMarch valid
  simp only [Bool.and_eq_true, decide_eq_true_eq]
  refine ⟨⟨⟨hfirst, hlast⟩, by omega⟩, ?_⟩
  by_cases hend : marchMonth day = 11
  · have hstart : monthStart 11 = 337 := rfl
    rw [if_pos (hturn.2 (by omega)), hfebruary.2 hend, hend, hstart, daysInMonth, if_pos rfl]
    split
    · omega
    · next hcommon =>
      have hne : day ≠ 365 := mt hleap hcommon
      omega
  · rw [daysInMonth_of_ne (mt hfebruary.1 hend) _ 0]
    exact hlength hend

theorem toDays_ofMarch {year day : Nat} {era : Int} (hyear : year < 400) (hday : day < 366) :
    (ofMarch (year + era * 400) day).toDays = era * 146097 + (yearStart year + day : Nat) - epochShift := by
  obtain ⟨hmonth, hstart, -⟩ := ofMarch_days day hday
  obtain ⟨-, -, -, -, hmarch⟩ := monthOf_bounds hmonth
  have hera : (year + era * 400 : Int).fdiv 400 = era := by
    rw [Int.fdiv_eq_ediv_of_nonneg _ (by decide)]
    omega
  have hyears : (year + era * 400 - era * 400 : Int).toNat = year := by omega
  have hback : (if monthOf (marchMonth day) ≤ 2 then
      (year + era * 400 : Int) + (if monthOf (marchMonth day) ≤ 2 then 1 else 0) - 1
      else year + era * 400 + (if monthOf (marchMonth day) ≤ 2 then 1 else 0)) = year + era * 400 := by
    split <;> omega
  have hdays : (153 * marchMonth day + 2) / 5 + (day - monthStart (marchMonth day) + 1) - 1 = day := by
    show monthStart _ + _ - 1 = day
    omega
  unfold ofMarch toDays
  dsimp only
  rw [hback, hera, hyears, hmarch, hdays, yearStart, Nat.mul_comm year]

/-! ## Days and dates -/

def eraOf (days : Int) : Int := (days + epochShift).fdiv 146097

def dayOfEra (days : Int) : Nat := (days + epochShift - eraOf days * 146097).toNat

theorem dayOfEra_spec (days : Int) :
    dayOfEra days < 146097 ∧ days + epochShift = eraOf days * 146097 + dayOfEra days := by
  unfold dayOfEra eraOf
  rw [Int.fdiv_eq_ediv_of_nonneg _ (by decide)]
  omega

theorem ofDays_eq (days : Int) :
    ofDays days = ofMarch (yearOfEra (dayOfEra days) + eraOf days * 400)
      (dayOfEra days - yearStart (yearOfEra (dayOfEra days))) := rfl

theorem dayOfYear_spec {day : Nat} (h : day < 146097) : day - yearStart (yearOfEra day) < 366 ∧
    (day - yearStart (yearOfEra day) = 365 → isLeap (yearOfEra day + 1) = true) := by
  have hend := (yearOfEra_spec h).2
  unfold yearEnd at hend
  split at hend
  · next hleap => exact ⟨by omega, fun _ => hleap⟩
  · exact ⟨by omega, by omega⟩

/-- The date of a day exists. -/
theorem valid_ofDays (days : Int) : (ofDays days).valid = true := by
  obtain ⟨hday, hleap⟩ := dayOfYear_spec (dayOfEra_spec days).1
  rw [ofDays_eq]
  refine valid_ofMarch hday fun hlast => ?_
  rw [Int.add_right_comm, isLeap_add_eras]
  exact hleap hlast

/-- The date of a day leads back to it. -/
theorem toDays_ofDays (days : Int) : (ofDays days).toDays = days := by
  obtain ⟨hera, hdays⟩ := dayOfEra_spec days
  have hstart := (yearOfEra_spec hera).1
  rw [ofDays_eq, toDays_ofMarch (yearOfEra_lt hera) (dayOfYear_spec hera).1]
  omega

end Ingress.Date
