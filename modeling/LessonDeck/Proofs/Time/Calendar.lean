import Mathlib
import LessonDeck.Time.Calendar
/-!
# Days and dates

Every day has a date of the calendar, and it is the day of this date.  The year of a day within its
four hundred years is found by one division of a corrected number of days; the correction never
decreases, so that it suffices to look at the first and the last day of each year.
-/

namespace LessonDeck.Calendar

/-! ## The year of a day -/

/-- The days of four hundred years before a year of them. -/
def yearStart (year : ℕ) : ℕ :=
  365 * year + year / 4 - year / 100

/-- The number of a day less the leap days before it. -/
def leapless (day : ℕ) : ℕ :=
  day - day / 1460 + day / 36524 - day / 146096

theorem leapless_le_succ {day : ℕ} (h : day + 1 < 146097) : leapless day ≤ leapless (day + 1) := by
  rw [leapless, leapless]
  obtain hlast | hlast := Nat.lt_or_ge (day + 1) 146096
  · omega
  · obtain rfl : day = 146095 := by omega
    decide

theorem leapless_mono {a b : ℕ} (hab : a ≤ b) (hb : b < 146097) : leapless a ≤ leapless b := by
  induction b, hab using Nat.le_induction with
  | base => exact le_rfl
  | succ b _ ih => exact (ih (by omega)).trans (leapless_le_succ hb)

theorem leapless_first : ∀ year < 400, 365 * year ≤ leapless (yearStart year) := by
  decide +kernel

theorem leapless_last : ∀ year < 400, leapless (yearStart (year + 1) - 1) < 365 * (year + 1) := by
  decide +kernel

/-- The year that the division gives is the one that the day belongs to.  The last of four hundred
years is a leap year, so that one day is left over there. -/
theorem year_of_day {day : ℕ} (h : day < 146097) :
    leapless day / 365 < 400 ∧ yearStart (leapless day / 365) ≤ day ∧
      (leapless day / 365 < 399 → day < yearStart (leapless day / 365 + 1)) := by
  have hlast : leapless 146096 = 145999 := by decide
  have hle : leapless day ≤ 145999 := hlast ▸ leapless_mono (by omega) (by decide)
  generalize hyear : leapless day / 365 = year
  have hlt : year < 400 := by omega
  refine ⟨hlt, ?_, fun hnext ↦ ?_⟩
  · cases year with
    | zero => exact Nat.zero_le day
    | succ year =>
        by_contra hbefore
        have hmono := leapless_mono (show day ≤ yearStart (year + 1) - 1 by omega)
          (by rw [yearStart]; omega)
        have hfirst := leapless_last year (by omega)
        omega
  · by_contra hafter
    have hmono := leapless_mono (Nat.not_lt.mp hafter) h
    have hfirst := leapless_first (year + 1) (by omega)
    omega

/-! ## The day of a date -/

/-- The day of the year that the first of a month has, counted from March. -/
def monthStart (month : ℕ) : ℕ :=
  (153 * month + 2) / 5

theorem month_of_day : ∀ day < 366, (5 * day + 2) / 153 < 12 ∧
    monthStart ((5 * day + 2) / 153) ≤ day := by
  decide +kernel

/-- A month that is counted from March, by its number. -/
def monthNumber (month : ℕ) : ℕ :=
  if month < 10 then month + 3 else month - 9

theorem length_of_month : ∀ day < 366,
    day - monthStart ((5 * day + 2) / 153) < daysInMonth 0 (monthNumber ((5 * day + 2) / 153)) := by
  decide +kernel

/-- A year has no more than 366 days, and as many only if it ends in a leap year's February. -/
theorem day_of_year {day year : ℕ} (h : day < 146097) (hyear : year < 400)
    (hfirst : yearStart year ≤ day) (hlast : year < 399 → day < yearStart (year + 1)) :
    day - yearStart year < 366 ∧
      (day - yearStart year = 365 → ∀ era : ℤ, isLeap (era * 400 + year + 1) = true) := by
  simp only [yearStart] at *
  refine ⟨by omega, fun hleap era ↦ ?_⟩
  have hyear : (era * 400 + year + 1) % 4 = 0 ∧
      ((era * 400 + year + 1) % 100 ≠ 0 ∨ (era * 400 + year + 1) % 400 = 0) := by
    obtain hlt | hge := Nat.lt_or_ge year 399
    · have hnext := hlast hlt
      rw [Nat.succ_div, Nat.succ_div] at hnext
      split at hnext <;> split at hnext <;> omega
    · omega
  simpa [isLeap] using hyear

/-- Only the twenty-ninth of February needs a leap year. -/
theorem day_le_daysInMonth {day : ℕ} (h : day < 366) {year : ℤ}
    (hleap : day = 365 → isLeap year = true) :
    day - monthStart ((5 * day + 2) / 153) + 1 ≤
      daysInMonth year (monthNumber ((5 * day + 2) / 153)) := by
  have hlength := length_of_month day h
  rw [daysInMonth] at hlength ⊢
  split
  · next hmonth =>
    rw [if_pos hmonth] at hlength
    split
    · exact hlength
    · next hshort =>
      have hday : day ≠ 365 := fun heq ↦ hshort (hleap heq)
      rw [monthNumber] at hmonth
      rw [monthStart]
      split at hmonth <;> omega
  · next hmonth =>
    rwa [if_neg hmonth] at hlength

/-- The date of a day of a year, both counted from March. -/
def dateOfParts (era : ℤ) (year day : ℕ) : ℤ × ℕ × ℕ :=
  let month := (5 * day + 2) / 153
  (if monthNumber month ≤ 2 then era * 400 + year + 1 else era * 400 + year, monthNumber month,
    day - monthStart month + 1)

theorem dateOf_eq (number : ℤ) :
    let day := ((number + daysToEpoch) % daysOfEra).toNat
    dateOf number = dateOfParts ((number + daysToEpoch) / daysOfEra) (leapless day / 365)
      (day - yearStart (leapless day / 365)) := by
  rw [dateOf, Int.fdiv_eq_ediv_of_nonneg _ (by decide), Int.fmod_eq_emod_of_nonneg _ (by decide)]
  rfl

theorem dayNumber_dateOfParts (era : ℤ) {year day : ℕ} (hyear : year < 400) (hday : day < 366)
    (hleap : day = 365 → isLeap (era * 400 + year + 1) = true) :
    let date := dateOfParts era year day
    isDate date.1 date.2.1 date.2.2 = true ∧
      dayNumber date.1 date.2.1 date.2.2 =
        era * daysOfEra + yearStart year + day - daysToEpoch := by
  rw [dateOfParts]
  generalize heq : (5 * day + 2) / 153 = month
  generalize hy : (if monthNumber month ≤ 2 then era * 400 + year + 1 else era * 400 + year) = y
  obtain ⟨hmonth, hstart⟩ := month_of_day day hday
  rw [heq] at hmonth hstart
  have hbounds : 1 ≤ monthNumber month ∧ monthNumber month ≤ 12 ∧
      (monthNumber month + 9) % 12 = month := by
    rw [monthNumber]
    split <;> omega
  have hmarch : (if monthNumber month ≤ 2 then y - 1 else y) = era * 400 + year := by
    rw [← hy]
    split
    · exact add_sub_cancel_right _ _
    · rfl
  have hfits : day - monthStart month + 1 ≤ daysInMonth y (monthNumber month) := by
    rw [← heq]
    refine day_le_daysInMonth hday fun hlast ↦ ?_
    have hfebruary : monthNumber month ≤ 2 := by
      rw [← heq, hlast]
      decide
    rw [← hy, if_pos hfebruary]
    exact hleap hlast
  constructor
  · simp only [isDate, Bool.and_eq_true, decide_eq_true_eq]
    omega
  · rw [dayNumber, hmarch, Int.fdiv_eq_ediv_of_nonneg _ (by decide),
      Int.fmod_eq_emod_of_nonneg _ (by decide)]
    have hshifted : ((monthNumber month : ℤ) + 9) % 12 = month := by exact_mod_cast hbounds.2.2
    rw [hshifted, daysOfEra, yearStart]
    rw [monthStart] at hstart ⊢
    push_cast [hstart]
    omega

/-- Every day has a date, and is the day of this date. -/
theorem dayNumber_dateOf (number : ℤ) :
    let date := dateOf number
    isDate date.1 date.2.1 date.2.2 = true ∧ dayNumber date.1 date.2.1 date.2.2 = number := by
  have hera : 0 ≤ (number + daysToEpoch) % daysOfEra ∧
      (number + daysToEpoch) % daysOfEra < daysOfEra := by
    rw [daysOfEra]
    omega
  have hlt : ((number + daysToEpoch) % daysOfEra).toNat < 146097 := by
    rw [daysOfEra] at *
    omega
  obtain ⟨hyear, hfirst, hlast⟩ := year_of_day hlt
  obtain ⟨hday, hleap⟩ := day_of_year hlt hyear hfirst hlast
  obtain ⟨hdate, hnumber⟩ := dayNumber_dateOfParts _ hyear hday fun h ↦ hleap h _
  rw [dateOf_eq]
  refine ⟨hdate, hnumber.trans ?_⟩
  have hsplit := Int.ediv_mul_add_emod (number + daysToEpoch) daysOfEra
  omega

end LessonDeck.Calendar
