import Mathlib.Order.Lattice
import Mathlib.Tactic.ByContra
/-!
# The proleptic Gregorian calendar

Dates and day numbers, days counted from 1 January 1970. Years are counted
from March, so a leap day ends its year, and in eras of 400 years, which
have one number of days each. `daysFromDate_dateFromDays` says that the
date of a day number has that number.

The code's dates are texts. `toISOString().slice(0, 10)` gives a day of the
years 0 to 9999 in full; any other year takes three characters more, and
the text is cut after its month (`isoDate`).
-/

namespace SymphonyBoard

/-- The milliseconds of a day. -/
def dayMs : ℤ := 86400000

/-- A date as its text has it. Day 0 of a year outside 0 to 9999 stands for
a text cut after its month. -/
structure DateOnly where
  year : ℤ
  month : ℤ
  day : ℤ
deriving DecidableEq, Repr

/-- The day number of a date; days past the month's end run on. -/
def daysFromDate (year month day : ℤ) : ℤ :=
  let y := if month ≤ 2 then year - 1 else year
  let yoe := y % 400
  let mp := (month + 9) % 12
  y / 400 * 146097 + (yoe * 365 + yoe / 4 - yoe / 100) + ((153 * mp + 2) / 5 + day - 1) - 719468

/-- The date of a day number. -/
def dateFromDays (n : ℤ) : DateOnly :=
  let z := n + 719468
  let doe := z % 146097
  -- the last century of an era and the last year of four are a day longer
  let century := min (doe / 36524) 3
  let doc := doe - 36524 * century
  let year := min (doc % 1461 / 365) 3
  let doy := doc % 1461 - 365 * year
  let mp := (5 * doy + 2) / 153
  let month := if mp < 10 then mp + 3 else mp - 9
  { year := 400 * (z / 146097) + 100 * century + 4 * (doc / 1461) + year +
      (if month ≤ 2 then 1 else 0)
    month
    day := doy - (153 * mp + 2) / 5 + 1 }

example : dateFromDays 20520 = ⟨2026, 3, 8⟩ := by decide

/-- A date counted from March: the era, the century in it, the four years
in that, the year in those and the day in that, the 366th day only in the
last year of four, and of a century's last four only in the last century. -/
theorem dateFromDays_parts_leap (n : ℤ) : ∃ era c q y doy : ℤ,
    0 ≤ c ∧ c ≤ 3 ∧ 0 ≤ q ∧ q ≤ 24 ∧ 0 ≤ y ∧ y ≤ 3 ∧ 0 ≤ doy ∧ doy ≤ 365 ∧
      (doy = 365 → y = 3 ∧ (q < 24 ∨ c = 3)) ∧
      n + 719468 = 146097 * era + 36524 * c + 1461 * q + 365 * y + doy ∧
      dateFromDays n =
        let mp := (5 * doy + 2) / 153
        let month := if mp < 10 then mp + 3 else mp - 9
        { year := 400 * era + 100 * c + 4 * q + y + (if month ≤ 2 then 1 else 0)
          month
          day := doy - (153 * mp + 2) / 5 + 1 } := by
  refine ⟨(n + 719468) / 146097, min ((n + 719468) % 146097 / 36524) 3,
    ((n + 719468) % 146097 - 36524 * min ((n + 719468) % 146097 / 36524) 3) / 1461,
    min (((n + 719468) % 146097 - 36524 * min ((n + 719468) % 146097 / 36524) 3) % 1461 / 365) 3,
    ((n + 719468) % 146097 - 36524 * min ((n + 719468) % 146097 / 36524) 3) % 1461 -
      365 * min (((n + 719468) % 146097 - 36524 * min ((n + 719468) % 146097 / 36524) 3) % 1461
        / 365) 3, ?_, ?_, ?_, ?_, ?_, ?_, ?_, ?_, ?_, ?_, rfl⟩
  all_goals omega

theorem dateFromDays_parts (n : ℤ) : ∃ era c q y doy : ℤ,
    0 ≤ c ∧ c ≤ 3 ∧ 0 ≤ q ∧ q ≤ 24 ∧ 0 ≤ y ∧ y ≤ 3 ∧ 0 ≤ doy ∧ doy ≤ 365 ∧
      n + 719468 = 146097 * era + 36524 * c + 1461 * q + 365 * y + doy ∧
      dateFromDays n =
        let mp := (5 * doy + 2) / 153
        let month := if mp < 10 then mp + 3 else mp - 9
        { year := 400 * era + 100 * c + 4 * q + y + (if month ≤ 2 then 1 else 0)
          month
          day := doy - (153 * mp + 2) / 5 + 1 } := by
  obtain ⟨era, c, q, y, doy, hc, hc', hq, hq', hy, hy', hd, hd', -, hn, heq⟩ :=
    dateFromDays_parts_leap n
  exact ⟨era, c, q, y, doy, hc, hc', hq, hq', hy, hy', hd, hd', hn, heq⟩

/-- The days from 1 March of the year 0 to 1 March of a year. -/
def marchStart (y : ℤ) : ℤ := 365 * y + y / 4 - y / 100 + y / 400

theorem marchStart_mono {y y' : ℤ} (h : y ≤ y') : marchStart y ≤ marchStart y' := by
  unfold marchStart
  omega

/-- A date as a year counted from March and a day in it. -/
theorem dateFromDays_march (n : ℤ) : ∃ y doy : ℤ,
    0 ≤ doy ∧ doy ≤ 365 ∧ n + 719468 = marchStart y + doy ∧
      marchStart y + doy < marchStart (y + 1) ∧
      dateFromDays n =
        let mp := (5 * doy + 2) / 153
        let month := if mp < 10 then mp + 3 else mp - 9
        { year := y + (if month ≤ 2 then 1 else 0)
          month
          day := doy - (153 * mp + 2) / 5 + 1 } := by
  obtain ⟨era, c, q, y, doy, hc, hc', hq, hq', hy, hy', hd, hd', hleap, hn, heq⟩ :=
    dateFromDays_parts_leap n
  refine ⟨400 * era + 100 * c + 4 * q + y, doy, hd, hd', ?_, ?_, heq⟩
  · unfold marchStart
    omega
  · unfold marchStart
    by_cases h365 : doy = 365
    · have hlast := hleap h365
      omega
    · omega

/-- **The date of a day number has that number.** -/
theorem daysFromDate_dateFromDays (n : ℤ) :
    daysFromDate (dateFromDays n).year (dateFromDays n).month (dateFromDays n).day = n := by
  obtain ⟨era, c, q, y, doy, hc, hc', hq, hq', hy, hy', hd, hd', hn, heq⟩ := dateFromDays_parts n
  rw [heq]
  generalize hmp : (5 * doy + 2) / 153 = mp
  have hmp' : 0 ≤ mp ∧ mp ≤ 11 := by omega
  have hera : (400 * era + 100 * c + 4 * q + y) / 400 = era := by omega
  have hyoe : (400 * era + 100 * c + 4 * q + y) % 400 = 100 * c + 4 * q + y := by omega
  have hleap : (100 * c + 4 * q + y) / 4 = 25 * c + q := by omega
  have hcentury : (100 * c + 4 * q + y) / 100 = c := by omega
  unfold daysFromDate
  simp only
  by_cases h : mp < 10
  · have hmonth : (mp + 3 + 9) % 12 = mp := by omega
    rw [if_pos h, if_neg (by omega : ¬mp + 3 ≤ 2), if_neg (by omega : ¬mp + 3 ≤ 2), hmonth]
    rw [Int.add_zero, hera, hyoe, hleap, hcentury]
    omega
  · have hmonth : (mp - 9 + 9) % 12 = mp := by omega
    rw [if_neg h, if_pos (by omega : mp - 9 ≤ 2), if_pos (by omega : mp - 9 ≤ 2), hmonth]
    rw [Int.add_sub_cancel, hera, hyoe, hleap, hcentury]
    omega

theorem dateFromDays_injective {m n : ℤ} (h : dateFromDays m = dateFromDays n) : m = n := by
  rw [← daysFromDate_dateFromDays m, h, daysFromDate_dateFromDays]

@[simp] theorem dateFromDays_inj {m n : ℤ} : dateFromDays m = dateFromDays n ↔ m = n :=
  ⟨dateFromDays_injective, fun h => h ▸ rfl⟩

theorem daysFromDate_day (y m d : ℤ) : daysFromDate y m d = daysFromDate y m 1 + (d - 1) := by
  unfold daysFromDate
  simp only
  omega

theorem dateFromDays_month (n : ℤ) :
    1 ≤ (dateFromDays n).month ∧ (dateFromDays n).month ≤ 12 := by
  obtain ⟨era, c, q, y, doy, hc, hc', hq, hq', hy, hy', hd, hd', hn, heq⟩ := dateFromDays_parts n
  rw [heq]
  simp only
  by_cases h : (5 * doy + 2) / 153 < 10
  · rw [if_pos h]
    omega
  · rw [if_neg h]
    omega

theorem dateFromDays_day (n : ℤ) : 1 ≤ (dateFromDays n).day := by
  obtain ⟨era, c, q, y, doy, hc, hc', hq, hq', hy, hy', hd, hd', hn, heq⟩ := dateFromDays_parts n
  rw [heq]
  simp only
  omega

/-- The days before a year's first are those of earlier years. -/
theorem year_lt_iff (n y : ℤ) : (dateFromDays n).year < y ↔ n < daysFromDate y 1 1 := by
  obtain ⟨y', doy, hd, hd', hn, hlast, heq⟩ := dateFromDays_march n
  have hfirst : daysFromDate y 1 1 = marchStart (y - 1) + 306 - 719468 := by
    unfold daysFromDate marchStart
    simp only
    omega
  rw [heq, hfirst]
  simp only
  -- January and February, from day 306 on, are of the year that March ends
  rcases lt_trichotomy y' (y - 1) with hlt | rfl | hlt
  · have hmono := marchStart_mono (show y' + 1 ≤ y - 1 by omega)
    split <;> omega
  · by_cases h : (5 * doy + 2) / 153 < 10
    · rw [if_pos h, if_neg (by omega)]
      omega
    · rw [if_neg h, if_pos (by omega)]
      omega
  · have hmono := marchStart_mono (show y - 1 + 1 ≤ y' by omega)
    have hyear : marchStart (y - 1) + 365 ≤ marchStart (y - 1 + 1) := by
      unfold marchStart
      omega
    split <;> omega

theorem year_lt_hundred_iff (n : ℤ) : (dateFromDays n).year < 100 ↔ n < -683003 :=
  year_lt_iff n 100

theorem year_nonneg_iff (n : ℤ) : 0 ≤ (dateFromDays n).year ↔ -719528 ≤ n := by
  have hneg : (dateFromDays n).year < 0 ↔ n < -719528 := year_lt_iff n 0
  omega

theorem year_lt_tenThousand_iff (n : ℤ) : (dateFromDays n).year < 10000 ↔ n < 2932897 :=
  year_lt_iff n 10000

theorem year_lt_thousand_iff (n : ℤ) : (dateFromDays n).year < 1000 ↔ n < -354285 :=
  year_lt_iff n 1000

/-- The days of the years 0 to 9999. -/
def FourDigitDay (n : ℤ) : Prop := -719528 ≤ n ∧ n < 2932897

instance (n : ℤ) : Decidable (FourDigitDay n) := inferInstanceAs (Decidable (_ ∧ _))

theorem fourDigitDay_iff (n : ℤ) :
    FourDigitDay n ↔ 0 ≤ (dateFromDays n).year ∧ (dateFromDays n).year < 10000 := by
  rw [year_nonneg_iff, year_lt_tenThousand_iff]
  rfl

/-- A date 1900 years on is at least 1900 common years on, and not 1000
days more. -/
theorem daysFromDate_add_1900 (y m d : ℤ) :
    daysFromDate y m d + 693500 ≤ daysFromDate (1900 + y) m d ∧
      daysFromDate (1900 + y) m d ≤ daysFromDate y m d + 694500 := by
  unfold daysFromDate
  simp only
  by_cases h : m ≤ 2
  · rw [if_pos h, if_pos h]
    omega
  · rw [if_neg h, if_neg h]
    omega

/-! ## Dates as texts -/

/-- The text is cut after its month. -/
def DateOnly.isCut (date : DateOnly) : Bool :=
  date.day = 0 && !(decide (0 ≤ date.year) && decide (date.year < 10000))

/-- The numbers of the parts of a text between its hyphens, `none` where
one is `NaN`. A cut text has no day; a minus sign is a hyphen too, behind an
empty part that reads as 0. -/
def DateOnly.numbers (date : DateOnly) : Option DateOnly :=
  if date.isCut then
    if date.year < 0 then some ⟨0, -date.year, date.month⟩ else none
  else some date

/-- `toISOString().slice(0, 10)` on a day. -/
def isoDate (n : ℤ) : DateOnly :=
  let date := dateFromDays n
  if 0 ≤ date.year ∧ date.year < 10000 then date else { date with day := 0 }

example : isoDate 2932897 = ⟨10000, 1, 0⟩ := by decide

theorem isoDate_year (n : ℤ) : (isoDate n).year = (dateFromDays n).year := by
  unfold isoDate
  simp only
  split <;> rfl

theorem isoDate_eq {n : ℤ} (h : FourDigitDay n) : isoDate n = dateFromDays n :=
  if_pos ((fourDigitDay_iff n).mp h)

/-- **Only a day of the years 0 to 9999 is written in full.** -/
theorem isoDate_eq_iff {m n : ℤ} : isoDate m = dateFromDays n ↔ m = n ∧ FourDigitDay n := by
  constructor
  · intro h
    unfold isoDate at h
    simp only at h
    split at h
    next hyear =>
      obtain rfl := dateFromDays_injective h
      exact ⟨rfl, (fourDigitDay_iff m).mpr hyear⟩
    next =>
      have hday := dateFromDays_day n
      rw [← h] at hday
      exact absurd hday (Int.not_le.mpr Int.zero_lt_one)
  · rintro ⟨rfl, h⟩
    exact isoDate_eq h

theorem dateFromDays_isCut (n : ℤ) : (dateFromDays n).isCut = false := by
  have hday := dateFromDays_day n
  unfold DateOnly.isCut
  rw [decide_eq_false (by omega), Bool.false_and]

@[simp] theorem numbers_dateFromDays (n : ℤ) : (dateFromDays n).numbers = some (dateFromDays n) := by
  unfold DateOnly.numbers
  rw [dateFromDays_isCut, if_neg Bool.false_ne_true]

end SymphonyBoard
