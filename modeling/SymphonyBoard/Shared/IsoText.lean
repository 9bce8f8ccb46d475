import SymphonyBoard.Shared.Stamp
import SymphonyBoard.Shared.Zone
/-!
# ISO texts of all years

`new Date(ms).toISOString()` for every instant: a year outside 0 to 9999 is
written with a sign and six digits, so its text no longer sorts with the
texts of the four-digit years. Between four-digit years the text of an
earlier day comes first, whatever follows the date (`dateChars_lt`).

An `IsoTimestamp` is a timestamp as a provider may write it: a four-digit
year, a fraction of any width, an offset of at most fourteen hours.
-/

namespace SymphonyBoard

/-! ## Two counts of days -/

/-- The days before a month, counted from the March before or in it. -/
theorem daysBeforeMonth_march {m : ℕ} (hm : 1 ≤ m) (hm' : m ≤ 12) :
    ((daysBeforeMonth m : ℕ) : ℤ) =
      (153 * (((m : ℤ) + 9) % 12) + 2) / 5 + if m < 3 then -306 else 59 := by
  interval_cases m <;> rfl

/-- The days before the next year, in whole leap cycles. -/
theorem daysBeforeYear_cycles (y : ℕ) :
    daysBeforeYear y + 364 + (if isLeapYear y then 1 else 0) + y / 100 =
      365 * (y + 1) + y / 4 + y / 400 := by
  have hnext : daysBeforeYear (y + 1) + y / 100 = 365 * (y + 1) + y / 4 + y / 400 + 1 := by
    unfold daysBeforeYear
    rw [show (y + 1 + 3) / 4 = y / 4 + 1 by omega, show (y + 1 + 99) / 100 = y / 100 + 1 by omega,
      show (y + 1 + 399) / 400 = y / 400 + 1 by omega]
    have hle : y / 100 ≤ y / 4 := by omega
    omega
  have hsucc := daysBeforeYear_succ y
  have hlast := daysBefore_december y
  omega

/-- A year's days in eras of 400 years. -/
theorem era_days (z : ℤ) :
    z / 400 * 146097 + (z % 400 * 365 + z % 400 / 4 - z % 400 / 100) =
      365 * z + z / 4 - z / 100 + z / 400 := by
  omega

/-- The numbers agree on both counts of days. -/
theorem daysFromDate_civil {y m d : ℕ} (hm : 1 ≤ m) (hm' : m ≤ 12) (hd : 1 ≤ d) :
    daysFromDate y m d = (daysFromCivil y m d : ℤ) - epochDay := by
  have hepoch : ((epochDay : ℕ) : ℤ) = 719528 := rfl
  rw [hepoch]
  unfold daysFromDate daysFromCivil
  rcases Nat.lt_or_ge m 3 with h | h
  · have hbefore : (daysBeforeYear y : ℤ) =
        365 * ((y : ℤ) - 1) + ((y : ℤ) - 1) / 4 - ((y : ℤ) - 1) / 100 + ((y : ℤ) - 1) / 400 + 366 := by
      have h4 : (((y + 3) / 4 : ℕ) : ℤ) = ((y : ℤ) - 1) / 4 + 1 := by omega
      have h100 : (((y + 99) / 100 : ℕ) : ℤ) = ((y : ℤ) - 1) / 100 + 1 := by omega
      have h400 : (((y + 399) / 400 : ℕ) : ℤ) = ((y : ℤ) - 1) / 400 + 1 := by omega
      have hle : (y + 99) / 100 ≤ (y + 3) / 4 := by omega
      unfold daysBeforeYear
      generalize (y + 3) / 4 = a at *
      generalize (y + 99) / 100 = b at *
      generalize (y + 399) / 400 = c at *
      omega
    have hmonth := daysBeforeMonth_march hm hm'
    rw [if_pos h] at hmonth
    rw [if_neg (by omega : ¬ (isLeapYear y = true ∧ 2 < m)), Nat.add_zero]
    simp only [show (m : ℤ) ≤ 2 by omega, if_true, era_days]
    generalize daysBeforeYear y = b at *
    generalize daysBeforeMonth m = e at *
    omega
  · have hmonth := daysBeforeMonth_march hm hm'
    rw [if_neg (by omega)] at hmonth
    have hcycles := daysBeforeYear_cycles y
    have hsame : (if isLeapYear y = true ∧ 2 < m then 1 else 0) = if isLeapYear y then 1 else 0 := by
      simp [show 2 < m by omega]
    rw [hsame]
    simp only [show ¬ (m : ℤ) ≤ 2 by omega, if_false, era_days]
    generalize daysBeforeYear y = b at *
    generalize (if isLeapYear y then 1 else 0) = e at *
    generalize daysBeforeMonth m = f at *
    omega

/-- The year of an era, from the day of it. -/
theorem yearOfEra_eq {c q y doy doe : ℕ} (hc : c ≤ 3) (hq : q ≤ 24) (hy : y ≤ 3) (hd : doy ≤ 365)
    (hleap : doy = 365 → y = 3 ∧ (q < 24 ∨ c = 3))
    (hdoe : doe = 36524 * c + 1461 * q + 365 * y + doy) :
    (doe - doe / 1460 + doe / 36524 - doe / 146096) / 365 = 100 * c + 4 * q + y := by
  have hlast : doe / 36524 - c = doe / 146096 ∧ c ≤ doe / 36524 := by omega
  obtain ⟨e, he, he'⟩ : ∃ e, doe / 1460 = 25 * c + q + e ∧ (e = 0 ∨ e = 1 ∧ 1460 ≤ 24 * c + q + 365 * y + doy) := by
    rcases Nat.lt_or_ge (24 * c + q + 365 * y + doy) 1460 with h | h
    · exact ⟨0, by omega, Or.inl rfl⟩
    · exact ⟨1, by omega, Or.inr ⟨rfl, h⟩⟩
  generalize doe / 36524 = a at *
  generalize doe / 146096 = b at *
  rw [he]
  have hsum : doe - (25 * c + q + e) + a - b = 365 * (100 * c + 4 * q + y) + (doy - e) := by omega
  have hsmall : doy - e < 365 := by omega
  rw [hsum]
  omega

/-- **Both ways of reading a day number agree.** -/
theorem dateFromDays_civil (days : ℕ) :
    dateFromDays ((days : ℤ) - epochDay) =
      ⟨(civilFromDays days).1, (civilFromDays days).2.1, (civilFromDays days).2.2⟩ := by
  obtain ⟨era, c, q, y, doy, hc, hc', hq, hq', hy, hy', hd, hd', hleap, hn, heq⟩ :=
    dateFromDays_parts_leap ((days : ℤ) - epochDay)
  rw [heq]
  have hepoch : ((epochDay : ℕ) : ℤ) = 719528 := rfl
  rw [hepoch] at hn
  lift c to ℕ using hc
  lift q to ℕ using hq
  lift y to ℕ using hy
  lift doy to ℕ using hd
  have hera : (days + 146037) / 146097 = (era + 1).toNat := by omega
  have hpos : 0 ≤ era + 1 := by omega
  have hdoe : (days + 146037) % 146097 = 36524 * c + 1461 * q + 365 * y + doy := by omega
  -- the year of the era, then the day of the year, as the days are cut up
  have hyoe : (36524 * c + 1461 * q + 365 * y + doy - (36524 * c + 1461 * q + 365 * y + doy) / 1460 +
      (36524 * c + 1461 * q + 365 * y + doy) / 36524 -
      (36524 * c + 1461 * q + 365 * y + doy) / 146096) / 365 = 100 * c + 4 * q + y :=
    yearOfEra_eq (by omega) (by omega) (by omega) (by omega) (by omega) rfl
  have hdoy : 36524 * c + 1461 * q + 365 * y + doy -
      (365 * (100 * c + 4 * q + y) + (100 * c + 4 * q + y) / 4 - (100 * c + 4 * q + y) / 100) =
        doy := by
    have h4 : (100 * c + 4 * q + y) / 4 = 25 * c + q := by omega
    have h100 : (100 * c + 4 * q + y) / 100 = c := by omega
    rw [h4, h100]
    omega
  have hciv : civilFromDays days =
      (let mp := (5 * doy + 2) / 153
       let m := if mp < 10 then mp + 3 else mp - 9
       (100 * c + 4 * q + y + (era + 1).toNat * 400 + (if m ≤ 2 then 1 else 0) - 400, m,
         doy - (153 * mp + 2) / 5 + 1)) := by
    unfold civilFromDays
    dsimp only
    rw [hera, hdoe, hyoe, hdoy]
  rw [hciv]
  clear hciv hera hdoe hyoe hdoy heq
  have hmp : (5 * (doy : ℤ) + 2) / 153 = ((5 * doy + 2) / 153 : ℕ) := by omega
  have hday : (153 * ((5 * doy + 2) / 153) + 2) / 5 ≤ doy := by omega
  simp only [hmp]
  generalize (5 * doy + 2) / 153 = mp at *
  -- March to December, or January and February of the next year
  rcases Nat.lt_or_ge mp 10 with h | h
  · rw [if_pos (by omega : (mp : ℤ) < 10), if_pos h, if_neg (by omega), if_neg (by omega)]
    rw [DateOnly.mk.injEq]
    refine ⟨by omega, by omega, by omega⟩
  · rw [if_neg (by omega : ¬ (mp : ℤ) < 10), if_neg (by omega : ¬ mp < 10), if_pos (by omega),
      if_pos (by omega)]
    rw [DateOnly.mk.injEq]
    refine ⟨by omega, by omega, by omega⟩

/-! ## Days that are dates -/

/-- The months counted from March, February apart, end where the next
starts. -/
theorem daysInMonth_march {mp : ℕ} (h : mp ≤ 10) (y : ℕ) :
    daysInMonth y (if mp < 10 then mp + 3 else mp - 9) =
      (153 * (mp + 1) + 2) / 5 - (153 * mp + 2) / 5 := by
  interval_cases mp <;> rfl

/-- The `doy`th day from 1 March is one of its month. -/
theorem validDate_march {doy mp y : ℕ} (hd : doy ≤ 365) (hmp : (5 * doy + 2) / 153 = mp)
    (hleap : doy = 365 → isLeapYear y) :
    ValidDate y (if mp < 10 then mp + 3 else mp - 9) (doy - (153 * mp + 2) / 5 + 1) := by
  constructor
  · split <;> omega
  · refine ⟨by omega, ?_⟩
    rcases Nat.lt_or_ge mp 11 with h | h
    · rw [daysInMonth_march (by omega)]
      omega
    · obtain rfl : mp = 11 := by omega
      show doy - 337 + 1 ≤ if isLeapYear y then 29 else 28
      by_cases h365 : doy = 365
      · rw [if_pos (hleap h365)]
        omega
      · split <;> omega

theorem validDate_dateFromDays {n : ℤ} (h : 0 ≤ (dateFromDays n).year) :
    ∃ y m d : ℕ, dateFromDays n = ⟨y, m, d⟩ ∧ ValidDate y m d := by
  obtain ⟨era, c, q, y, doy, hc, hc', hq, hq', hy, hy', hd, hd', hleap, hn, heq⟩ := dateFromDays_parts_leap n
  lift doy to ℕ using hd
  obtain ⟨mp, hmp⟩ : ∃ mp, (5 * doy + 2) / 153 = mp := ⟨_, rfl⟩
  have hmpz : (5 * (doy : ℤ) + 2) / 153 = (mp : ℕ) := by omega
  have hday : (153 * mp + 2) / 5 ≤ doy := by omega
  have hmp' : mp ≤ 11 := by omega
  rw [heq] at h ⊢
  simp only [hmpz] at h ⊢
  clear heq
  have hmonth : ((if (mp : ℤ) < 10 then (mp : ℤ) + 3 else mp - 9) : ℤ) =
      ((if mp < 10 then mp + 3 else mp - 9 : ℕ) : ℤ) := by
    rcases Nat.lt_or_ge mp 10 with h | h
    · rw [if_pos (by omega), if_pos h]
      omega
    · rw [if_neg (by omega), if_neg (by omega)]
      omega
  rw [hmonth] at h ⊢
  obtain ⟨Y, hY⟩ := Int.eq_ofNat_of_zero_le h
  refine ⟨Y, _, doy - (153 * mp + 2) / 5 + 1, ?_, validDate_march (by omega) hmp fun h365 => ?_⟩
  · rw [hY, DateOnly.mk.injEq]
    exact ⟨rfl, rfl, by omega⟩
  · obtain ⟨hy3, hcq⟩ := hleap (by omega)
    have hmp11 : mp = 11 := by omega
    subst hmp11
    have hYval : 400 * era + 100 * c + 4 * q + y + 1 = (Y : ℤ) := hY
    simp only [isLeapYear, decide_eq_true_eq]
    omega

/-! ## The texts -/

/-- A year as `toISOString` writes it: four digits, or a sign and six. -/
def yearChars (year : ℤ) : List Char :=
  if 0 ≤ year ∧ year ≤ 9999 then digits 4 year.toNat
  else (if year < 0 then '-' else '+') :: digits 6 year.natAbs

/-- The time of day, in milliseconds since midnight. -/
def clockChars (rest : ℕ) : List Char :=
  digits 2 (rest / 3600000) ++ ':' :: digits 2 (rest / 60000 % 60) ++
    ':' :: digits 2 (rest / 1000 % 60) ++ '.' :: digits 3 (rest % 1000) ++ ['Z']

/-- `new Date(ms).toISOString()`, for every instant. -/
def isoString (ms : ℤ) : String :=
  let date := dateFromDays (ms / dayMs)
  String.ofList (yearChars date.year ++ '-' :: (digits 2 date.month.toNat ++
    '-' :: (digits 2 date.day.toNat ++ 'T' :: clockChars (ms % dayMs).toNat)))

example : isoString 253402300800000 = "+010000-01-01T00:00:00.000Z" := by decide +kernel

/-- A four-digit date before what follows it. -/
def dateChars (y m d : ℕ) (rest : List Char) : List Char :=
  digits 4 y ++ '-' :: (digits 2 m ++ '-' :: (digits 2 d ++ rest))

/-- **An earlier day's text comes first.** -/
theorem dateChars_lt {y m d y' m' d' : ℕ} (h : ValidDate y m d) (h' : ValidDate y' m' d')
    (hy : y < 10000) (hy' : y' < 10000) (hlt : daysFromCivil y m d < daysFromCivil y' m' d')
    (rest rest' : List Char) : dateChars y m d rest < dateChars y' m' d' rest' := by
  have hd := daysInMonth_le y m
  have hd' := daysInMonth_le y' m'
  have hm := h.month
  have hm' := h'.month
  have hday := h.day
  have hday' := h'.day
  have hmod : y % 10 ^ 4 = y ∧ m % 10 ^ 2 = m ∧ d % 10 ^ 2 = d := by omega
  have hmod' : y' % 10 ^ 4 = y' ∧ m' % 10 ^ 2 = m' ∧ d' % 10 ^ 2 = d' := by omega
  -- the dates are not in the other order, and not the same
  have hlex : y < y' ∨ y = y' ∧ (m < m' ∨ m = m' ∧ d < d') := by
    by_contra hno
    have hge : (y' < y ∨ y' = y ∧ (m' < m ∨ m' = m ∧ d' < d)) ∨ y' = y ∧ m' = m ∧ d' = d := by
      omega
    rcases hge with hgt | ⟨rfl, rfl, rfl⟩
    · have := daysFromCivil_lt h' h hgt
      omega
    · exact lt_irrefl _ hlt
  simp only [dateChars, digits_append_lt_iff, List.cons_lt_cons_iff, true_and, Char.lt_irrefl,
    false_or, hmod.1, hmod.2.1, hmod.2.2, hmod'.1, hmod'.2.1, hmod'.2.2]
  rcases hlex with h1 | ⟨rfl, h1 | ⟨rfl, h1⟩⟩
  · exact Or.inl h1
  · exact Or.inr ⟨rfl, Or.inl h1⟩
  · exact Or.inr ⟨rfl, Or.inr ⟨rfl, Or.inl h1⟩⟩

/-! ## Texts of dates -/

/-- `String(n).padStart(4, "0")`. -/
def pad4 (n : ℤ) : List Char :=
  if 0 ≤ n ∧ n < 10000 then digits 4 n.toNat else (toString n).toList.leftpad 4 '0'

/-- The text of a date. A zone's date of a later year has five digits there;
a UTC one is cut. -/
def DateOnly.text (date : DateOnly) : List Char :=
  if date.isCut then yearChars date.year ++ '-' :: digits 2 date.month.toNat
  else
    pad4 date.year ++ '-' :: (digits 2 date.month.toNat ++ '-' :: digits 2 date.day.toNat)

/-- `a < b` on the texts. -/
def DateOnly.before (a b : DateOnly) : Bool := decide (a.text < b.text)

-- a year of five digits sorts with the years of its first four
example : DateOnly.before ⟨10000, 1, 1⟩ ⟨1001, 1, 1⟩ = true := by decide

theorem text_dateFromDays {n : ℤ} (h : FourDigitDay n) :
    ∃ y m d, y < 10000 ∧ ValidDate y m d ∧ (daysFromCivil y m d : ℤ) - epochDay = n ∧
      (dateFromDays n).text = dateChars y m d [] := by
  obtain ⟨hpos, hlt⟩ := (fourDigitDay_iff n).mp h
  have hcut := dateFromDays_isCut n
  have hnum := daysFromDate_dateFromDays n
  obtain ⟨y, m, d, heq, hvalid⟩ := validDate_dateFromDays hpos
  rw [heq] at hpos hlt hcut hnum
  simp only at hpos hlt hnum
  refine ⟨y, m, d, by omega, hvalid, ?_, ?_⟩
  · rw [← daysFromDate_civil hvalid.month.1 hvalid.month.2 hvalid.day.1]
    exact hnum
  · rw [heq, DateOnly.text, hcut, if_neg Bool.false_ne_true, pad4, if_pos ⟨hpos, hlt⟩]
    simp only [Int.toNat_natCast, dateChars, List.append_nil]

/-- **Dates of four-digit years order as their days do.** -/
theorem before_dateFromDays {m n : ℤ} (hm : FourDigitDay m) (hn : FourDigitDay n) :
    (dateFromDays m).before (dateFromDays n) = true ↔ m < n := by
  have hlt : ∀ {m n : ℤ}, FourDigitDay m → FourDigitDay n → m < n →
      (dateFromDays m).text < (dateFromDays n).text := by
    intro m n hm hn h
    obtain ⟨y, mo, d, hy, hvalid, hnum, htext⟩ := text_dateFromDays hm
    obtain ⟨y', mo', d', hy', hvalid', hnum', htext'⟩ := text_dateFromDays hn
    rw [htext, htext']
    exact dateChars_lt hvalid hvalid' hy hy' (by omega) [] []
  rw [DateOnly.before, decide_eq_true_eq]
  constructor
  · intro h
    rcases lt_trichotomy m n with hmn | rfl | hnm
    · exact hmn
    · exact absurd h (List.lt_irrefl _)
    · exact absurd (hlt hn hm hnm) (List.lt_asymm h)
  · exact hlt hm hn

/-- **A cut text comes before every date of a four-digit year.** -/
theorem isoDate_before {m n : ℤ} (hm : ¬FourDigitDay m) (hn : FourDigitDay n) :
    (isoDate m).before (dateFromDays n) = true := by
  obtain ⟨y, mo, d, -, -, -, htext⟩ := text_dateFromDays hn
  rw [fourDigitDay_iff] at hm
  have hyear : ¬(0 ≤ (dateFromDays m).year ∧ (dateFromDays m).year ≤ 9999) := by omega
  have hcut : (isoDate m).isCut = true := by
    unfold isoDate DateOnly.isCut
    rw [if_neg hm]
    simp only [decide_true, Bool.true_and, Bool.not_eq_true', Bool.and_eq_false_iff,
      decide_eq_false_iff_not]
    omega
  have hdigit : ∀ d : Fin 10, '-' < digitChar d ∧ '+' < digitChar d := by decide
  have hlt := hdigit ⟨_, digit_lt 3 y⟩
  rw [DateOnly.before, decide_eq_true_eq, htext, DateOnly.text, if_pos hcut, yearChars,
    isoDate_year, if_neg hyear]
  refine List.cons_lt_cons_iff.mpr (Or.inl ?_)
  split
  · exact hlt.1
  · exact hlt.2

/-- 1 January 10000. -/
def year10000Ms : ℤ := 253402300800000

/-- The text of an instant of the years 0 to 9999. -/
theorem isoString_chars {ms : ℤ} (h0 : -719528 * dayMs ≤ ms) (h1 : ms < year10000Ms) :
    ∃ y m d, y < 10000 ∧ ValidDate y m d ∧ (daysFromCivil y m d : ℤ) - epochDay = ms / dayMs ∧
      (isoString ms).toList = dateChars y m d ('T' :: clockChars (ms % dayMs).toNat) := by
  have hmono : -719528 ≤ ms / dayMs ∧ ms / dayMs < 2932897 := by
    unfold dayMs year10000Ms at *
    omega
  have hpos := (year_nonneg_iff (ms / dayMs)).mpr hmono.1
  have hbound := (year_lt_tenThousand_iff (ms / dayMs)).mpr hmono.2
  obtain ⟨y, m, d, heq, hvalid⟩ := validDate_dateFromDays hpos
  rw [heq] at hpos hbound
  simp only at hpos hbound
  refine ⟨y, m, d, by omega, hvalid, ?_, ?_⟩
  · have hnum := daysFromDate_dateFromDays (ms / dayMs)
    rw [heq] at hnum
    rw [← daysFromDate_civil hvalid.month.1 hvalid.month.2 hvalid.day.1]
    exact hnum
  · have hyear : yearChars (y : ℤ) = digits 4 y := if_pos ⟨by omega, by omega⟩
    unfold isoString
    rw [String.toList_ofList, heq]
    simp only [hyear, Int.toNat_natCast]
    rfl

/-- Before year 0 the text starts with a sign, and so it does from year
10000 on. -/
theorem isoString_sign {ms : ℤ} (h : ms < -719528 * dayMs ∨ year10000Ms ≤ ms) :
    ∃ c cs, (isoString ms).toList = c :: cs ∧ (c = '-' ∨ c = '+') := by
  have hyear : ¬ (0 ≤ (dateFromDays (ms / dayMs)).year ∧
      (dateFromDays (ms / dayMs)).year ≤ 9999) := by
    rintro ⟨hpos, hle⟩
    have hlo := (year_nonneg_iff (ms / dayMs)).mp hpos
    have hhi := (year_lt_tenThousand_iff (ms / dayMs)).mp (by omega)
    unfold dayMs year10000Ms at *
    omega
  unfold isoString yearChars
  rw [String.toList_ofList, if_neg hyear]
  refine ⟨_, _, rfl, ?_⟩
  split
  · exact Or.inl rfl
  · exact Or.inr rfl

/-- Within the four-digit years it is `toISOString`. -/
theorem isoString_eq_toISOString {ms : ℤ} (h0 : -719528 * dayMs ≤ ms) (h1 : ms < year10000Ms) :
    isoString ms = toISOString ms := by
  have hday : ms / dayMs = ((ms / 86400000 + epochDay).toNat : ℤ) - epochDay := by
    have hepoch : ((epochDay : ℕ) : ℤ) = 719528 := rfl
    rw [hepoch]
    unfold dayMs at *
    omega
  have hyear : 0 ≤ (dateFromDays (ms / dayMs)).year ∧ (dateFromDays (ms / dayMs)).year ≤ 9999 := by
    have hmono : -719528 ≤ ms / dayMs ∧ ms / dayMs < 2932897 := by
      unfold dayMs year10000Ms at *
      omega
    have hpos := (year_nonneg_iff (ms / dayMs)).mpr hmono.1
    have hbound := (year_lt_tenThousand_iff (ms / dayMs)).mpr hmono.2
    exact ⟨hpos, by omega⟩
  have hchars : yearChars (dateFromDays (ms / dayMs)).year =
      digits 4 (dateFromDays (ms / dayMs)).year.toNat := if_pos hyear
  unfold isoString toISOString
  simp only [hchars]
  rw [hday, dateFromDays_civil, show dayMs = 86400000 from rfl]
  rcases civilFromDays (ms / 86400000 + epochDay).toNat with ⟨y, m, d⟩
  simp only [Int.toNat_natCast, clockChars, List.append_assoc, List.cons_append]

/-! ## Timestamps as providers write them -/

/-- A timestamp with a four-digit year, a fraction of any width and an
offset of at most fourteen hours. The digits behind the milliseconds are
`further`. -/
structure IsoTimestamp where
  stamp : Stamp
  further : List ℕ
  furtherDigits : ∀ d ∈ further, d < 10
  behindMillis : further ≠ [] → ∃ v, stamp.fraction = some (3, v)
  within : -(14 * 60) ≤ stamp.offset.minutes ∧ stamp.offset.minutes ≤ 14 * 60

namespace IsoTimestamp

/-- The time's text. -/
def text (t : IsoTimestamp) : String :=
  String.ofList (t.stamp.headChars (Stamp.fractionChars t.stamp.fraction ++
    (t.further.map digitChar ++ t.stamp.offset.chars)))

/-- The instant, to the millisecond. -/
def instant (t : IsoTimestamp) : ℤ := t.stamp.instant

/-- Digits behind the milliseconds are dropped. -/
theorem takeFraction_further {further : List ℕ} (h : ∀ d ∈ further, d < 10) (acc : ℕ) {c : Char}
    (cs : List Char) (hc : c.isDigit = false) :
    takeFraction 0 acc (further.map digitChar ++ c :: cs) = (acc, c :: cs) := by
  induction further with
  | nil => simp [takeFraction, hc]
  | cons d further ih =>
    obtain ⟨hd, hrest⟩ := List.forall_mem_cons.mp h
    rw [List.map_cons, List.cons_append, takeFraction, if_pos (isDigit_digitChar hd)]
    exact ih hrest

/-- A full count of millisecond digits. -/
theorem takeFraction_full (n acc v : ℕ) (r : List Char) :
    takeFraction n acc (digits n v ++ r) = takeFraction 0 (acc * 10 ^ n + v % 10 ^ n) r := by
  induction n generalizing acc with
  | zero => simp [digits, Nat.mod_one]
  | succ n ih =>
    rw [digits, List.cons_append, takeFraction, if_pos (isDigit_digitChar (digit_lt n v)), ih,
      digitVal_digitChar (digit_lt n v), Nat.mod_pow_succ]
    congr 1
    ring

theorem parseFraction_chars (t : IsoTimestamp) :
    parseFraction (Stamp.fractionChars t.stamp.fraction ++
      (t.further.map digitChar ++ t.stamp.offset.chars)) =
      some (Stamp.fractionMs t.stamp.fraction, t.stamp.offset.chars) := by
  by_cases hfurther : t.further = []
  · rw [hfurther]
    exact Stamp.parseFraction_chars t.stamp
  · obtain ⟨v, hv⟩ := t.behindMillis hfurther
    obtain ⟨-, -, hlt⟩ := t.stamp.fractionDigits (3, v) hv
    obtain ⟨c, cs, hchars, hdigit, -⟩ := Stamp.offset_chars t.stamp.offset
    have hread : takeFraction 3 0 (digits 3 v ++ (t.further.map digitChar ++ c :: cs)) =
        (v, c :: cs) := by
      rw [takeFraction_full, takeFraction_further t.furtherDigits _ cs hdigit, Nat.zero_mul,
        Nat.zero_add, Nat.mod_eq_of_lt hlt]
    rw [hv, hchars]
    simp only [Stamp.fractionChars, Stamp.fractionMs, digits, List.cons_append] at hread ⊢
    rw [parseFraction, if_pos (isDigit_digitChar (digit_lt 2 v)), hread, Nat.sub_self, pow_zero,
      Nat.mul_one]

theorem dateParse_text (t : IsoTimestamp) : dateParse t.text = some t.instant := by
  rw [dateParse, text, String.toList_ofList]
  exact Stamp.parseIso_headChars t.stamp t.parseFraction_chars

/-- The date of the text is within fourteen hours of the instant. -/
theorem day_near (t : IsoTimestamp) :
    ((daysFromCivil t.stamp.year t.stamp.month t.stamp.day : ℤ) - epochDay) * dayMs - 50400000 ≤
        t.instant ∧
      t.instant < ((daysFromCivil t.stamp.year t.stamp.month t.stamp.day : ℤ) - epochDay + 1) *
        dayMs + 50400000 := by
  obtain ⟨hlo, hhi⟩ := t.within
  obtain ⟨hh, hm, hs⟩ := t.stamp.time
  have hms := Stamp.fractionMs_lt t.stamp
  unfold instant Stamp.instant instantOf dayMs
  generalize daysFromCivil t.stamp.year t.stamp.month t.stamp.day = days
  generalize t.stamp.offset.minutes = offset at *
  generalize Stamp.fractionMs t.stamp.fraction = ms at *
  constructor <;> omega

/-- The text starts with the date. -/
theorem text_chars (t : IsoTimestamp) : ∃ rest,
    t.text.toList = dateChars t.stamp.year t.stamp.month t.stamp.day rest := by
  rw [text, String.toList_ofList]
  exact ⟨_, rfl⟩

/-- A sign sorts before every date. -/
theorem sign_lt_text (t : IsoTimestamp) {c : Char} {cs : List Char} (h : c = '-' ∨ c = '+') :
    c :: cs < t.text.toList := by
  obtain ⟨rest, hrest⟩ := t.text_chars
  rw [hrest]
  have hdigit : ∀ d : Fin 10, '-' < digitChar d ∧ '+' < digitChar d := by decide
  have hlt := hdigit ⟨_, digit_lt 3 t.stamp.year⟩
  refine List.cons_lt_cons_iff.mpr (Or.inl ?_)
  rcases h with rfl | rfl
  · exact hlt.1
  · exact hlt.2

/-- **The text of an instant two days before comes first.** -/
theorem isoString_lt_text (t : IsoTimestamp) {ms : ℤ} (h : ms + 2 * dayMs ≤ t.instant)
    (hyear : ms < year10000Ms) : isoString ms < t.text := by
  show (isoString ms).toList < t.text.toList
  rcases lt_or_ge ms (-719528 * dayMs) with hneg | hpos
  · obtain ⟨c, cs, hchars, hsign⟩ := isoString_sign (Or.inl hneg)
    rw [hchars]
    exact t.sign_lt_text hsign
  · obtain ⟨y, m, d, hy, hvalid, hnum, hchars⟩ := isoString_chars hpos hyear
    obtain ⟨rest, hrest⟩ := t.text_chars
    have hnear := t.day_near
    rw [hchars, hrest]
    refine dateChars_lt hvalid t.stamp.date.2 hy t.stamp.date.1 ?_ _ _
    unfold dayMs at *
    omega

/-- **The text of an instant two days later comes behind**, if its year has
four digits. -/
theorem text_lt_isoString (t : IsoTimestamp) {ms : ℤ} (h : t.instant + 2 * dayMs ≤ ms)
    (hyear : ms < year10000Ms) : t.text < isoString ms := by
  show t.text.toList < (isoString ms).toList
  have hnear := t.day_near
  have hepoch : ((epochDay : ℕ) : ℤ) = 719528 := rfl
  have hpos : -719528 * dayMs ≤ ms := by
    unfold dayMs at *
    omega
  obtain ⟨y, m, d, hy, hvalid, hnum, hchars⟩ := isoString_chars hpos hyear
  obtain ⟨rest, hrest⟩ := t.text_chars
  rw [hchars, hrest]
  refine dateChars_lt t.stamp.date.2 hvalid t.stamp.date.1 hy ?_ _ _
  unfold dayMs at *
  omega

/-- From year 10000 on, the text comes before every one of a four-digit
year. -/
theorem isoString_lt_text_of_year (t : IsoTimestamp) {ms : ℤ} (h : year10000Ms ≤ ms) :
    isoString ms < t.text := by
  show (isoString ms).toList < t.text.toList
  obtain ⟨c, cs, hchars, hsign⟩ := isoString_sign (Or.inr h)
  rw [hchars]
  exact t.sign_lt_text hsign

end IsoTimestamp

end SymphonyBoard
