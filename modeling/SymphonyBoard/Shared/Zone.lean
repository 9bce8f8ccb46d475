import SymphonyBoard.Common.Crossing
import SymphonyBoard.Shared.Calendar
/-!
# Days of a time zone

The calendar helpers of `shared/time.ts`. An instant is a number of
milliseconds since the epoch and stands for its ISO text too. A zone is the
UTC offset its formatter reports, a step function of the instant. Where a
date has no day to read, the helpers throw: the result is `none`.

The start of a day is found from two offsets, the second read at the
instant the first one leads to. `ClearDay.crossesAt_start` says when that
instant is where the zone's clock passes midnight.
-/

namespace SymphonyBoard

/-- A time zone: its UTC offset, which changes at finitely many
transitions, by less than a day. -/
structure Zone where
  offset : ℤ → ℤ
  transitions : List ℤ
  constant : ∀ ms, ms ∉ transitions → offset ms = offset (ms - 1)
  small : ∀ ms, offset ms < offset (ms - 1) + dayMs ∧ offset (ms - 1) < offset ms + dayMs
  bounded : ∀ ms, -dayMs < offset ms ∧ offset ms < dayMs

/-- What the zone's clock shows, read as if it were UTC. -/
def Zone.clock (z : Zone) (ms : ℤ) : ℤ := ms + z.offset ms

/-- The literal `"UTC"` has branches of its own. -/
inductive Tz where
  | utc
  | zone (z : Zone)

/-- The fields of a wall clock. -/
structure WallClock where
  year : ℤ
  month : ℤ
  day : ℤ
  hour : ℤ
  minute : ℤ
  second : ℤ
deriving DecidableEq, Repr

/-- The wall-clock fields the formatter reports. -/
def wallClockOf (ms : ℤ) (z : Zone) : WallClock :=
  let date := dateFromDays (z.clock ms / dayMs)
  let second := z.clock ms % dayMs / 1000
  { year := date.year, month := date.month, day := date.day
    hour := second / 3600, minute := second / 60 % 60, second := second % 60 }

/-- `Date.UTC`: months count from 0 and run on into years, and a year from
0 to 99 is taken for one of the 1900s. -/
def dateUTC (year monthIndex day hour minute second ms : ℤ) : ℤ :=
  let year := if 0 ≤ year ∧ year ≤ 99 then 1900 + year else year
  daysFromDate (year + monthIndex / 12) (monthIndex % 12 + 1) day * dayMs +
    hour * 3600000 + minute * 60000 + second * 1000 + ms

/-- The UTC offset, from the wall clock read as if it were UTC. -/
def offsetMsAt (ms : ℤ) (z : Zone) : ℤ :=
  let wc := wallClockOf ms z
  dateUTC wc.year (wc.month - 1) wc.day wc.hour wc.minute wc.second 0 - ms / 1000 * 1000

/-- The instant of a wall clock: one offset lookup, refined once. -/
def zonedWallToInstantMs (year month day hour minute second ms : ℤ) (z : Zone) : ℤ :=
  let guess := dateUTC year (month - 1) day hour minute second ms
  let off := offsetMsAt guess z
  let instant := guess - off
  let off2 := offsetMsAt instant z
  if off2 = off then instant else guess - off2

/-- The calendar date of an instant. -/
def zonedDateOnly (ms : ℤ) : Tz → DateOnly
  | .utc => isoDate (ms / dayMs)
  | .zone z =>
    let wc := wallClockOf ms z
    ⟨wc.year, wc.month, wc.day⟩

/-- `getUTCDay` of a day: 0 is Sunday, and 1 January 1970 was a Thursday. -/
def weekdayOfDays (n : ℤ) : ℤ := (n + 4) % 7

/-- The weekday of an instant's calendar date. -/
def zonedWeekday (ms : ℤ) : Tz → ℤ
  | .utc => weekdayOfDays (ms / dayMs)
  | .zone z =>
    let wc := wallClockOf ms z
    weekdayOfDays (dateUTC wc.year (wc.month - 1) wc.day 0 0 0 0 / dayMs)

/-- The hour of day of an instant. -/
def zonedHour (ms : ℤ) : Tz → ℤ
  | .utc => ms % dayMs / 3600000
  | .zone z => (wallClockOf ms z).hour

/-- The day of a date whose text the UTC branches carry on: cut after the
month, it reads as the first. -/
def utcDay (date : DateOnly) : ℤ :=
  daysFromDate date.year date.month (if date.isCut then 1 else date.day)

/-- The instant local day `date` starts. The UTC branch writes the text of
its first millisecond. -/
def zonedDayStartIso (date : DateOnly) : Tz → Option ℤ
  | .utc => some (utcDay date * dayMs)
  | .zone z => date.numbers.map fun d => zonedWallToInstantMs d.year d.month d.day 0 0 0 0 z

/-- The last instant of local day `date`. -/
def zonedDayEndIso (date : DateOnly) : Tz → Option ℤ
  | .utc => some (utcDay date * dayMs + (dayMs - 1))
  | .zone z => date.numbers.map fun d => zonedWallToInstantMs d.year d.month d.day 23 59 59 999 z

/-- The date some days on from one read as numbers, by way of `Date.UTC`. -/
def shiftNumbers (d : DateOnly) (deltaDays : ℤ) : DateOnly :=
  isoDate (dateUTC d.year (d.month - 1) (d.day + deltaDays) 0 0 0 0 / dayMs)

/-- `shiftDateOnly`: the day so many days later; `none` where the text has no day. -/
def shiftDateOnly (date : DateOnly) (deltaDays : ℤ) : Option DateOnly :=
  date.numbers.map fun d => shiftNumbers d deltaDays

-- the last day a text gives in full has no next one outside UTC
example : shiftDateOnly ⟨9999, 12, 31⟩ 1 = some ⟨10000, 1, 0⟩ := by decide

/-! ## Dates and clocks -/

/-- What the clock of either kind of zone shows. -/
def Tz.clock : Tz → ℤ → ℤ
  | .utc, ms => ms
  | .zone z, ms => z.clock ms

theorem zonedDateOnly_eq {ms : ℤ} {tz : Tz} (h : FourDigitDay (tz.clock ms / dayMs)) :
    zonedDateOnly ms tz = dateFromDays (tz.clock ms / dayMs) := by
  cases tz with
  | utc => exact isoDate_eq h
  | zone z => rfl

theorem zonedHour_range (ms : ℤ) (tz : Tz) : 0 ≤ zonedHour ms tz ∧ zonedHour ms tz < 24 := by
  cases tz with
  | utc =>
    simp only [zonedHour, dayMs]
    omega
  | zone z =>
    simp only [zonedHour, wallClockOf, dayMs]
    omega

theorem zonedDateOnly_eq_iff {ms n : ℤ} {tz : Tz} (h : FourDigitDay n) :
    zonedDateOnly ms tz = dateFromDays n ↔
      n * dayMs ≤ tz.clock ms ∧ tz.clock ms < (n + 1) * dayMs := by
  have hday : zonedDateOnly ms tz = dateFromDays n ↔ tz.clock ms / dayMs = n := by
    cases tz with
    | utc => exact isoDate_eq_iff.trans (and_iff_left h)
    | zone z => exact dateFromDays_inj
  rw [hday]
  unfold dayMs
  omega

/-- A date of a day number is that of the clock. -/
theorem zonedDateOnly_day {ms n : ℤ} {tz : Tz} (h : zonedDateOnly ms tz = dateFromDays n) :
    n ≤ tz.clock ms / dayMs := by
  cases tz with
  | utc => exact (isoDate_eq_iff.mp h).1.ge
  | zone z => exact (dateFromDays_injective h).ge

/-- A clock of less than a day's offset, which moves by less than a day at
a tick, steps over no day. -/
theorem Tz.noStepOver (tz : Tz) (n : ℤ) :
    NoStepOver tz.clock (n * dayMs) ((n + 1) * dayMs) := by
  intro t
  cases tz with
  | utc =>
    simp only [Tz.clock, dayMs]
    omega
  | zone z =>
    have hsmall := z.small t
    simp only [Tz.clock, Zone.clock, dayMs] at hsmall ⊢
    omega

theorem Tz.clock_bounds (tz : Tz) (t : ℤ) : t - dayMs < tz.clock t ∧ tz.clock t < t + dayMs := by
  cases tz with
  | utc =>
    simp only [Tz.clock, dayMs]
    omega
  | zone z =>
    have hbounded := z.bounded t
    simp only [Tz.clock, Zone.clock]
    omega

/-- **The instants between two marks are a day's just when the clock passes
the day's two midnights at the marks.** -/
theorem between_iff_midnights {tz : Tz} {n s s' : ℤ} (h : FourDigitDay n) :
    (∀ t, s ≤ t ∧ t < s' ↔ zonedDateOnly t tz = dateFromDays n) ↔
      CrossesAt tz.clock (n * dayMs) s ∧ CrossesAt tz.clock ((n + 1) * dayMs) s' := by
  have hgg : n * dayMs ≤ (n + 1) * dayMs := by
    unfold dayMs
    omega
  have hlo : ∀ t, t ≤ (n - 1) * dayMs → tz.clock t < n * dayMs := by
    intro t ht
    have := tz.clock_bounds t
    unfold dayMs at *
    omega
  have hhi : ∀ t, (n + 2) * dayMs ≤ t → (n + 1) * dayMs ≤ tz.clock t := by
    intro t ht
    have := tz.clock_bounds t
    unfold dayMs at *
    omega
  simp only [zonedDateOnly_eq_iff h]
  exact between_iff_crossesAt (tz.noStepOver n) hgg hlo hhi

/-- Every day comes, within a day of its UTC one. -/
theorem Tz.exists_day (tz : Tz) {n : ℤ} (h : FourDigitDay n) :
    ∃ t, zonedDateOnly t tz = dateFromDays n ∧ t ≤ (n + 2) * dayMs := by
  have hlo := tz.clock_bounds ((n - 1) * dayMs)
  have hhi := tz.clock_bounds ((n + 2) * dayMs)
  have hgg : n * dayMs ≤ (n + 1) * dayMs := by
    unfold dayMs
    omega
  have hbelow : tz.clock ((n - 1) * dayMs) < n * dayMs := by
    unfold dayMs at *
    omega
  have habove : (n + 1) * dayMs ≤ tz.clock ((n + 2) * dayMs) := by
    unfold dayMs at *
    omega
  obtain ⟨t, -, hle, ht⟩ := (tz.noStepOver n).exists_between hgg hbelow habove
    (by unfold dayMs; omega)
  exact ⟨t, (zonedDateOnly_eq_iff h).mpr ht, hle⟩

/-! ## `Date.UTC` on the dates of day numbers -/

/-- Dates of the years 0 to 99, which `Date.UTC` moves to the 1900s. -/
theorem dateUTC_early {n : ℤ} (h0 : 0 ≤ (dateFromDays n).year) (h : (dateFromDays n).year < 100)
    (extra hour minute second ms : ℤ) :
    let instant := dateUTC (dateFromDays n).year ((dateFromDays n).month - 1)
      ((dateFromDays n).day + extra) hour minute second ms
    let clock := hour * 3600000 + minute * 60000 + second * 1000 + ms
    (n + extra + 693500) * dayMs + clock ≤ instant ∧
      instant ≤ (n + extra + 694500) * dayMs + clock := by
  have hmonth := dateFromDays_month n
  have hnum := daysFromDate_dateFromDays n
  have hlater := daysFromDate_add_1900 (dateFromDays n).year (dateFromDays n).month
    ((dateFromDays n).day + extra)
  have hday := daysFromDate_day (dateFromDays n).year (dateFromDays n).month
    ((dateFromDays n).day + extra)
  have hday' := daysFromDate_day (dateFromDays n).year (dateFromDays n).month (dateFromDays n).day
  intro instant clock
  simp only [instant, clock]
  unfold dateUTC
  simp only
  rw [if_pos ⟨h0, by omega⟩]
  have hdiv : ((dateFromDays n).month - 1) / 12 = 0 := by omega
  have hmod : ((dateFromDays n).month - 1) % 12 + 1 = (dateFromDays n).month := by omega
  rw [hdiv, hmod, Int.add_zero]
  unfold dayMs
  omega

/-- Any other date is read as it stands. -/
theorem dateUTC_dateFromDays {n : ℤ} (h : ¬(0 ≤ (dateFromDays n).year ∧ (dateFromDays n).year ≤ 99))
    (extra hour minute second ms : ℤ) :
    dateUTC (dateFromDays n).year ((dateFromDays n).month - 1) ((dateFromDays n).day + extra)
        hour minute second ms =
      (n + extra) * dayMs + (hour * 3600000 + minute * 60000 + second * 1000 + ms) := by
  have hmonth := dateFromDays_month n
  have hnum := daysFromDate_dateFromDays n
  have hday := daysFromDate_day (dateFromDays n).year (dateFromDays n).month
    ((dateFromDays n).day + extra)
  have hday' := daysFromDate_day (dateFromDays n).year (dateFromDays n).month (dateFromDays n).day
  unfold dateUTC
  simp only
  rw [if_neg h]
  have hdiv : ((dateFromDays n).month - 1) / 12 = 0 := by omega
  have hmod : ((dateFromDays n).month - 1) % 12 + 1 = (dateFromDays n).month := by omega
  rw [hdiv, hmod, Int.add_zero]
  unfold dayMs
  omega

theorem shiftNumbers_dateFromDays {n : ℤ} (h : 100 ≤ (dateFromDays n).year) (deltaDays : ℤ) :
    shiftNumbers (dateFromDays n) deltaDays = isoDate (n + deltaDays) := by
  unfold shiftNumbers
  rw [dateUTC_dateFromDays (by omega)]
  congr 1
  unfold dayMs
  omega

theorem shiftDateOnly_dateFromDays {n : ℤ} (h : 100 ≤ (dateFromDays n).year) (deltaDays : ℤ) :
    shiftDateOnly (dateFromDays n) deltaDays = some (isoDate (n + deltaDays)) := by
  rw [shiftDateOnly, numbers_dateFromDays, Option.map_some, shiftNumbers_dateFromDays h]

/-- The offset is reported to the second, where the clock's year is one
`Date.UTC` takes as it stands. -/
theorem offsetMsAt_of_late {ms : ℤ} {z : Zone} (h : -683003 * dayMs ≤ z.clock ms) :
    offsetMsAt ms z = z.clock ms / 1000 * 1000 - ms / 1000 * 1000 := by
  have hyear : 100 ≤ (dateFromDays (z.clock ms / dayMs)).year := by
    by_contra hn
    have := (year_lt_hundred_iff (z.clock ms / dayMs)).mp (by omega)
    unfold dayMs at h this
    omega
  have hutc := dateUTC_dateFromDays (n := z.clock ms / dayMs) (by omega) 0
    (z.clock ms % dayMs / 1000 / 3600) (z.clock ms % dayMs / 1000 / 60 % 60)
    (z.clock ms % dayMs / 1000 % 60) 0
  unfold offsetMsAt wallClockOf
  simp only [Int.add_zero] at hutc ⊢
  rw [hutc]
  unfold dayMs
  omega

/-! ## Where a day starts and ends -/

/-- The offset the refined lookup settles on: the one reported at the
instant that the offset reported at the guess leads to. -/
def settledOffset (guess : ℤ) (z : Zone) : ℤ := offsetMsAt (guess - offsetMsAt guess z) z

theorem zonedWallToInstantMs_eq (year month day hour minute second ms : ℤ) (z : Zone) :
    zonedWallToInstantMs year month day hour minute second ms z =
      dateUTC year (month - 1) day hour minute second ms -
        settledOffset (dateUTC year (month - 1) day hour minute second ms) z := by
  unfold zonedWallToInstantMs settledOffset
  simp only
  by_cases h : offsetMsAt (dateUTC year (month - 1) day hour minute second ms -
      offsetMsAt (dateUTC year (month - 1) day hour minute second ms) z) z =
        offsetMsAt (dateUTC year (month - 1) day hour minute second ms) z
  · rw [if_pos h, h]
  · rw [if_neg h]

/-- A midnight of the zone, written as if it were UTC, that the lookup
finds: the clock never goes back over it, and the offset settled on is the
one in force there, or lies between those before and after a leap over it. -/
def ClearMidnight (z : Zone) (midnight guess : ℤ) : Prop :=
  CrossesOnce z.clock midnight ∧
    z.offset (midnight - settledOffset guess z - 1) ≤ settledOffset guess z ∧
      settledOffset guess z ≤ z.offset (midnight - settledOffset guess z)

theorem clearMidnight_iff {z : Zone} {midnight guess : ℤ} :
    ClearMidnight z midnight guess ↔
      CrossesAt z.clock midnight (midnight - settledOffset guess z) := by
  rw [crossesAt_iff]
  unfold ClearMidnight Zone.clock
  refine and_congr_right fun _ => and_congr ?_ ?_
  · omega
  · omega

/-- **A midnight with no transition about it is clear**, after the years
that `Date.UTC` moves. -/
theorem clearMidnight_of_constant {z : Zone} {midnight guess o : ℤ}
    (hlate : -683000 * dayMs ≤ midnight) (hguess : guess = midnight ∨ guess = midnight - 1)
    (hmidnight : midnight % 1000 = 0) (hsecond : o % 1000 = 0)
    (hconst : ∀ t, midnight - 2 * dayMs ≤ t → t ≤ midnight + 2 * dayMs → z.offset t = o) :
    ClearMidnight z midnight guess := by
  have hday : dayMs = 86400000 := rfl
  have ho := z.bounded midnight
  rw [hconst midnight (by omega) (by omega)] at ho
  have hreported : ∀ t, midnight - dayMs - 1 ≤ t → t ≤ midnight + dayMs → offsetMsAt t z = o := by
    intro t ht ht'
    have hclock : z.clock t = t + o := congrArg (t + ·) (hconst t (by omega) (by omega))
    rw [offsetMsAt_of_late (by rw [hclock]; omega), hclock]
    omega
  have hsettled : settledOffset guess z = o := by
    unfold settledOffset
    rw [hreported guess (by omega) (by omega)]
    exact hreported (guess - o) (by omega) (by omega)
  refine ⟨?_, ?_, ?_⟩
  · intro t t' htt hm
    have hbefore := z.bounded t
    have hafter := z.bounded t'
    unfold Zone.clock at hm ⊢
    by_cases hfar : midnight + 2 * dayMs < t'
    · omega
    · rw [hconst t (by omega) (by omega)] at hm
      rw [hconst t' (by omega) (by omega)]
      omega
  · rw [hsettled, hconst _ (by omega) (by omega)]
  · rw [hsettled, hconst _ (by omega) (by omega)]

/-- The instant the lookups put the start of a day at. -/
def dayStart (tz : Tz) (n : ℤ) : ℤ :=
  match tz with
  | .utc => n * dayMs
  | .zone z => n * dayMs - settledOffset (n * dayMs) z

/-- The instant they put its end at. -/
def dayEnd (tz : Tz) (n : ℤ) : ℤ :=
  match tz with
  | .utc => (n + 1) * dayMs - 1
  | .zone z => (n + 1) * dayMs - 1 - settledOffset ((n + 1) * dayMs - 1) z

/-- The days whose start, end and next start the lookups find. Outside UTC
the next day has to be one the code can read. -/
def ClearDay (tz : Tz) (n : ℤ) : Prop :=
  100 ≤ (dateFromDays n).year ∧
    match tz with
    | .utc => True
    | .zone z =>
      (dateFromDays (n + 1)).year < 10000 ∧
        ClearMidnight z (n * dayMs) (n * dayMs) ∧
          ClearMidnight z ((n + 1) * dayMs) ((n + 1) * dayMs) ∧
            ClearMidnight z ((n + 1) * dayMs) ((n + 1) * dayMs - 1)

variable {tz : Tz} {n : ℤ}

theorem utcDay_dateFromDays (n : ℤ) : utcDay (dateFromDays n) = n := by
  unfold utcDay
  rw [dateFromDays_isCut, if_neg Bool.false_ne_true, daysFromDate_dateFromDays]

theorem zonedDayStartIso_dateFromDays (tz : Tz) (h : 100 ≤ (dateFromDays n).year) :
    zonedDayStartIso (dateFromDays n) tz = some (dayStart tz n) := by
  cases tz with
  | utc => simp only [zonedDayStartIso, utcDay_dateFromDays, dayStart]
  | zone z =>
    have hguess := dateUTC_dateFromDays (n := n) (by omega) 0 0 0 0 0
    simp only [Int.add_zero, Int.zero_mul] at hguess
    simp only [zonedDayStartIso, numbers_dateFromDays, Option.map_some, zonedWallToInstantMs_eq,
      dayStart]
    rw [hguess]

theorem zonedDayEndIso_dateFromDays (tz : Tz) (h : 100 ≤ (dateFromDays n).year) :
    zonedDayEndIso (dateFromDays n) tz = some (dayEnd tz n) := by
  have hlast : n * dayMs + (dayMs - 1) = (n + 1) * dayMs - 1 := by
    unfold dayMs
    omega
  cases tz with
  | utc => simp only [zonedDayEndIso, utcDay_dateFromDays, dayEnd, hlast]
  | zone z =>
    have hguess := dateUTC_dateFromDays (n := n) (by omega) 0 23 59 59 999
    rw [show n + 0 = n by omega, show (23 * 3600000 + 59 * 60000 + 59 * 1000 + 999 : ℤ) = dayMs - 1
      from rfl, hlast, Int.add_zero] at hguess
    simp only [zonedDayEndIso, numbers_dateFromDays, Option.map_some, zonedWallToInstantMs_eq,
      dayEnd]
    rw [hguess]

/-- The next date's day number. -/
theorem year_succ (h : 100 ≤ (dateFromDays n).year) : 100 ≤ (dateFromDays (n + 1)).year := by
  have hn := year_lt_hundred_iff n
  have hn' := year_lt_hundred_iff (n + 1)
  omega

/-- The date after one of a four-digit year reads back, in UTC, and
elsewhere if its year has four digits too. -/
theorem zonedDayStartIso_next (hn : FourDigitDay n) (h : 100 ≤ (dateFromDays n).year)
    (hnext : tz = .utc ∨ (dateFromDays (n + 1)).year < 10000) :
    zonedDayStartIso (isoDate (n + 1)) tz = some (dayStart tz (n + 1)) := by
  by_cases hfour : FourDigitDay (n + 1)
  · rw [isoDate_eq hfour, zonedDayStartIso_dateFromDays tz (year_succ h)]
  · have hlt := year_lt_tenThousand_iff (n + 1)
    obtain rfl : n = 2932896 := by
      unfold FourDigitDay at hn hfour
      omega
    rcases hnext with rfl | hyear
    · rfl
    · exact absurd hyear (by decide)

/-- The start of the code's next date. -/
def nextDayStart (tz : Tz) (n : ℤ) : Option ℤ :=
  (shiftDateOnly (dateFromDays n) 1).bind (zonedDayStartIso · tz)

theorem ClearDay.nextDayStart_eq (h : ClearDay tz n) (hn : FourDigitDay n) :
    nextDayStart tz n = some (dayStart tz (n + 1)) := by
  unfold nextDayStart
  rw [shiftDateOnly_dateFromDays h.1, Option.bind_some]
  refine zonedDayStartIso_next hn h.1 ?_
  cases tz with
  | utc => exact Or.inl rfl
  | zone z => exact Or.inr h.2.1

/-- **A clear day's start is where its clock passes midnight**, and so is
the next day's. -/
theorem ClearDay.crossesAt_start (h : ClearDay tz n) :
    CrossesAt tz.clock (n * dayMs) (dayStart tz n) ∧
      CrossesAt tz.clock ((n + 1) * dayMs) (dayStart tz (n + 1)) := by
  cases tz with
  | utc => exact ⟨fun t => Iff.rfl, fun t => Iff.rfl⟩
  | zone z => exact ⟨clearMidnight_iff.mp h.2.2.1, clearMidnight_iff.mp h.2.2.2.1⟩

/-- Its end is the instant before the clock passes the next midnight. -/
theorem ClearDay.crossesAt_end (h : ClearDay tz n) :
    CrossesAt tz.clock ((n + 1) * dayMs) (dayEnd tz n + 1) := by
  cases tz with
  | utc =>
    intro t
    simp only [Tz.clock, dayEnd, dayMs]
    omega
  | zone z =>
    have hend := clearMidnight_iff.mp h.2.2.2.2
    rwa [dayEnd, show (n + 1) * dayMs - 1 - settledOffset ((n + 1) * dayMs - 1) z + 1 =
      (n + 1) * dayMs - settledOffset ((n + 1) * dayMs - 1) z by omega]

/-- The day starts where its date does, and the code's next date where it
ends. -/
def StartsPartition (tz : Tz) (n : ℤ) : Prop :=
  ∃ start ∈ zonedDayStartIso (dateFromDays n) tz, ∃ next ∈ nextDayStart tz n,
    ∀ t, start ≤ t ∧ t < next ↔ zonedDateOnly t tz = dateFromDays n

/-- From the day's start through its end is the day. -/
def DayExpands (tz : Tz) (n : ℤ) : Prop :=
  ∃ start ∈ zonedDayStartIso (dateFromDays n) tz, ∃ last ∈ zonedDayEndIso (dateFromDays n) tz,
    ∀ t, start ≤ t ∧ t ≤ last ↔ zonedDateOnly t tz = dateFromDays n

theorem ClearDay.startsPartition (h : ClearDay tz n) (hn : FourDigitDay n) :
    StartsPartition tz n :=
  ⟨_, zonedDayStartIso_dateFromDays tz h.1, _, h.nextDayStart_eq hn,
    (between_iff_midnights hn).mpr h.crossesAt_start⟩

theorem ClearDay.dayExpands (h : ClearDay tz n) (hn : FourDigitDay n) : DayExpands tz n := by
  have hbetween := (between_iff_midnights hn).mpr ⟨h.crossesAt_start.1, h.crossesAt_end⟩
  refine ⟨_, zonedDayStartIso_dateFromDays tz h.1, _, zonedDayEndIso_dateFromDays tz h.1, ?_⟩
  intro t
  rw [← hbetween t]
  omega

/-- In the years 0 to 99 a day's start, or the next one's, is in the
1900s. -/
theorem not_startsPartition_of_early (hn : FourDigitDay n) (h : (dateFromDays n).year < 100) :
    ¬StartsPartition tz n := by
  have h0 := ((fourDigitDay_iff n).mp hn).1
  have hn100 := (year_lt_hundred_iff n).mp h
  unfold FourDigitDay at hn
  rintro ⟨start, hstart, next, hnext, hpart⟩
  cases tz with
  | utc =>
    -- the start stands, but the next date is 1900 years on
    have hshift := dateUTC_early h0 h 1 0 0 0 0
    simp only [Option.mem_def, zonedDayStartIso, utcDay_dateFromDays, Option.some.injEq] at hstart
    simp only [nextDayStart, shiftDateOnly, shiftNumbers, numbers_dateFromDays, Option.map_some,
      Option.bind_some, Option.mem_def] at hnext
    simp only at hshift
    generalize dateUTC (dateFromDays n).year ((dateFromDays n).month - 1) ((dateFromDays n).day + 1)
      0 0 0 0 = later at hshift hnext
    have hfour : FourDigitDay (later / dayMs) := by
      unfold FourDigitDay
      unfold dayMs at hshift ⊢
      omega
    simp only [isoDate_eq hfour, zonedDayStartIso, utcDay_dateFromDays, Option.some.injEq] at hnext
    have hmem := (hpart ((n + 1) * dayMs)).mp
    rw [zonedDateOnly_eq_iff hn, ← hstart, ← hnext] at hmem
    simp only [Tz.clock, dayMs] at hmem hshift
    omega
  | zone z =>
    have hguess := dateUTC_early h0 h 0 0 0 0 0
    -- so far from the early years the offsets reported are the zone's own
    have hreported : ∀ t, (n + 693498) * dayMs ≤ t → offsetMsAt t z < dayMs + 1000 := by
      intro t ht
      have hb := z.bounded t
      unfold dayMs at ht hb
      rw [offsetMsAt_of_late (by unfold Zone.clock dayMs; omega)]
      unfold Zone.clock dayMs
      omega
    obtain ⟨t, ht, hle⟩ := (Tz.zone z).exists_day hn
    have hbefore := ((hpart t).mpr ht).1
    simp only [Option.mem_def, zonedDayStartIso, numbers_dateFromDays, Option.map_some,
      Option.some.injEq, zonedWallToInstantMs_eq, settledOffset] at hstart
    simp only [Int.add_zero, Int.zero_mul] at hguess
    generalize dateUTC (dateFromDays n).year ((dateFromDays n).month - 1) (dateFromDays n).day
      0 0 0 0 = guess at hguess hstart
    have hfirst := hreported guess (by unfold dayMs at hguess ⊢; omega)
    have hsecond := hreported (guess - offsetMsAt guess z) (by
      unfold dayMs at hguess hfirst ⊢
      omega)
    unfold dayMs at hguess hsecond hle
    omega

/-- **A day is the instants of its date, by its start and the next and by
its start and end, just when it is clear.** -/
theorem clearDay_iff (hn : FourDigitDay n) :
    ClearDay tz n ↔ StartsPartition tz n ∧ DayExpands tz n := by
  constructor
  · intro h
    exact ⟨h.startsPartition hn, h.dayExpands hn⟩
  · rintro ⟨hpart, hexp⟩
    have hyear : 100 ≤ (dateFromDays n).year := by
      by_contra hearly
      exact not_startsPartition_of_early hn (by omega) hpart
    refine ⟨hyear, ?_⟩
    cases tz with
    | utc => trivial
    | zone z =>
      obtain ⟨start, hstart, next, hnext, hpart⟩ := hpart
      obtain ⟨start', hstart', last, hlast, hexp⟩ := hexp
      rw [Option.mem_def, zonedDayStartIso_dateFromDays _ hyear] at hstart hstart'
      rw [Option.mem_def, zonedDayEndIso_dateFromDays _ hyear] at hlast
      obtain rfl := Option.some.inj hstart
      obtain rfl := Option.some.inj hstart'
      obtain rfl := Option.some.inj hlast
      have hread : (dateFromDays (n + 1)).year < 10000 := by
        by_contra hcut
        -- the next date is cut, and no start is read from it
        have hlt := year_lt_tenThousand_iff (n + 1)
        obtain rfl : n = 2932896 := by
          unfold FourDigitDay at hn
          omega
        rw [Option.mem_def, nextDayStart, shiftDateOnly_dateFromDays hyear] at hnext
        cases hnext
      rw [Option.mem_def, nextDayStart, shiftDateOnly_dateFromDays hyear, Option.bind_some,
        zonedDayStartIso_next hn hyear (Or.inr hread)] at hnext
      obtain rfl := Option.some.inj hnext
      have hstarts := (between_iff_midnights hn).mp hpart
      have hends : ∀ t, dayStart (.zone z) n ≤ t ∧ t < dayEnd (.zone z) n + 1 ↔
          zonedDateOnly t (.zone z) = dateFromDays n := by
        intro t
        rw [← hexp t]
        omega
      have hend := ((between_iff_midnights hn).mp hends).2
      rw [dayEnd, show (n + 1) * dayMs - 1 - settledOffset ((n + 1) * dayMs - 1) z + 1 =
        (n + 1) * dayMs - settledOffset ((n + 1) * dayMs - 1) z by omega] at hend
      exact ⟨hread, clearMidnight_iff.mpr hstarts.1, clearMidnight_iff.mpr hstarts.2,
        clearMidnight_iff.mpr hend⟩

end SymphonyBoard
