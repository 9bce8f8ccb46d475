import SymphonyBoard.Common.Compare
import SymphonyBoard.Common.OrdSet
import SymphonyBoard.Common.Tally
import SymphonyBoard.Contract.Buckets
import SymphonyBoard.Ui.Heatmap
import Mathlib.Data.Rat.Defs
/-!
# The activity trend

`buildActivityTrend` of `packages/ui/src/model.ts`: the activities of a
range of dates counted by hour, day, week or month, for all kinds and for
each. The buckets are walked before the activities are; that the key of
every counted activity is among them (`exists_trendKeys`) is what makes the
points sum to the totals (`buildActivityTrend_accounts`).

Dates compare as texts, of which a later year's may be longer. A bucket walk
that comes to a text that is no date throws, and the result is `none`.
Averages are exact.
-/

namespace SymphonyBoard

/-- What the points of a trend stand for. -/
inductive ActivityTrendBucket
  | hour
  | day
  | week
  | month
deriving DecidableEq, Repr

/-- A bucket's key: a date, with the hour of an hour bucket. -/
structure TrendKey where
  date : DateOnly
  hour : Option ℤ
deriving DecidableEq

/-- The order of the keys' texts. -/
def TrendKey.before (a b : TrendKey) : Bool :=
  a.date.before b.date || (a.date = b.date && decide (a.hour.getD 0 < b.hour.getD 0))

/-- The first and the last date of a trend. -/
structure TrendRange where
  first : DateOnly
  last : DateOnly
deriving DecidableEq

/-! ## Dates -/

/-- A date of the calendar, of a year that is written with four digits. -/
def isDateOnly (date : DateOnly) : Bool :=
  decide (0 ≤ date.year ∧ date.year ≤ 9999) &&
    decide (dateFromDays (daysFromDate date.year date.month date.day) = date)

/-- A range of two dates in order. -/
def normalizeTimeRange (range : TrendRange) : Option TrendRange :=
  if isDateOnly range.first && isDateOnly range.last && !range.last.before range.first then
    some range
  else none

/-- The month after a date's; a text cut after its month has one too. -/
def firstOfNextMonth (date : DateOnly) : DateOnly :=
  let d := date.numbers.getD date
  isoDate (dateUTC d.year d.month 1 0 0 0 0 / dayMs)

/-- `${date.slice(0, 7)}-01`: the first of the month, but of a five-digit
year the slice ends inside the month. -/
def slicedMonthStart (date : DateOnly) : DateOnly :=
  ⟨date.year, if date.year < 10000 then date.month else date.month / 10, 1⟩

/-- The bucket of a date, the first of which starts with the range. -/
def monthBucketStart (date rangeFrom : DateOnly) : DateOnly :=
  if !rangeFrom.before date then rangeFrom
  else
    let first := slicedMonthStart date
    if first.before rangeFrom then rangeFrom else first

/-! ## Buckets -/

/-- The loop over the bucket starts. The fuel bounds its turns. -/
def trendDates (next : DateOnly → Option DateOnly) (last : DateOnly) :
    ℕ → DateOnly → Option (List DateOnly)
  | 0, _ => none
  | fuel + 1, date =>
    if last.before date then some []
    else do
      let following ← next date
      let dates ← trendDates next last fuel following
      return date :: dates

/-- Where the bucket after one starts. -/
def nextTrendDate (date : DateOnly) : ActivityTrendBucket → Option DateOnly
  | .hour | .day => shiftDateOnly date 1
  | .week => shiftDateOnly date 7
  | .month => some (firstOfNextMonth date)

/-- The keys of a range's buckets, in the order of their points. -/
def activityTrendBuckets (fuel : ℕ) (range : TrendRange) (bucket : ActivityTrendBucket) :
    Option (List TrendKey) :=
  if bucket = .hour then
    some ((List.range 24).map fun hour : ℕ => ⟨range.first, some (hour : ℤ)⟩)
  else
    (trendDates (nextTrendDate · bucket) range.last fuel range.first).map fun dates =>
      dates.map fun date => ⟨date, none⟩

/-- The key of an instant on a day. A normalized range starts on a date, so
the weeks are shifted from its numbers. -/
def activityTrendBucketKey (day : DateOnly) (ms : ℤ) (range : TrendRange) (tz : Tz) :
    ActivityTrendBucket → TrendKey
  | .hour => ⟨day, some (zonedHour ms tz)⟩
  | .day => ⟨day, none⟩
  | .week => ⟨shiftNumbers range.first (daysBetween range.first day / 7 * 7), none⟩
  | .month => ⟨monthBucketStart day range.first, none⟩

/-! ## Points -/

/-- A bucket's count, and the mean about it. -/
structure TrendPoint where
  key : TrendKey
  count : ℕ
  average : ℚ

/-- The points of a line, with the largest count and mean. -/
structure TrendLine where
  points : List TrendPoint
  maxCount : ℕ
  maxAverage : ℚ

/-- The count of each bucket, with the mean about it. -/
def smoothTrendSeries (keys : List TrendKey) (countByKey : OrdMap TrendKey ℕ)
    (bucket : ActivityTrendBucket) : TrendLine :=
  let counts := keys.map countByKey.count
  let radius := if bucket = .day then 2 else 1
  let points := keys.mapIdx fun index key =>
    let start := index - radius
    let stop := min counts.length (index + radius + 1)
    let sum := ((counts.take stop).drop start).sum
    let average : ℚ := if 1 < counts.length then sum / (stop - start : ℕ) else countByKey.count key
    ⟨key, countByKey.count key, average⟩
  { points
    maxCount := points.foldl (fun most point => max most point.count) 0
    maxAverage := points.foldl (fun most point => max most point.average) 0 }

/-! ## Counting -/

/-- The kinds the line of the total counts. -/
def activitySummaryKinds : List String := ["commit", "change_request", "review"]

/-- The maps and counters of the loop over the activities. -/
structure TrendTally where
  countByKey : OrdMap TrendKey ℕ
  chartTotalCountByKey : OrdMap TrendKey ℕ
  countByKeyByKind : OrdMap String (OrdMap TrendKey ℕ)
  kindCounts : OrdMap String ℕ
  repoCounts : OrdMap (SourceId × Option String) ℕ
  activeDays : OrdSet DateOnly
  total : ℕ
  chartTotal : ℕ

namespace TrendTally

/-- Nothing counted yet. -/
def empty : TrendTally := ⟨.empty, .empty, .empty, .empty, .empty, .ofList [], 0, 0⟩

/-- An activity of the range, under its key. -/
def add (t : TrendTally) (day : DateOnly) (key : TrendKey) (a : ActivityDTO) : TrendTally :=
  let charted := a.kind ∈ activitySummaryKinds
  { countByKey := t.countByKey.addAt key 1
    chartTotalCountByKey :=
      if charted then t.chartTotalCountByKey.addAt key 1 else t.chartTotalCountByKey
    countByKeyByKind := t.countByKeyByKind.upsert a.kind fun keys =>
      (keys.getD .empty).addAt key 1
    kindCounts := t.kindCounts.addAt a.kind 1
    repoCounts := t.repoCounts.addAt (a.sourceId, a.projectPath) 1
    activeDays := t.activeDays.add day
    total := t.total + 1
    chartTotal := if charted then t.chartTotal + 1 else t.chartTotal }

end TrendTally

/-- The day of an activity in the range. -/
def trendDay (range : TrendRange) (tz : Tz) (a : ActivityDTO) : Option (DateOnly × ℤ) :=
  (timestampMs (some a.occurredAt)).bind fun ms =>
    let day := zonedDateOnly ms tz
    if day.before range.first || range.last.before day then none else some (day, ms)

/-- One turn of the loop. -/
def countTrend (range : TrendRange) (bucket : ActivityTrendBucket) (tz : Tz) (t : TrendTally)
    (a : ActivityDTO) : TrendTally :=
  match trendDay range tz a with
  | none => t
  | some (day, ms) => t.add day (activityTrendBucketKey day ms range tz bucket) a

/-- The point with the most activities. -/
structure TrendBusiest where
  key : TrendKey
  count : ℕ

/-- The activities of a repository. -/
structure TrendRepoCount where
  repo : SourceId × Option String
  count : ℕ

/-- The line of a kind, or of the total. -/
structure TrendSeries where
  kind : String
  total : ℕ
  line : TrendLine

/-- The trend of a range. -/
structure ActivityTrend where
  range : TrendRange
  bucket : ActivityTrendBucket
  line : TrendLine
  total : ℕ
  activeDays : ℕ
  dayCount : ℤ
  busiest : Option TrendBusiest
  byKind : List ActivityKindCount
  byRepo : List TrendRepoCount
  series : List TrendSeries

/-- The first of the points with the most activities. -/
def busiestPoint (points : List TrendPoint) : Option TrendBusiest :=
  points.foldl (fun busiest point =>
    if (busiest.map (·.count)).getD 0 < point.count then some ⟨point.key, point.count⟩
    else busiest) none

/-- The bucket for a number of days. -/
def trendBucketOf (days : ℤ) : ActivityTrendBucket :=
  if days ≤ 1 then .hour else if days ≤ 31 then .day else if days ≤ 366 then .week else .month

/-- The days of a range, both ends counted. -/
def TrendRange.days (range : TrendRange) : ℤ := daysBetween range.first range.last + 1

/-- The bucket a range is shown by. -/
def TrendRange.bucket (range : TrendRange) : ActivityTrendBucket := trendBucketOf range.days

section Build

variable (localeCompare : String → String → Ordering)

/-- The larger count first, ties by path and source. -/
def repoCountOrder : TrendRepoCount → TrendRepoCount → Ordering :=
  compareLex (on (fun a b : ℕ => compare b a) (·.count)) <|
    compareLex (on localeCompare fun row => row.repo.2.getD "")
      (on localeCompare fun row => row.repo.1.val)

/-- What a range that does not normalize is shown as. -/
def emptyTrend (range : TrendRange) : ActivityTrend :=
  ⟨range, .day, ⟨[], 0, 0⟩, 0, 0, 0, none, [], [], []⟩

/-- The trend of the counted activities. -/
def trendOf (range : TrendRange) (keys : List TrendKey) (t : TrendTally) : ActivityTrend :=
  let bucket := range.bucket
  let line := smoothTrendSeries keys t.countByKey bucket
  let byKind := sortBy (kindOrder localeCompare)
    (t.kindCounts.entries.map fun b => ⟨b.1, b.2⟩)
  { range, bucket, line
    total := t.total
    activeDays := t.activeDays.values.length
    dayCount := range.days
    busiest := busiestPoint line.points
    byKind
    byRepo := sortBy (repoCountOrder localeCompare)
      (t.repoCounts.entries.map fun b => ⟨b.1, b.2⟩)
    series :=
      ⟨"total", t.chartTotal, smoothTrendSeries keys t.chartTotalCountByKey bucket⟩ ::
        byKind.map fun row =>
          ⟨row.kind, row.count,
            smoothTrendSeries keys ((t.countByKeyByKind.get? row.kind).getD .empty) bucket⟩ }

/-- The trend of the activities whose day is in the range. -/
def buildActivityTrend (fuel : ℕ) (activities : List ActivityDTO) (range : TrendRange) (tz : Tz) :
    Option ActivityTrend :=
  match normalizeTimeRange range with
  | none => some (emptyTrend range)
  | some range =>
    (activityTrendBuckets fuel range range.bucket).map fun keys =>
      trendOf localeCompare range keys (activities.foldl (countTrend range range.bucket tz) .empty)

end Build

/-! ## Months -/

section Months

variable {n k l : ℤ}

/-- The first day of a month, the months counted from the year 0 on. -/
def monthFirst (k : ℤ) : ℤ := daysFromDate (k / 12) (k % 12 + 1) 1

/-- The month of a day, counted from the year 0 on. -/
def monthOf (n : ℤ) : ℤ := 12 * (dateFromDays n).year + ((dateFromDays n).month - 1)

theorem monthFirst_succ (k : ℤ) : monthFirst k + 28 ≤ monthFirst (k + 1) := by
  have hnext := daysFromDate_next_month (k / 12) (k % 12 + 1) 1 (by omega) (by omega)
  have hyear : k / 12 + (k % 12 + 1) / 12 = (k + 1) / 12 := by omega
  have hmonth : (k % 12 + 1) % 12 = (k + 1) % 12 := by omega
  rw [hyear, hmonth] at hnext
  exact hnext.1

theorem monthFirst_add (k : ℤ) (i : ℕ) : monthFirst k + 28 * i ≤ monthFirst (k + i) := by
  induction i with
  | zero => simp
  | succ i ih =>
    have hnext := monthFirst_succ (k + i)
    push_cast
    rw [← Int.add_assoc]
    omega

theorem monthFirst_lt (h : k < l) : monthFirst k < monthFirst l := by
  have hadd := monthFirst_add k (l - k).toNat
  rw [show k + ((l - k).toNat : ℤ) = l by omega] at hadd
  omega

theorem monthFirst_monthOf (n : ℤ) :
    monthFirst (monthOf n) = daysFromDate (dateFromDays n).year (dateFromDays n).month 1 := by
  have hmonth := dateFromDays_month n
  unfold monthFirst monthOf
  congr 1 <;> omega

theorem daysFromDate_march (y m d : ℤ) : daysFromDate y m d =
    marchStart (if m ≤ 2 then y - 1 else y) + (153 * ((m + 9) % 12) + 2) / 5 + d - 1 - 719468 := by
  unfold daysFromDate marchStart
  simp only
  omega

/-- A day lies between the first of its month and the next. -/
theorem monthFirst_le (n : ℤ) : monthFirst (monthOf n) ≤ n ∧ n < monthFirst (monthOf n + 1) := by
  have hmonth := dateFromDays_month n
  have hfirst := daysFromDate_day (dateFromDays n).year (dateFromDays n).month (dateFromDays n).day
  rw [daysFromDate_dateFromDays, ← monthFirst_monthOf] at hfirst
  have hnext : monthFirst (monthOf n + 1) =
      daysFromDate ((dateFromDays n).year + (dateFromDays n).month / 12)
        ((dateFromDays n).month % 12 + 1) 1 := by
    unfold monthFirst monthOf
    congr 1 <;> omega
  obtain ⟨y, doy, hd, hd', hm, hlast, hdate⟩ := dateFromDays_march n
  generalize hmp : (5 * doy + 2) / 153 = mp at hdate
  have hmp' : 0 ≤ mp ∧ mp ≤ 11 := by omega
  have hday : (dateFromDays n).day = doy - (153 * mp + 2) / 5 + 1 := by rw [hdate]
  -- the month of a place in the year that starts in March
  have hyear : (dateFromDays n).month = (if mp < 10 then mp + 3 else mp - 9) ∧
      (dateFromDays n).year = y + if (dateFromDays n).month ≤ 2 then 1 else 0 := by
    rw [hdate]
    exact ⟨rfl, rfl⟩
  rw [hnext, daysFromDate_march]
  generalize (dateFromDays n).year = year at *
  generalize (dateFromDays n).month = month at *
  clear hdate hnext
  refine ⟨by omega, ?_⟩
  obtain ⟨hmonth', hyear⟩ := hyear
  -- only December's next month is of the next year, and only February's of
  -- the next year from March
  have hcases : mp < 9 ∨ mp = 9 ∨ mp = 10 ∨ mp = 11 := by omega
  rcases hcases with hlt | rfl | rfl | rfl
  · rw [if_pos (by omega)] at hmonth'
    rw [if_neg (by omega)] at hyear
    have hdiv : month / 12 = 0 := Int.ediv_eq_zero_of_lt (by omega) (by omega)
    have hmod : month % 12 = month := Int.emod_eq_of_lt (by omega) (by omega)
    have hplace : (month + 1 + 9) % 12 = mp + 1 := by omega
    rw [hmod, hplace, if_neg (by omega), hdiv, Int.add_zero, hyear, Int.add_zero]
    omega
  · rw [if_pos (by omega)] at hmonth'
    rw [if_neg (by omega)] at hyear
    rw [if_pos (by omega), show year + month / 12 - 1 = y by omega]
    omega
  · rw [if_neg (by omega)] at hmonth'
    rw [if_pos (by omega)] at hyear
    rw [if_pos (by omega), show year + month / 12 - 1 = y by omega]
    omega
  · rw [if_neg (by omega)] at hmonth'
    rw [if_pos (by omega)] at hyear
    rw [if_neg (by omega), show year + month / 12 = y + 1 by omega]
    omega

theorem monthOf_eq_iff : monthOf n = k ↔ monthFirst k ≤ n ∧ n < monthFirst (k + 1) := by
  have hn := monthFirst_le n
  constructor
  · rintro rfl
    exact hn
  · rintro ⟨hle, hlt⟩
    rcases lt_trichotomy (monthOf n) k with h | h | h
    · rcases Int.lt_or_eq_of_le (Int.add_one_le_of_lt h) with h' | h'
      · have := monthFirst_lt h'
        omega
      · rw [h'] at hn
        omega
    · exact h
    · rcases Int.lt_or_eq_of_le (Int.add_one_le_of_lt h) with h' | h'
      · have := monthFirst_lt h'
        omega
      · rw [h'] at hlt
        omega

theorem monthOf_monthFirst (k : ℤ) : monthOf (monthFirst k) = k :=
  monthOf_eq_iff.mpr ⟨le_refl _, monthFirst_lt (by omega)⟩

/-- The first of a day's month, as its date. -/
theorem dateFromDays_monthFirst (n : ℤ) :
    dateFromDays (monthFirst (monthOf n)) =
      ⟨(dateFromDays n).year, (dateFromDays n).month, 1⟩ := by
  have hmonth := dateFromDays_month n
  generalize hk : monthFirst (monthOf n) = m
  have hm := dateFromDays_month m
  have hsame : monthOf m = monthOf n := by rw [← hk, monthOf_monthFirst]
  have hday := daysFromDate_day (dateFromDays m).year (dateFromDays m).month (dateFromDays m).day
  rw [daysFromDate_dateFromDays, ← monthFirst_monthOf, hsame, hk] at hday
  unfold monthOf at hsame
  have hyear : (dateFromDays m).year = (dateFromDays n).year := by omega
  have hmon : (dateFromDays m).month = (dateFromDays n).month := by omega
  have hone : (dateFromDays m).day = 1 := by omega
  rw [← hyear, ← hmon, ← hone]

theorem firstOfNextMonth_eq (h : 100 ≤ (dateFromDays n).year)
    (hnext : FourDigitDay (monthFirst (monthOf n + 1))) :
    firstOfNextMonth (dateFromDays n) = dateFromDays (monthFirst (monthOf n + 1)) := by
  have hmonth := dateFromDays_month n
  have hindex : monthFirst (monthOf n + 1) =
      daysFromDate ((dateFromDays n).year + (dateFromDays n).month / 12)
        ((dateFromDays n).month % 12 + 1) 1 := by
    unfold monthFirst monthOf
    congr 1 <;> omega
  rw [← isoDate_eq hnext]
  unfold firstOfNextMonth dateUTC
  rw [numbers_dateFromDays, Option.getD_some]
  simp only
  rw [if_neg (by omega), hindex]
  congr 1
  unfold dayMs
  omega

theorem monthOf_le (h : k ≤ n) : monthOf k ≤ monthOf n := by
  have hk := monthFirst_le k
  have hn := monthFirst_le n
  by_contra hlt
  rcases Int.lt_or_eq_of_le (Int.add_one_le_of_lt (not_le.mp hlt)) with h' | h'
  · have := monthFirst_lt h'
    omega
  · rw [h'] at hn
    omega

end Months

/-! ## The days the buckets start on -/

section Marks

variable {a b n : ℤ} {bucket : ActivityTrendBucket}

/-- The day the `i`th bucket from a day on starts on. -/
def trendMark (a : ℤ) : ActivityTrendBucket → ℕ → ℤ
  | .hour, i | .day, i => a + i
  | .week, i => a + 7 * i
  | .month, 0 => a
  | .month, i + 1 => monthFirst (monthOf a + (i + 1))

theorem trendMark_zero (a : ℤ) (bucket : ActivityTrendBucket) : trendMark a bucket 0 = a := by
  cases bucket <;> simp [trendMark]

theorem trendMark_lt (a : ℤ) (bucket : ActivityTrendBucket) (i : ℕ) :
    trendMark a bucket i < trendMark a bucket (i + 1) := by
  cases bucket with
  | hour => simp [trendMark]
  | day => simp [trendMark]
  | week =>
    simp only [trendMark]
    omega
  | month =>
    cases i with
    | zero => exact (monthFirst_le a).2
    | succ i => exact monthFirst_lt (by push_cast; omega)

theorem le_trendMark (a : ℤ) (bucket : ActivityTrendBucket) (i : ℕ) :
    a + i ≤ trendMark a bucket i := by
  induction i with
  | zero => rw [trendMark_zero]; simp
  | succ i ih =>
    have hlt := trendMark_lt a bucket i
    push_cast
    omega

theorem year_le (h : 100 ≤ (dateFromDays a).year) (hle : a ≤ n) : 100 ≤ (dateFromDays n).year := by
  have ha := year_lt_hundred_iff a
  have hn := year_lt_hundred_iff n
  omega

/-- The month after a day's is at most 31 days on. -/
theorem monthFirst_near (n : ℤ) : monthFirst (monthOf n + 1) ≤ n + 31 := by
  have hfirst := (monthFirst_le n).1
  have hnext := daysFromDate_next_month (monthOf n / 12) (monthOf n % 12 + 1) 1 (by omega)
    (by omega)
  have hyear : monthOf n / 12 + (monthOf n % 12 + 1) / 12 = (monthOf n + 1) / 12 := by omega
  have hmonth : (monthOf n % 12 + 1) % 12 = (monthOf n + 1) % 12 := by omega
  rw [hyear, hmonth] at hnext
  unfold monthFirst at *
  omega

/-- A bucket is at most 31 days long. -/
theorem trendMark_near (a : ℤ) (bucket : ActivityTrendBucket) (i : ℕ) :
    trendMark a bucket (i + 1) ≤ trendMark a bucket i + 31 := by
  cases bucket with
  | hour | day =>
    simp only [trendMark]
    omega
  | week =>
    simp only [trendMark]
    omega
  | month =>
    cases i with
    | zero => exact monthFirst_near a
    | succ i =>
      have hnear := monthFirst_near (monthFirst (monthOf a + (i + 1)))
      rw [monthOf_monthFirst] at hnear
      simp only [trendMark]
      push_cast
      rw [← Int.add_assoc]
      exact hnear

theorem nextTrendDate_mark (h : 100 ≤ (dateFromDays a).year) (bucket : ActivityTrendBucket)
    (i : ℕ) (hnext : FourDigitDay (trendMark a bucket (i + 1))) :
    nextTrendDate (dateFromDays (trendMark a bucket i)) bucket =
      some (dateFromDays (trendMark a bucket (i + 1))) := by
  have hyear : 100 ≤ (dateFromDays (trendMark a bucket i)).year :=
    year_le h (by have := le_trendMark a bucket i; omega)
  rw [← isoDate_eq hnext]
  cases bucket with
  | hour | day =>
    rw [nextTrendDate, shiftDateOnly_dateFromDays hyear]
    simp only [trendMark]
    push_cast
    rw [Int.add_assoc]
  | week =>
    rw [nextTrendDate, shiftDateOnly_dateFromDays hyear]
    simp only [trendMark]
    congr 2
    push_cast
    omega
  | month =>
    have hindex : trendMark a .month (i + 1) = monthFirst (monthOf (trendMark a .month i) + 1) := by
      cases i with
      | zero => rfl
      | succ i =>
        simp only [trendMark]
        rw [monthOf_monthFirst]
        congr 1
        push_cast
        omega
    rw [hindex] at hnext ⊢
    rw [nextTrendDate, firstOfNextMonth_eq hyear hnext, isoDate_eq hnext]

theorem not_before_iff {m n : ℤ} (hm : FourDigitDay m) (hn : FourDigitDay n) :
    (dateFromDays m).before (dateFromDays n) = false ↔ n ≤ m := by
  rw [Bool.eq_false_iff, ne_eq, before_dateFromDays hm hn, not_lt]

/-- **The loop gives the marks** up to the last day. -/
theorem trendDates_marks {next : DateOnly → Option DateOnly} {g : ℕ → ℤ} {k : ℕ}
    (hfour : ∀ i ≤ k, FourDigitDay (g i)) (hb : FourDigitDay b)
    (hstep : ∀ i < k, next (dateFromDays (g i)) = some (dateFromDays (g (i + 1))))
    (hle : ∀ i < k, g i ≤ b) (hk : b < g k) :
    ∀ fuel, k < fuel → trendDates next (dateFromDays b) fuel (dateFromDays (g 0)) =
      some ((List.range k).map fun i => dateFromDays (g i)) := by
  induction k generalizing g with
  | zero =>
    intro fuel hfuel
    obtain ⟨fuel, rfl⟩ := Nat.exists_eq_succ_of_ne_zero (by omega : fuel ≠ 0)
    unfold trendDates
    rw [if_pos ((before_dateFromDays hb (hfour 0 (Nat.le_refl 0))).mpr hk)]
    rfl
  | succ k ih =>
    intro fuel hfuel
    obtain ⟨fuel, rfl⟩ := Nat.exists_eq_succ_of_ne_zero (by omega : fuel ≠ 0)
    have hrest : trendDates next (dateFromDays b) fuel (dateFromDays (g 1)) =
        some ((List.range k).map fun i => dateFromDays (g (i + 1))) :=
      ih (fun i hi => hfour (i + 1) (by omega)) (fun i hi => hstep (i + 1) (by omega))
        (fun i hi => hle (i + 1) (by omega)) hk fuel (by omega)
    have hhere : (dateFromDays b).before (dateFromDays (g 0)) = false :=
      (not_before_iff hb (hfour 0 (by omega))).mpr (hle 0 (by omega))
    unfold trendDates
    rw [hhere, if_neg Bool.false_ne_true, hstep 0 (by omega)]
    simp only [Option.bind_eq_bind, Option.bind_some, Option.pure_def]
    rw [hrest, Option.bind_some, map_range_succ]

theorem daysBetween_eq (h : 100 ≤ (dateFromDays a).year) (hle : a ≤ n) :
    daysBetween (dateFromDays a) (dateFromDays n) = n - a := by
  have hn := year_le h hle
  have ha' := dateUTC_dateFromDays (n := a) (by omega) 0 0 0 0 0
  have hn' := dateUTC_dateFromDays (n := n) (by omega) 0 0 0 0 0
  simp only [Int.add_zero] at ha' hn'
  unfold daysBetween dateOnlyUtcMs
  simp only [numbers_dateFromDays, Option.getD_some]
  rw [ha', hn']
  unfold dayMs
  omega

theorem slicedMonthStart_dateFromDays (h : (dateFromDays n).year < 10000) :
    slicedMonthStart (dateFromDays n) = dateFromDays (monthFirst (monthOf n)) := by
  rw [dateFromDays_monthFirst, slicedMonthStart, if_pos h]

/-- A month starts in the year of its days. -/
theorem fourDigitDay_monthFirst (h : FourDigitDay n) : FourDigitDay (monthFirst (monthOf n)) := by
  have hyear := (fourDigitDay_iff n).mp h
  rw [fourDigitDay_iff, dateFromDays_monthFirst]
  exact hyear

/-- **The key of a day is the bucket it falls in.** -/
theorem trendKey_mark (h : 100 ≤ (dateFromDays a).year) (hle : a ≤ n) (hfour : FourDigitDay n)
    (hbucket : bucket ≠ .hour) (last : DateOnly) (ms : ℤ) (tz : Tz) : ∃ i, trendMark a bucket i ≤ n ∧
      activityTrendBucketKey (dateFromDays n) ms ⟨dateFromDays a, last⟩ tz bucket =
        ⟨dateFromDays (trendMark a bucket i), none⟩ := by
  cases bucket with
  | hour => exact absurd rfl hbucket
  | day =>
    refine ⟨(n - a).toNat, ?_, ?_⟩
    · simp only [trendMark]
      omega
    · simp only [activityTrendBucketKey, trendMark]
      rw [show a + ((n - a).toNat : ℤ) = n by omega]
  | week =>
    refine ⟨((n - a) / 7).toNat, ?_, ?_⟩
    · simp only [trendMark]
      omega
    · simp only [activityTrendBucketKey, trendMark]
      rw [daysBetween_eq h hle, shiftNumbers_dateFromDays h, isoDate_eq (by
        have hlow := year_lt_hundred_iff a
        unfold FourDigitDay at *
        omega)]
      congr 2
      omega
  | month =>
    have hmonths := monthOf_le hle
    have hn := monthFirst_le n
    have ha := monthFirst_le a
    -- the month starts between the year the range starts in and the day
    have hfirst' := slicedMonthStart_dateFromDays ((fourDigitDay_iff n).mp hfour).2
    simp only [activityTrendBucketKey, monthBucketStart, hfirst']
    have hfour' := fourDigitDay_monthFirst hfour
    have hfoura : FourDigitDay a := by
      have hlow := year_lt_hundred_iff a
      unfold FourDigitDay at *
      omega
    have hstart : ∃ i, trendMark a .month i ≤ n ∧
        (⟨dateFromDays a, none⟩ : TrendKey) = ⟨dateFromDays (trendMark a .month i), none⟩ :=
      ⟨0, by rw [trendMark_zero]; exact hle, by rw [trendMark_zero]⟩
    by_cases hlate : (dateFromDays a).before (dateFromDays n) = true
    · rw [hlate, Bool.not_true, if_neg Bool.false_ne_true]
      by_cases hfirst : (dateFromDays (monthFirst (monthOf n))).before (dateFromDays a) = true
      · rw [if_pos hfirst]
        exact hstart
      · rw [if_neg hfirst]
        have hfirst := (not_before_iff hfour' hfoura).mp (Bool.eq_false_iff.mpr hfirst)
        rcases (Int.lt_or_eq_of_le hmonths).symm with hsame | hlater
        · refine ⟨0, by rw [trendMark_zero]; exact hle, ?_⟩
          rw [← hsame] at hfirst ⊢
          rw [trendMark_zero, show monthFirst (monthOf a) = a by omega]
        · -- a later month starts with a mark of its own
          have hindex : monthOf a + ((monthOf n - monthOf a - 1).toNat + 1 : ℤ) = monthOf n := by
            omega
          refine ⟨(monthOf n - monthOf a - 1).toNat + 1, ?_, ?_⟩
          · simp only [trendMark]
            rw [hindex]
            exact hn.1
          · simp only [trendMark]
            rw [hindex]
    · rw [Bool.eq_false_iff.mpr hlate, Bool.not_false, if_pos rfl]
      exact hstart

end Marks

/-! ## The keys -/

section Keys

variable {a b : ℤ} {tz : Tz} {bucket : ActivityTrendBucket}

theorem before_mk {m n : ℤ} (hm : FourDigitDay m) (hn : FourDigitDay n) :
    (⟨dateFromDays m, none⟩ : TrendKey).before ⟨dateFromDays n, none⟩ = true ↔ m < n := by
  simp [TrendKey.before, before_dateFromDays hm hn]

theorem trendMark_mono (a : ℤ) (bucket : ActivityTrendBucket) {i j : ℕ} (h : i < j) :
    trendMark a bucket i < trendMark a bucket j :=
  strictMono_nat_of_lt_succ (trendMark_lt a bucket) h

/-- **The keys of the buckets**, ascending, with that of every day of the
range among them. -/
theorem activityTrendBuckets_spec (hyear : 100 ≤ (dateFromDays a).year) (hle : a ≤ b)
    (hlast : (dateFromDays b).year ≤ 9998) (hbucket : bucket = .hour → a = b) (tz : Tz) :
    ∃ keys turns, (∀ fuel, turns < fuel →
      activityTrendBuckets fuel ⟨dateFromDays a, dateFromDays b⟩ bucket = some keys) ∧
      (keys.Pairwise fun k k' => k.before k' = true) ∧
      ∀ n ms, a ≤ n → n ≤ b → activityTrendBucketKey (dateFromDays n) ms
        ⟨dateFromDays a, dateFromDays b⟩ tz bucket ∈ keys := by
  -- a bucket that starts by the last day is followed by one of a four-digit year
  have hfour : ∀ n, a ≤ n → n ≤ b + 31 → FourDigitDay n := by
    intro n hn hn'
    have hlow := year_lt_hundred_iff a
    have hhigh : (dateFromDays b).year < 9999 ↔ b < 2932532 := year_lt_iff b 9999
    unfold FourDigitDay
    omega
  by_cases hhour : bucket = .hour
  · -- the hours of the one day
    obtain rfl := hbucket hhour
    subst hhour
    refine ⟨_, 0, fun fuel _ => rfl, ?_, fun n ms hn hn' => ?_⟩
    · refine List.pairwise_map.mpr (List.pairwise_lt_range.imp fun hlt => ?_)
      simp [TrendKey.before, hlt]
    · obtain rfl := le_antisymm hn' hn
      have hhours := zonedHour_range ms tz
      refine List.mem_map.mpr ⟨(zonedHour ms tz).toNat, List.mem_range.mpr (by omega), ?_⟩
      simp only [activityTrendBucketKey]
      rw [Int.toNat_of_nonneg hhours.1]
  · have hgrow : ∀ i : ℕ, a + i - 1 < trendMark a bucket i := by
      intro i
      have hle := le_trendMark a bucket i
      omega
    obtain ⟨k, hpast, hmarks⟩ := exists_first_past hgrow b
    have hnear : ∀ i ≤ k, FourDigitDay (trendMark a bucket i) := by
      intro i hi
      have hlow := le_trendMark a bucket i
      refine hfour _ (by omega) ?_
      cases i with
      | zero =>
        rw [trendMark_zero]
        omega
      | succ i =>
        have hprev := hmarks i (by omega)
        have hstep := trendMark_near a bucket i
        omega
    have hloop : ∀ fuel, k < fuel → trendDates (nextTrendDate · bucket) (dateFromDays b) fuel
        (dateFromDays (trendMark a bucket 0)) =
          some ((List.range k).map fun i => dateFromDays (trendMark a bucket i)) :=
      trendDates_marks hnear (hfour b hle (by omega))
        (fun i hi => nextTrendDate_mark hyear bucket i (hnear (i + 1) hi)) hmarks hpast
    rw [trendMark_zero] at hloop
    refine ⟨((List.range k).map fun i => dateFromDays (trendMark a bucket i)).map fun date =>
      ⟨date, none⟩, k, fun fuel hfuel => ?_, ?_, fun n ms hn hn' => ?_⟩
    · unfold activityTrendBuckets
      rw [if_neg hhour, hloop fuel hfuel]
      rfl
    · rw [List.map_map]
      refine List.pairwise_map.mpr (List.pairwise_lt_range.imp_of_mem fun hi hj hlt => ?_)
      exact (before_mk (hnear _ (List.mem_range.mp hi).le)
        (hnear _ (List.mem_range.mp hj).le)).mpr (trendMark_mono a bucket hlt)
    · -- a mark not after a day of the range is one the loop passed
      obtain ⟨i, hi, hkey⟩ :=
        trendKey_mark hyear hn (hfour n hn (by omega)) hhour (dateFromDays b) ms tz
      rw [hkey, List.map_map]
      refine List.mem_map.mpr ⟨i, List.mem_range.mpr ?_, rfl⟩
      by_contra hik
      have hmono := (strictMono_nat_of_lt_succ (trendMark_lt a bucket)).monotone (not_lt.mp hik)
      omega

end Keys

/-! ## The counts -/

section Counts

variable {range : TrendRange} {bucket : ActivityTrendBucket} {tz : Tz}

/-- The activities of the range, each under its key. -/
def countedRows (range : TrendRange) (bucket : ActivityTrendBucket) (tz : Tz)
    (activities : List ActivityDTO) : List (TrendKey × ActivityDTO) :=
  activities.filterMap fun a => (trendDay range tz a).map fun found =>
    (activityTrendBucketKey found.1 found.2 range tz bucket, a)

/-- The rows of one kind. -/
def kindRows (rows : List (TrendKey × ActivityDTO)) (kind : String) : List (TrendKey × ActivityDTO) :=
  rows.filter fun row => row.2.kind = kind

/-- The rows of the kinds the chart draws. -/
def chartedRows (rows : List (TrendKey × ActivityDTO)) : List (TrendKey × ActivityDTO) :=
  rows.filter fun row => row.2.kind ∈ activitySummaryKinds

/-- What the maps hold once some rows are counted. -/
structure TalliesRows (rows : List (TrendKey × ActivityDTO)) (t : TrendTally) : Prop where
  countByKey : t.countByKey = OrdMap.tally Prod.fst rows
  chartTotalCountByKey : t.chartTotalCountByKey = OrdMap.tally Prod.fst (chartedRows rows)
  countByKeyByKind : ∀ kind,
    (t.countByKeyByKind.get? kind).getD .empty = OrdMap.tally Prod.fst (kindRows rows kind)
  kindCounts : t.kindCounts = OrdMap.tally (·.2.kind) rows
  repoCounts : t.repoCounts = OrdMap.tally (fun row => (row.2.sourceId, row.2.projectPath)) rows
  total : t.total = rows.length
  chartTotal : t.chartTotal = (chartedRows rows).length

theorem tally_append_one {α K : Type} [DecidableEq K] (key : α → K) (l : List α) (x : α) :
    OrdMap.tally key (l ++ [x]) = (OrdMap.tally key l).addAt (key x) 1 := by
  unfold OrdMap.tally
  rw [List.foldl_append]
  rfl

/-- **One more row.** -/
theorem TalliesRows.add {rows : List (TrendKey × ActivityDTO)} {t : TrendTally}
    (h : TalliesRows rows t) (day : DateOnly) (key : TrendKey) (a : ActivityDTO) :
    TalliesRows (rows ++ [(key, a)]) (t.add day key a) where
  countByKey := by rw [tally_append_one, ← h.countByKey]; rfl
  chartTotalCountByKey := by
    unfold chartedRows TrendTally.add
    rw [List.filter_append, h.chartTotalCountByKey]
    by_cases hcharted : a.kind ∈ activitySummaryKinds
    · simp only [hcharted, if_true, List.filter_cons, decide_true, List.filter_nil, chartedRows]
      exact (tally_append_one Prod.fst _ (key, a)).symm
    · simp [hcharted, chartedRows]
  countByKeyByKind kind := by
    unfold kindRows TrendTally.add
    rw [OrdMap.get?_upsert, List.filter_append]
    by_cases hkind : a.kind = kind
    · subst hkind
      rw [if_pos rfl, Option.getD_some, h.countByKeyByKind, List.filter_cons]
      simp [kindRows, tally_append_one]
    · rw [if_neg hkind, h.countByKeyByKind]
      simp [hkind, kindRows]
  kindCounts := by rw [tally_append_one, ← h.kindCounts]; rfl
  repoCounts := by rw [tally_append_one, ← h.repoCounts]; rfl
  total := by
    rw [List.length_append, ← h.total]
    rfl
  chartTotal := by
    unfold chartedRows TrendTally.add
    rw [List.filter_append, List.length_append, h.chartTotal]
    by_cases hcharted : a.kind ∈ activitySummaryKinds
    · simp [hcharted, chartedRows]
    · simp [hcharted, chartedRows]

/-- **The whole run.** -/
theorem talliesRows_foldl (activities : List ActivityDTO) :
    TalliesRows (countedRows range bucket tz activities)
      (activities.foldl (countTrend range bucket tz) .empty) := by
  -- the loop counts the last activity last
  induction activities using List.reverseRecOn with
  | nil => exact ⟨rfl, rfl, fun _ => rfl, rfl, rfl, rfl, rfl⟩
  | append_singleton activities a ih =>
    rw [List.foldl_append, List.foldl_cons, List.foldl_nil]
    generalize activities.foldl (countTrend range bucket tz) .empty = t at *
    unfold countedRows at *
    rw [List.filterMap_append]
    unfold countTrend
    cases hday : trendDay range tz a with
    | none => simpa [hday] using ih
    | some found => simpa [hday] using ih.add found.1 _ a

theorem counts_smoothTrendSeries (keys : List TrendKey) (countByKey : OrdMap TrendKey ℕ) :
    (smoothTrendSeries keys countByKey bucket).points.map (·.count) =
      keys.map countByKey.count := by
  unfold smoothTrendSeries
  exact List.ext_getElem (by simp) (by simp)

theorem keys_smoothTrendSeries (keys : List TrendKey) (countByKey : OrdMap TrendKey ℕ) :
    (smoothTrendSeries keys countByKey bucket).points.map (·.key) = keys := by
  unfold smoothTrendSeries
  exact List.ext_getElem (by simp) (by simp)

/-- A series sums to its rows, where the keys cover them. -/
theorem sum_series {keys : List TrendKey} {rows : List (TrendKey × ActivityDTO)}
    (hnodup : keys.Nodup) (hcovers : ∀ row ∈ rows, row.1 ∈ keys) :
    ((smoothTrendSeries keys (OrdMap.tally Prod.fst rows) bucket).points.map (·.count)).sum =
      rows.length := by
  have hcounts : keys.map (OrdMap.tally Prod.fst rows).count =
      keys.map fun k => rows.countP fun row => row.1 = k :=
    List.map_congr_left fun k _ => OrdMap.count_tally Prod.fst rows k
  rw [counts_smoothTrendSeries, hcounts]
  exact sum_countP hnodup hcovers

end Counts

/-! ## The accounts -/

/-- The trend counts some rows, each in one bucket. -/
structure ActivityTrend.Accounts (trend : ActivityTrend) (rows : List (TrendKey × ActivityDTO)) :
    Prop where
  ascending : (trend.line.points.map (·.key)).Pairwise fun k k' => k.before k' = true
  covered : ∀ row ∈ rows, row.1 ∈ trend.line.points.map (·.key)
  total : trend.total = rows.length
  points : (trend.line.points.map (·.count)).sum = trend.total
  series : ∀ s ∈ trend.series, (s.line.points.map (·.count)).sum = s.total
  charted : ∀ s ∈ trend.series.head?, s.kind = "total" ∧ s.total = (chartedRows rows).length
  kindCount : ∀ row ∈ trend.byKind, row.count = (kindRows rows row.kind).length
  kinds : (trend.byKind.map (·.count)).sum = trend.total
  repos : (trend.byRepo.map (·.count)).sum = trend.total

/-- A range from the year 100 on whose last loop step stays in four-digit
years. -/
structure TrendRange.InYears (range : TrendRange) : Prop where
  valid : normalizeTimeRange range = some range
  fromYear : 100 ≤ range.first.year
  toYear : range.last.year ≤ 9998

section Accounts

variable {range : TrendRange} {bucket : ActivityTrendBucket} {tz : Tz}
variable {localeCompare : String → String → Ordering}

theorem TrendKey.before_irrefl (k : TrendKey) : k.before k = false := by
  simp [TrendKey.before, DateOnly.before]

/-- The days of a valid range. -/
theorem exists_days (h : normalizeTimeRange range = some range) : ∃ a b : ℤ, a ≤ b ∧
    FourDigitDay a ∧ FourDigitDay b ∧ range = ⟨dateFromDays a, dateFromDays b⟩ := by
  unfold normalizeTimeRange at h
  split at h
  · next hvalid =>
    simp only [Bool.and_eq_true, Bool.not_eq_true', isDateOnly, decide_eq_true_eq] at hvalid
    obtain ⟨⟨⟨hyear, hfirst⟩, hyear', hlast⟩, hle⟩ := hvalid
    rw [← hfirst] at hyear
    rw [← hlast] at hyear'
    rw [← hfirst, ← hlast] at hle
    have ha := (fourDigitDay_iff _).mpr ⟨hyear.1, Int.lt_add_one_of_le hyear.2⟩
    have hb := (fourDigitDay_iff _).mpr ⟨hyear'.1, Int.lt_add_one_of_le hyear'.2⟩
    exact ⟨_, _, (not_before_iff hb ha).mp hle, ha, hb, by rw [hfirst, hlast]⟩
  · cases h

/-- The activity's day is of no year from 0 to 9999, and its text sorts into
the range. -/
def TrendRange.StraysIn (range : TrendRange) (tz : Tz) (a : ActivityDTO) : Prop :=
  ∃ found ∈ trendDay range tz a, ¬FourDigitDay (tz.clock found.2 / dayMs)

instance TrendRange.decidableStraysIn (range : TrendRange) (tz : Tz) (a : ActivityDTO) :
    Decidable (range.StraysIn tz a) :=
  inferInstanceAs (Decidable (∃ found ∈ trendDay range tz a, _))

/-- A counted activity that does not stray in is of a day of the range. -/
theorem exists_day_of_counted {a b : ℤ} (ha : FourDigitDay a) (hb : FourDigitDay b)
    {activities : List ActivityDTO}
    (hin : ∀ x ∈ activities, ¬TrendRange.StraysIn ⟨dateFromDays a, dateFromDays b⟩ tz x)
    {row : TrendKey × ActivityDTO}
    (h : row ∈ countedRows ⟨dateFromDays a, dateFromDays b⟩ bucket tz activities) :
    ∃ n ms, a ≤ n ∧ n ≤ b ∧ row.1 = activityTrendBucketKey (dateFromDays n) ms
      ⟨dateFromDays a, dateFromDays b⟩ tz bucket := by
  obtain ⟨activity, hactivity, hrow⟩ := List.mem_filterMap.mp h
  obtain ⟨⟨day, ms⟩, hfound, rfl⟩ := Option.map_eq_some_iff.mp hrow
  have hfour : FourDigitDay (tz.clock ms / dayMs) := by
    by_contra hfive
    exact hin activity hactivity ⟨(day, ms), hfound, hfive⟩
  obtain ⟨ms', -, hday⟩ := Option.bind_eq_some_iff.mp hfound
  simp only at hday
  split at hday
  · cases hday
  · next hrange =>
    obtain ⟨rfl, rfl⟩ := Prod.mk.inj (Option.some.inj hday)
    rw [zonedDateOnly_eq hfour] at hrange
    simp only [Bool.or_eq_true, not_or, Bool.not_eq_true, not_before_iff hfour ha,
      not_before_iff hb hfour] at hrange
    exact ⟨_, ms', hrange.1, hrange.2, by rw [zonedDateOnly_eq hfour]⟩

theorem trendBucketOf_hour {days : ℤ} (h : trendBucketOf days = .hour) : days ≤ 1 := by
  unfold trendBucketOf at h
  split_ifs at h with hdays
  exact hdays

/-- The trend of some tallied rows accounts for them. -/
theorem accounts_trendOf {keys : List TrendKey} {t : TrendTally}
    {rows : List (TrendKey × ActivityDTO)} (ht : TalliesRows rows t)
    (hkeys : keys.Pairwise fun k k' => k.before k' = true) (hcovers : ∀ row ∈ rows, row.1 ∈ keys) :
    (trendOf localeCompare range keys t).Accounts rows := by
  have hnodup : keys.Nodup := hkeys.imp fun hlt heq => by
    rw [heq, TrendKey.before_irrefl] at hlt
    cases hlt
  -- every series is drawn over the same keys, and these cover the rows
  have hpoints : ∀ rows' : List (TrendKey × ActivityDTO), rows'.Sublist rows →
      ((smoothTrendSeries keys (OrdMap.tally Prod.fst rows') range.bucket).points.map
        (·.count)).sum = rows'.length := fun rows' hsub =>
    sum_series hnodup fun row hrow => hcovers row (hsub.subset hrow)
  have hbyKind : ∀ row ∈ (trendOf localeCompare range keys t).byKind,
      row.count = (kindRows rows row.kind).length := by
    intro row hrow
    obtain ⟨b, hb, rfl⟩ := List.mem_map.mp (mem_sortBy.mp hrow)
    have hget : t.kindCounts.get? b.1 = some b.2 := OrdMap.mem_entries_iff.mp hb
    have hcount := OrdMap.count_tally (·.2.kind) rows b.1
    rw [← ht.kindCounts, OrdMap.count, hget, Option.getD_some] at hcount
    rw [hcount, kindRows, List.countP_eq_length_filter]
  refine ⟨?_, ?_, ht.total, ?_, ?_, ?_, hbyKind, ?_, ?_⟩
  · rw [trendOf, keys_smoothTrendSeries]
    exact hkeys
  · rw [trendOf, keys_smoothTrendSeries]
    exact hcovers
  · rw [trendOf, ht.countByKey, ht.total]
    exact hpoints rows (List.Sublist.refl rows)
  · intro s hs
    rcases List.mem_cons.mp hs with rfl | hs
    · rw [ht.chartTotalCountByKey, ht.chartTotal]
      exact hpoints _ List.filter_sublist
    · obtain ⟨row, hrow, rfl⟩ := List.mem_map.mp hs
      rw [ht.countByKeyByKind, hbyKind row hrow]
      exact hpoints _ List.filter_sublist
  · rintro s ⟨⟩
    exact ⟨rfl, ht.chartTotal⟩
  · have hsum := OrdMap.sum_tally (·.2.kind) rows
    rw [← ht.kindCounts, ← ht.total] at hsum
    refine Eq.trans ?_ hsum
    rw [OrdMap.sum, OrdMap.values]
    refine ((sortBy_perm _ _).map _).sum_eq.trans ?_
    rw [List.map_map]
    rfl
  · have hsum := OrdMap.sum_tally (fun row => (row.2.sourceId, row.2.projectPath)) rows
    rw [← ht.repoCounts, ← ht.total] at hsum
    refine Eq.trans ?_ hsum
    rw [OrdMap.sum, OrdMap.values]
    refine ((sortBy_perm _ _).map _).sum_eq.trans ?_
    rw [List.map_map]
    rfl

/-- **The buckets of a range** hold the key of every activity of it that
does not stray in. -/
theorem exists_trendKeys (activities : List ActivityDTO) (tz : Tz) (h : range.InYears)
    (hin : ∀ a ∈ activities, ¬range.StraysIn tz a) :
    ∃ keys turns, (∀ fuel, turns < fuel →
      activityTrendBuckets fuel range range.bucket = some keys) ∧
      (keys.Pairwise fun k k' => k.before k' = true) ∧
      ∀ row ∈ countedRows range range.bucket tz activities, row.1 ∈ keys := by
  obtain ⟨a, b, hle, ha, hb, rfl⟩ := exists_days h.valid
  have hdays := daysBetween_eq h.fromYear hle
  have hhour : (TrendRange.mk (dateFromDays a) (dateFromDays b)).bucket = .hour → a = b := by
    intro hbucket
    have hone := trendBucketOf_hour hbucket
    unfold TrendRange.days at hone
    simp only at hone
    omega
  obtain ⟨keys, turns, hkeys, hascending, hcovers⟩ :=
    activityTrendBuckets_spec h.fromYear hle h.toYear hhour tz
  refine ⟨keys, turns, hkeys, hascending, fun row hrow => ?_⟩
  obtain ⟨n, ms, hn, hn', hkey⟩ := exists_day_of_counted ha hb hin hrow
  rw [hkey]
  exact hcovers n ms hn hn'

/-- **The trend loses nothing.** Over a range of the years 100 to 9998 the
bucket loops end, and where no activity's day strays in, every activity of
the range is counted in one bucket, one kind and one repository. -/
theorem buildActivityTrend_accounts (localeCompare : String → String → Ordering)
    (activities : List ActivityDTO) (tz : Tz) (h : range.InYears)
    (hin : ∀ a ∈ activities, ¬range.StraysIn tz a) : ∃ turns, ∀ fuel, turns < fuel →
      ∃ trend, buildActivityTrend localeCompare fuel activities range tz = some trend ∧
        trend.Accounts (countedRows range range.bucket tz activities) := by
  obtain ⟨keys, turns, hkeys, hascending, hcovers⟩ := exists_trendKeys activities tz h hin
  have haccounts : (trendOf localeCompare range keys
      (activities.foldl (countTrend range range.bucket tz) .empty)).Accounts
        (countedRows range range.bucket tz activities) :=
    accounts_trendOf (talliesRows_foldl activities) hascending hcovers
  refine ⟨turns, fun fuel hfuel => ⟨_, ?_, haccounts⟩⟩
  unfold buildActivityTrend
  rw [h.valid]
  simp only
  rw [hkeys fuel hfuel, Option.map_some]

end Accounts

/-! ## A fortnight -/

namespace Fortnight

/-- The first half of June 2026. -/
def juneFortnight : TrendRange := ⟨⟨2026, 6, 1⟩, ⟨2026, 6, 14⟩⟩

/-- A commit read from GitHub at an instant. -/
def commitAt (occurredAt : String) : ActivityDTO :=
  { sourceId := ⟨"github:github.com", noBarGithub⟩, externalId := "commit:1", kind := "commit",
    action := "committed", projectPath := some "o/r", targetKind := none, targetRef := none,
    targetIid := none, title := none, actor := none, occurredAt }

/-- A commit of the late evening of 9 June in Havana, a review of two days
later, and a commit of the year 10000. -/
def activities : List ActivityDTO :=
  [commitAt "2026-06-10T02:00:00Z",
    { commitAt "2026-06-11T12:00:00Z" with kind := "review", action := "approved" },
    commitAt "+010000-01-01T10:00:00Z"]

example : (buildActivityTrend compare 15 activities juneFortnight (.zone havana)).map
    (fun trend => (trend.total, trend.line.points.map (·.count))) =
    some (2, [0, 0, 0, 0, 0, 0, 0, 0, 1, 0, 1, 0, 0, 0]) := by decide +kernel

end Fortnight

open Fortnight in
theorem buildActivityTrend_accounts_fortnight : ∃ turns, ∀ fuel, turns < fuel →
    ∃ trend, buildActivityTrend compare fuel activities juneFortnight (.zone havana) = some trend ∧
      trend.Accounts
        (countedRows juneFortnight juneFortnight.bucket (.zone havana) activities) :=
  buildActivityTrend_accounts compare activities (.zone havana)
    ⟨by decide +kernel, by decide +kernel, by decide +kernel⟩ (by decide +kernel)

end SymphonyBoard
