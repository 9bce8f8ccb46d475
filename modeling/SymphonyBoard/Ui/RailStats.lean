import SymphonyBoard.Common.Compare
import SymphonyBoard.Common.Json
import SymphonyBoard.Common.Tally
import SymphonyBoard.Contract.Types
import SymphonyBoard.Db.ActivityRange
import SymphonyBoard.Shared.Number
import SymphonyBoard.Shared.Zone
/-!
# The rail's panes

The per-day and per-hour aggregates of `packages/ui/src/rail-stats.ts`. Each
walks the rows on its own: `countsByHour`, `countsByDay`, `stackedDays` with
the smaller series folded into one, `churnByDay` and `punchCard`.
`panes_agree` says that over a span that holds the rows they count the same
rows.

A calendar date stands for its text. What a row's day and hour are is
computed here on every call, where the source remembers it on the row.
-/

namespace SymphonyBoard

/-- An activity with its details. -/
structure RailActivity extends ActivityDTO where
  details : Option Json

/-! ## Rows -/

/-- The calendar day and the hour of a row, in a zone. -/
structure ZonedParts where
  date : DateOnly
  hour : ℤ

/-- The calendar day and hour of a row, none for an unparseable instant. -/
def zonedOf (tz : Tz) (a : RailActivity) : Option ZonedParts :=
  (dateParseAll a.occurredAt).map fun ms => ⟨zonedDateOnly ms tz, zonedHour ms tz⟩

/-- The day a row falls on. -/
def zonedDateOf (tz : Tz) (a : RailActivity) : Option DateOnly := (zonedOf tz a).map (·.date)

/-- The hour of the day a row falls in. -/
def zonedHourOf (tz : Tz) (a : RailActivity) : Option ℤ := (zonedOf tz a).map (·.hour)

/-- A loop's step on a row with a day; the loops pass over the others. -/
def onDay {β : Type} (tz : Tz) (step : β → DateOnly → RailActivity → β) (acc : β)
    (a : RailActivity) : β :=
  match zonedDateOf tz a with
  | none => acc
  | some date => step acc date a

/-- A detail that is a count. -/
def detailCount (details : Option Json) (key : String) : Option ℕ :=
  match details.bind (·.field? key) with
  | some (.num m s) =>
    if (Json.num m s).isInteger ∧ 0 ≤ m then some (m / 10 ^ s).toNat else none
  | _ => none

/-- Lines added and removed by a commit. -/
structure CommitStats where
  additions : ℕ
  deletions : ℕ

/-- The commit's line counts. -/
def commitStats (a : RailActivity) : Option CommitStats :=
  match detailCount a.details "additions", detailCount a.details "deletions" with
  | some additions, some deletions => some ⟨additions, deletions⟩
  | _, _ => none

/-! ## Days -/

/-- `MAX_DAYS`: a chart has no more days. -/
def maxDays : ℕ := 400

/-- `Date.parse` of a date's midnight: it reads the dates of the calendar. -/
def dateOnlyMs? (date : DateOnly) : Option ℤ :=
  let n := daysFromDate date.year date.month date.day
  if dateFromDays n = date then some (n * dayMs) else none

/-- The days from an instant on, as long as there is room. -/
def dayLoop (stop : ℤ) : ℕ → ℤ → List DateOnly
  | 0, _ => []
  | room + 1, ms => if ms ≤ stop then dateFromDays (ms / dayMs) :: dayLoop stop room (ms + dayMs)
    else []

/-- The days of an inclusive span, walked in UTC days. -/
def enumerateDays (fromDate toDate : DateOnly) : List DateOnly :=
  match dateOnlyMs? fromDate, dateOnlyMs? toDate with
  | some start, some stop => if stop < start then [] else dayLoop stop maxDays start
  | _, _ => []

/-! ## Counts by hour and by day -/

/-- One hour of the day and its rows. -/
structure HourBucket where
  hour : ℕ
  count : ℕ

/-- One more row in the hour. -/
def HourBucket.add (bucket : HourBucket) : HourBucket := { bucket with count := bucket.count + 1 }

/-- A row counted in its hour; one without an instant is passed over. -/
def countHour (tz : Tz) (buckets : List HourBucket) (a : RailActivity) : List HourBucket :=
  match zonedHourOf tz a with
  | none => buckets
  | some hour => buckets.modify hour.toNat HourBucket.add

/-- The rows of each of the 24 hours. -/
def countsByHour (activities : List RailActivity) (tz : Tz) : List HourBucket :=
  activities.foldl (countHour tz) ((List.range 24).map fun hour => ⟨hour, 0⟩)

/-- One day and its rows. -/
structure DayBucket where
  date : DateOnly
  count : ℕ

/-- The rows of each day of the span. -/
def countsByDay (activities : List RailActivity) (tz : Tz) (fromDate toDate : DateOnly) :
    List DayBucket :=
  let counts : OrdMap DateOnly ℕ :=
    activities.foldl (onDay tz fun counts date _ => counts.addAt date 1) .empty
  (enumerateDays fromDate toDate).map fun date => ⟨date, counts.count date⟩

/-! ## Stacked days -/

/-- A group with its label and its rows. -/
structure RailRank where
  key : String
  label : String
  count : ℕ

/-- The ranks of a tally: the larger count first, ties by the label. A limit
of 0 is none. -/
def topRanks (localeCompare : String → String → Ordering) (counts : OrdMap String ℕ) (limit : ℕ) :
    List RailRank :=
  let ranks := sortBy (fun a b => (compare b.count a.count).then (localeCompare a.label b.label))
    (counts.entries.map fun e => ⟨e.1, e.1, e.2⟩)
  if 0 < limit then ranks.take limit else ranks

/-- How far `slice(0, Math.max(0, limit))` reaches into a list. -/
def sliceEnd (limit : JsNumber) (length : ℕ) : ℕ :=
  match limit with
  | .finite value => ⌊max 0 value⌋.toNat
  | .infinite negative => if negative then 0 else length
  | .nan => 0

/-- `STACK_FOLD_KEY`: the series the small ones are folded into. -/
def stackFoldKey : String := "other"

/-- One day of the stack: its rows, and those of each series. -/
structure StackedDay where
  date : DateOnly
  total : ℕ
  segments : List ℕ

/-- The stack: its series, its days, and the tallest of them. -/
structure StackedDays where
  series : List RailRank
  days : List StackedDay
  max : ℕ

/-- The series a row belongs to. -/
structure SeriesKey where
  key : String
  label : String

/-- The tallies of one walk over the rows. -/
structure StackTally where
  totals : OrdMap String ℕ
  labels : OrdMap String String
  perDay : OrdMap DateOnly (OrdMap String ℕ)

/-- A row counted on its day and in its series. -/
def StackTally.add (keyOf : RailActivity → SeriesKey) (t : StackTally) (date : DateOnly)
    (a : RailActivity) : StackTally :=
  let k := keyOf a
  { totals := t.totals.addAt k.key 1
    labels := t.labels.set k.key k.label
    perDay := t.perDay.upsert date fun day => (day.getD .empty).addAt k.key 1 }

/-- One series after the other put on a day's bar. A key that is not kept
goes to the last series. -/
def stackedDay (kept series : List RailRank) (date : DateOnly) (counts : OrdMap String ℕ) :
    StackedDay :=
  counts.entries.foldl (fun day e =>
    let index := if e.1 ∈ kept.map (·.key) then series.findIdx (·.key = e.1)
      else series.length - 1
    { day with
      segments := day.segments.modify index (· + e.2)
      total := day.total + e.2 })
    { date, total := 0, segments := series.map fun _ => 0 }

/-- The rows of each day by series: the largest of them, the others folded -/
def stackedDays (localeCompare : String → String → Ordering) (activities : List RailActivity)
    (tz : Tz) (fromDate toDate : DateOnly) (keyOf : RailActivity → SeriesKey) (limit : JsNumber) :
    StackedDays :=
  let t := activities.foldl (onDay tz (StackTally.add keyOf)) ⟨.empty, .empty, .empty⟩
  let named := (topRanks localeCompare t.totals 0).filter (·.key ≠ stackFoldKey)
  let kept := named.take (sliceEnd limit named.length)
  let foldTotal := ((t.totals.entries.filter fun e => e.1 ∉ kept.map (·.key)).map Prod.snd).sum
  let keptSeries := kept.map fun rank =>
    { rank with label := (t.labels.get? rank.key).getD rank.key }
  let series := keptSeries ++
    if 0 < foldTotal then [⟨stackFoldKey, stackFoldKey, foldTotal⟩] else []
  let days := (enumerateDays fromDate toDate).map fun date =>
    stackedDay kept series date ((t.perDay.get? date).getD .empty)
  { series, days, max := (days.map (·.total)).foldl max 0 }

/-! ## Lines changed -/

/-- A day's commits, and the lines of those that have counts. -/
structure ChurnDay where
  date : DateOnly
  additions : ℕ
  deletions : ℕ
  counted : ℕ
  commits : ℕ

/-- A day without commits. -/
def ChurnDay.zero (date : DateOnly) : ChurnDay := ⟨date, 0, 0, 0, 0⟩

/-- A commit on its day. -/
def ChurnDay.add (a : RailActivity) (day : ChurnDay) : ChurnDay :=
  let day := { day with commits := day.commits + 1 }
  match commitStats a with
  | none => day
  | some stats =>
    { day with
      additions := day.additions + stats.additions
      deletions := day.deletions + stats.deletions
      counted := day.counted + 1 }

/-- The commits of each day of the span. -/
def churnByDay (activities : List RailActivity) (tz : Tz) (fromDate toDate : DateOnly) :
    List ChurnDay :=
  let byDate : OrdMap DateOnly ChurnDay := activities.foldl (onDay tz fun byDate date a =>
    byDate.upsert date fun day => (day.getD (.zero date)).add a) .empty
  (enumerateDays fromDate toDate).map fun date => (byDate.get? date).getD (.zero date)

/-! ## Day by hour -/

/-- A row of the grid: a date, or a weekday the dates are folded onto. -/
inductive PunchKey
  | date (date : DateOnly)
  | weekday (day : ℤ)
deriving DecidableEq

/-- The rows of the card by weekday, Monday first. -/
def weekdayRows : List ℤ := [1, 2, 3, 4, 5, 6, 0]

/-- `PUNCH_CARD_DAY_ROWS_MAX`: a longer span is shown by weekdays. -/
def punchCardDayRowsMax : ℕ := 14

/-- A row of the card: its 24 hours and their sum. -/
structure PunchRow where
  key : PunchKey
  weekday : ℤ
  total : ℕ
  hours : List ℕ

/-- The cell with the most rows. -/
structure PunchPeak where
  key : PunchKey
  weekday : ℤ
  hour : ℕ
  count : ℕ

/-- The punch card. -/
structure PunchCard where
  rows : List PunchRow
  byWeekday : Bool
  max : ℕ
  peak : Option PunchPeak

/-- The weekday of a date. -/
def weekdayOf (date : DateOnly) : ℤ :=
  weekdayOfDays (daysFromDate date.year date.month date.day)

/-- A row without counts. -/
def PunchRow.empty (key : PunchKey) (weekday : ℤ) : PunchRow :=
  { key, weekday, total := 0, hours := List.replicate 24 0 }

/-- One more count in an hour of the row. -/
def PunchRow.add (hour : ℕ) (row : PunchRow) : PunchRow :=
  { row with hours := row.hours.modify hour (· + 1), total := row.total + 1 }

/-- A row of the list counted on its row of the grid. -/
def punchRow (tz : Tz) (rowKey : DateOnly → PunchKey) (rows : List PunchRow) (date : DateOnly)
    (a : RailActivity) : List PunchRow :=
  match rows.findIdx? (·.key = rowKey date) with
  | none => rows
  | some i => rows.modify i (PunchRow.add ((zonedHourOf tz a).getD 0).toNat)

/-- One more count, the first largest of the grid so far. -/
def punchPeak (row : PunchRow) (peak : Option PunchPeak) (cell : ℕ × ℕ) : Option PunchPeak :=
  if 0 < cell.1 ∧ peak.all (·.count < cell.1) then
    some { key := row.key, weekday := row.weekday, hour := cell.2, count := cell.1 }
  else peak

/-- The card of a span: a row for each day, or for each weekday of a long span. -/
def punchCard (activities : List RailActivity) (tz : Tz) (fromDate toDate : DateOnly) :
    PunchCard :=
  let dates := enumerateDays fromDate toDate
  let byWeekday : Bool := punchCardDayRowsMax < dates.length
  let rowKey := fun date : DateOnly =>
    if byWeekday then PunchKey.weekday (weekdayOf date) else .date date
  let blank := if byWeekday then weekdayRows.map fun day => PunchRow.empty (.weekday day) day
    else dates.map fun date => PunchRow.empty (.date date) (weekdayOf date)
  let rows := activities.foldl (onDay tz (punchRow tz rowKey)) blank
  let peak := rows.foldl (fun peak row => row.hours.zipIdx.foldl (punchPeak row) peak) none
  { rows, byWeekday, max := (peak.map (·.count)).getD 0, peak }

end SymphonyBoard
