import SymphonyBoard.Common.Compare
import SymphonyBoard.Common.Tally
import SymphonyBoard.Contract.Days
/-!
# The activity heatmap

The 53-week calendar of `packages/ui/src/model.ts`, built from the raw
activities (`buildActivityHeatmap`) or from the producer's counts per day
and kind (`buildActivityHeatmapFromDaily`). Both hand their counts to
`assembleHeatmap`.

Days compare as texts, of which a later year's may be longer. An object
from kinds to counts is a map, as long as no kind is a name that objects
inherit. `localeCompare` orders the kinds. A window that starts on no date
throws, and the result is `none`.
-/

namespace SymphonyBoard

/-- `HEATMAP_WEEKS` -/
def heatmapWeeks : ℕ := 53

/-- `HEATMAP_MONTH_LABEL_MIN_COLS` -/
def heatmapMonthLabelMinCols : ℕ := 3

/-- `HEATMAP_MONTH_LABELS` -/
def heatmapMonthLabels : List String :=
  ["Jan", "Feb", "Mar", "Apr", "May", "Jun", "Jul", "Aug", "Sep", "Oct", "Nov", "Dec"]

/-- A day of the calendar. -/
structure HeatmapCell where
  date : DateOnly
  count : ℕ
  level : ℕ

/-- The activities of a kind. -/
structure ActivityKindCount where
  kind : String
  count : ℕ

/-- The name of a month over the column it opens in. -/
structure MonthLabel where
  col : ℕ
  label : String

/-- The calendar. `fromDate` and `toDate` are the source's `from` and `to`. -/
structure ActivityHeatmap where
  weeks : List (List (Option HeatmapCell))
  monthLabels : List MonthLabel
  fromDate : DateOnly
  toDate : DateOnly
  total : ℕ
  activeDays : ℕ
  dayCount : ℤ
  maxCount : ℕ
  busiest : Option HeatmapCell
  byKind : List ActivityKindCount

/-! ## Levels -/

/-- The level of a count, by quartiles of the counts that are not 0. -/
def heatmapLevelFn (counts : List ℕ) (count : ℕ) : ℕ :=
  let nonzero := sortBy compare (counts.filter (0 < ·))
  -- quartile `q` of four
  let at? := fun q : ℕ =>
    (nonzero[min (nonzero.length - 1) (q * nonzero.length / 4)]?).getD 0
  if nonzero = [] ∨ count = 0 then 0
  else if count ≤ at? 1 then 1
  else if count ≤ at? 2 then 2
  else if count ≤ at? 3 then 3
  else 4

/-! ## The grid -/

/-- The midnight of a date that has a day, in UTC. -/
def dateOnlyUtcMs (date : DateOnly) : ℤ :=
  let d := date.numbers.getD date
  dateUTC d.year (d.month - 1) d.day 0 0 0 0

/-- The whole days between two dates, none if the second is earlier. -/
def daysBetween (fromDate toDate : DateOnly) : ℤ :=
  max 0 ((dateOnlyUtcMs toDate - dateOnlyUtcMs fromDate) / dayMs)

/-- The cell of a day after the start, `start` being the numbers of the
start's text. -/
def heatmapCell (countByDay : OrdMap DateOnly ℕ) (start today : DateOnly) (i : ℕ) :
    Option HeatmapCell :=
  let date := shiftNumbers start i
  if today.before date then none
  else
    let count := countByDay.count date
    some { date, count, level := heatmapLevelFn countByDay.values count }

/-- The busiest cell so far, with its count. -/
def busier (busiest : Option HeatmapCell × ℕ) (cell : Option HeatmapCell) :
    Option HeatmapCell × ℕ :=
  match cell with
  | some c => if busiest.2 < c.count then (some c, c.count) else busiest
  | none => busiest

/-- `Number(date.slice(5, 7))`: the month, but the last digits of a signed
year's six. -/
def slicedMonth (date : DateOnly) : ℤ :=
  if date.isCut then date.year.natAbs % 100 else date.month

/-- A column is labelled when its Sunday opens a month not yet labelled. -/
def openMonth (start : DateOnly) (labels : List MonthLabel × ℤ) (col : ℕ) :
    List MonthLabel × ℤ :=
  let colMonth := slicedMonth (shiftNumbers start (col * 7)) - 1
  if colMonth = labels.2 then labels
  else
    let label := if colMonth < 0 then none else heatmapMonthLabels[colMonth.toNat]?
    (labels.1 ++ [⟨col, label.getD ""⟩], colMonth)

/-- A label gives way when the next month opens within three columns of it. -/
def giveWay (label : MonthLabel) (later : List MonthLabel) : List MonthLabel :=
  match later with
  | next :: _ => if next.col - label.col < heatmapMonthLabelMinCols then later else label :: later
  | [] => [label]

/-- The larger count first, ties by the kind's name. -/
def kindOrder (localeCompare : String → String → Ordering) (a b : ActivityKindCount) : Ordering :=
  (compare b.count a.count).then (localeCompare a.kind b.kind)

/-- The calendar of what was counted from `startKey` through today. Every
date of the grid is read off `startKey`, which has to be one. -/
def assembleHeatmap (localeCompare : String → String → Ordering) (countByDay : OrdMap DateOnly ℕ)
    (kindCounts : OrdMap String ℕ) (total : ℕ) (startKey today : DateOnly) :
    Option ActivityHeatmap :=
  startKey.numbers.map fun start =>
    let weeks := (List.range heatmapWeeks).map fun col =>
      (List.range 7).map fun row => heatmapCell countByDay start today (col * 7 + row)
    let busiest := weeks.flatten.foldl busier (none, 0)
    let monthLabels := ((List.range heatmapWeeks).foldl (openMonth start) ([], -1)).1
    { weeks
      monthLabels := monthLabels.foldr giveWay []
      fromDate := startKey
      toDate := today
      total
      activeDays := (countByDay.values.filter (0 < ·)).length
      dayCount := daysBetween startKey today + 1
      maxCount := busiest.2
      busiest := busiest.1
      byKind := sortBy (kindOrder localeCompare)
        (kindCounts.entries.map fun e => ⟨e.1, e.2⟩) }

/-! ## From the activities -/

/-- What the loops over the rows carry. -/
structure HeatmapCounts where
  countByDay : OrdMap DateOnly ℕ
  kindCounts : OrdMap String ℕ
  total : ℕ

/-- Nothing has been counted. -/
def HeatmapCounts.empty : HeatmapCounts := ⟨.empty, .empty, 0⟩

/-- The Sunday 52 weeks before today's week. -/
def heatmapStart (today : DateOnly) (endWeekday : ℤ) : Option DateOnly :=
  shiftDateOnly today (-(endWeekday + (heatmapWeeks - 1) * 7))

/-- An activity without an instant, or outside the window, is passed over. -/
def countForHeatmap (tz : Tz) (startKey today : DateOnly) (counts : HeatmapCounts)
    (a : ActivityDTO) : HeatmapCounts :=
  match timestampMs (some a.occurredAt) with
  | none => counts
  | some ms =>
    let key := zonedDateOnly ms tz
    if key.before startKey ∨ today.before key then counts
    else
      { countByDay := counts.countByDay.addAt key 1
        kindCounts := counts.kindCounts.addAt a.kind 1
        total := counts.total + 1 }

/-- The heatmap of the raw activities. -/
def buildActivityHeatmap (localeCompare : String → String → Ordering)
    (activities : List ActivityDTO) (now : ℤ) (tz : Tz) : Option ActivityHeatmap := do
  let today := zonedDateOnly now tz
  let startKey ← heatmapStart today (zonedWeekday now tz)
  let counts := activities.foldl (countForHeatmap tz startKey today) .empty
  assembleHeatmap localeCompare counts.countByDay counts.kindCounts counts.total startKey today

/-! ## From the producer's counts -/

/-- What a day counts, of every kind or of one. -/
def ActivityDayBucket.countOf (bucket : ActivityDayBucket) : Option String → ℕ
  | none => bucket.count
  | some kind => bucket.byKind.count kind

/-- One of the producer's days, likewise; of a kind with no rows that day
nothing is counted. -/
def countDayForHeatmap (kind : Option String) (startKey today : DateOnly)
    (counts : HeatmapCounts) (bucket : DateOnly × ActivityDayBucket) : HeatmapCounts :=
  if bucket.1.before startKey ∨ today.before bucket.1 then counts
  else
    let dayCount := bucket.2.countOf kind
    if dayCount = 0 then counts
    else
      { countByDay := counts.countByDay.addAt bucket.1 dayCount
        kindCounts := bucket.2.byKind.entries.foldl
          (fun m e => if kind.any (· ≠ e.1) then m else m.addAt e.1 e.2) counts.kindCounts
        total := counts.total + dayCount }

/-- The heatmap of the producer's counts, of every kind or of one. -/
def buildActivityHeatmapFromDaily (localeCompare : String → String → Ordering)
    (daily : ActivityDaily) (kind : Option String) : Option ActivityHeatmap := do
  let today := daily.toDate
  let startKey ← heatmapStart today (weekdayOfDays (dateOnlyUtcMs today / dayMs))
  let counts := daily.days.foldl (countDayForHeatmap kind startKey today) .empty
  assembleHeatmap localeCompare counts.countByDay counts.kindCounts counts.total startKey today

end SymphonyBoard
