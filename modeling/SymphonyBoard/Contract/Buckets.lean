import SymphonyBoard.Common.Tiling
import SymphonyBoard.Contract.Days
/-!
# The buckets of a range

`bucketRanges` of `contract/build.ts` with its sub-day branch, and the width
it is asked for. Every bucket runs from one mark to the next, and a mark is
where the lookups put a wall clock of the zone; the buckets tile the range
as long as the marks do not go back (`seriesBucketRanges_tile`).
-/

namespace SymphonyBoard

/-- How long a bucket is. -/
inductive RepoMetricBucket
  | hours2
  | hours4
  | hours6
  | day
  | week
  | month
deriving DecidableEq, Repr

/-- The days a range covers, the last one counted whole. -/
def windowDays (range : MsRange) : ℤ :=
  if range.toMs < range.fromMs then 0 else (range.toMs - range.fromMs + 1 + (dayMs - 1)) / dayMs

/-- `repoMetricBucket`: short ranges get short buckets. -/
def repoMetricBucket (range : MsRange) : RepoMetricBucket :=
  let days := windowDays range
  if days ≤ 1 then .hours2
  else if days ≤ 2 then .hours4
  else if days ≤ 3 then .hours6
  else if days ≤ 31 then .day
  else if days ≤ 180 then .week
  else .month

/-- The instant an hour of a local day starts; hour 24 is the next day's
start. -/
def zonedHourStartIso (date : DateOnly) (hour : ℤ) (tz : Tz) : Option ℤ :=
  if 24 ≤ hour then (shiftDateOnly date 1).bind (zonedDayStartIso · tz)
  else
    match tz with
    | .utc => some (utcDay date * dayMs + hour * 3600000)
    | .zone z => date.numbers.map fun d => zonedWallToInstantMs d.year d.month d.day hour 0 0 0 z

/-- The loop over the hours of a date, and on to the next date after them. A
bucket that is left empty is not kept. The fuel bounds its turns; `none` is
that it runs out, or a date that cannot be read. -/
def subDayLoop (range : MsRange) (stepHours : ℤ) (tz : Tz) :
    ℕ → DateOnly → ℤ → Option (List MsRange)
  | 0, _, _ => none
  | fuel + 1, cursorDate, hour =>
    if hour < 24 then do
      let startMs ← zonedHourStartIso cursorDate hour tz
      if range.toMs < startMs then some []
      else do
        let nextMs ← zonedHourStartIso cursorDate (hour + stepHours) tz
        let bucket : MsRange := ⟨max startMs range.fromMs, min (nextMs - 1) range.toMs⟩
        (subDayLoop range stepHours tz fuel cursorDate (hour + stepHours)).map fun buckets =>
          if bucket.fromMs ≤ bucket.toMs then bucket :: buckets else buckets
    else do
      let nextDate ← shiftDateOnly cursorDate 1
      subDayLoop range stepHours tz fuel nextDate 0

/-- `subDayBucketRanges`: the buckets of each day, as many days as `fuel` allows. -/
def subDayBucketRanges (fuel : ℕ) (range : MsRange) (stepHours : ℤ) (tz : Tz) :
    Option (List MsRange) :=
  if range.toMs < range.fromMs then some []
  else subDayLoop range stepHours tz fuel (zonedDateOnly range.fromMs tz) 0

/-- `bucketRanges`, for every width. -/
def seriesBucketRanges (fuel : ℕ) (range : MsRange) (bucket : RepoMetricBucket) (tz : Tz) :
    Option (List MsRange) :=
  match bucket with
  | .hours2 => subDayBucketRanges fuel range 2 tz
  | .hours4 => subDayBucketRanges fuel range 4 tz
  | .hours6 => subDayBucketRanges fuel range 6 tz
  | .day => bucketRanges fuel range .day tz
  | .week => bucketRanges fuel range .week tz
  | .month => bucketRanges fuel range .month tz

/-! ## Marks -/

section Marks

/-- The offset the formatter reports, 0 for UTC. -/
def Tz.reported : Tz → ℤ → ℤ
  | .utc, _ => 0
  | .zone z, ms => offsetMsAt ms z

/-- The instant the lookups put a wall clock at, both read as UTC. -/
def Tz.mark : Tz → ℤ → ℤ
  | .utc, wall => wall
  | .zone z, wall => wall - settledOffset wall z

variable {tz : Tz} {n wall : ℤ}

/-- The instant whose offset a wall clock is put at with. -/
def Tz.lookup (tz : Tz) (wall : ℤ) : ℤ := wall - tz.reported wall

theorem Tz.mark_eq (tz : Tz) (wall : ℤ) : tz.mark wall = wall - tz.reported (tz.lookup wall) := by
  cases tz with
  | utc => simp [Tz.mark, Tz.reported]
  | zone z => rfl

theorem dayStart_eq_mark (tz : Tz) (n : ℤ) : dayStart tz n = tz.mark (n * dayMs) := by
  cases tz with
  | utc => rfl
  | zone z => rfl

/-- A day with a date in full before it and behind it: its year is one
`Date.UTC` takes as it stands, and the next day reads back. -/
def InReach (n : ℤ) : Prop := 100 ≤ (dateFromDays n).year ∧ FourDigitDay (n + 1)

theorem shiftDateOnly_next (h : InReach n) :
    shiftDateOnly (dateFromDays n) 1 = some (dateFromDays (n + 1)) := by
  rw [shiftDateOnly_dateFromDays h.1, isoDate_eq h.2]

theorem nextDayStart_eq (tz : Tz) (h : InReach n) :
    nextDayStart tz n = some (dayStart tz (n + 1)) := by
  rw [nextDayStart, shiftDateOnly_next h, Option.bind_some,
    zonedDayStartIso_dateFromDays tz (year_succ h.1)]

/-- An hour of a date starts at its mark, the last one at the next date's. -/
theorem zonedHourStartIso_eq_mark (tz : Tz) (h : InReach n) {hour : ℤ} (hhour : hour ≤ 24) :
    zonedHourStartIso (dateFromDays n) hour tz = some (tz.mark (n * dayMs + hour * 3600000)) := by
  unfold zonedHourStartIso
  split
  · obtain rfl : hour = 24 := by omega
    have hnext : n * dayMs + 24 * 3600000 = (n + 1) * dayMs := by
      unfold dayMs
      omega
    rw [hnext, ← dayStart_eq_mark]
    exact nextDayStart_eq tz h
  · cases tz with
    | utc => simp only [utcDay_dateFromDays, Tz.mark]
    | zone z =>
      have hyear := h.1
      have hguess := dateUTC_dateFromDays (n := n) (by omega) 0 hour 0 0 0
      simp only [Int.add_zero, Int.zero_mul] at hguess
      simp only [numbers_dateFromDays, Option.map_some, Tz.mark, zonedWallToInstantMs_eq]
      rw [hguess]

/-- Offsets are of less than a day and a second. -/
theorem Tz.reported_bounds (tz : Tz) (ms : ℤ) (h : -683000 * dayMs ≤ ms) :
    -dayMs - 1000 < tz.reported ms ∧ tz.reported ms < dayMs + 1000 := by
  have hday : dayMs = 86400000 := rfl
  cases tz with
  | utc =>
    simp only [Tz.reported]
    omega
  | zone z =>
    have hb := z.bounded ms
    have hclock : z.clock ms = ms + z.offset ms := rfl
    simp only [Tz.reported]
    rw [offsetMsAt_of_late (by omega)]
    omega

/-- A mark is within a day and a second of its wall clock, and so is the
instant it is looked up at. -/
theorem Tz.mark_bounds (tz : Tz) (wall : ℤ) (h : -682990 * dayMs ≤ wall) :
    (wall - dayMs - 1000 < tz.mark wall ∧ tz.mark wall < wall + dayMs + 1000) ∧
      wall - dayMs - 1000 < tz.lookup wall ∧ tz.lookup wall < wall + dayMs + 1000 := by
  have hday : dayMs = 86400000 := rfl
  have hfirst := tz.reported_bounds wall (by omega)
  have hlookup : tz.lookup wall = wall - tz.reported wall := rfl
  have hsecond := tz.reported_bounds (tz.lookup wall) (by omega)
  rw [tz.mark_eq]
  omega

/-- About the range the offset never grows by more than `slack` within four
days. -/
def Steady (tz : Tz) (range : MsRange) (slack : ℤ) : Prop :=
  ∀ t t', range.fromMs - 4 * dayMs ≤ t → t ≤ range.toMs + 4 * dayMs →
    range.fromMs - 4 * dayMs ≤ t' → t' ≤ range.toMs + 4 * dayMs → t < t' + 4 * dayMs →
      t' < t + 4 * dayMs → tz.reported t' ≤ tz.reported t + slack

/-- **Marks of a steady zone keep their distance**, but for the slack. -/
theorem Tz.mark_le (tz : Tz) {range : MsRange} {slack : ℤ} (hsteady : Steady tz range slack)
    (wall wall' : ℤ) (hlate : -682990 * dayMs ≤ wall) (hfrom : range.fromMs - 2 * dayMs ≤ wall)
    (hto : wall' ≤ range.toMs + 2 * dayMs + 1000) (hle : wall ≤ wall')
    (hday : wall' ≤ wall + dayMs) : tz.mark wall + (wall' - wall) ≤ tz.mark wall' + slack := by
  have hms : dayMs = 86400000 := rfl
  obtain ⟨-, hlow, hhigh⟩ := tz.mark_bounds wall hlate
  obtain ⟨-, hlow', hhigh'⟩ := tz.mark_bounds wall' (by omega)
  have hgrows := hsteady (tz.lookup wall) (tz.lookup wall') (by omega) (by omega) (by omega)
    (by omega) (by omega) (by omega)
  rw [tz.mark_eq, tz.mark_eq]
  omega

end Marks

/-! ## The loops -/

section Loops

variable {tz : Tz} {range : MsRange} {g : ℕ → ℤ} {k : ℕ}

/-- A range as a half-open piece. -/
def MsRange.piece (range : MsRange) : ℤ × ℤ := (range.fromMs, range.toMs + 1)

/-- The bucket from one mark to the next. -/
def markBucket (range : MsRange) (g : ℕ → ℤ) (i : ℕ) : MsRange :=
  ⟨max (g i) range.fromMs, min (g (i + 1) - 1) range.toMs⟩

@[simp] theorem piece_markBucket (i : ℕ) :
    (markBucket range g i).piece = clippedPiece range.fromMs (range.toMs + 1) g i := by
  unfold markBucket MsRange.piece clippedPiece
  simp only [Prod.mk.injEq, true_and]
  omega

/-- Marks that grow pass every instant, one of them first. -/
theorem exists_first_past {wall : ℤ} {slack : ℤ} (hgrow : ∀ i : ℕ, wall + i - slack < g i) (t : ℤ) :
    ∃ k, t < g k ∧ ∀ i < k, g i ≤ t := by
  have hsome : ∃ k, t < g k := by
    refine ⟨(t - wall + slack).toNat, ?_⟩
    have := hgrow (t - wall + slack).toNat
    omega
  exact ⟨Nat.find hsome, Nat.find_spec hsome, fun i hi => not_lt.mp (Nat.find_min hsome hi)⟩

/-- What is left of the marks after the first. -/
theorem map_range_succ {β : Type*} (f : ℕ → β) (k : ℕ) :
    (List.range (k + 1)).map f = f 0 :: (List.range k).map fun i => f (i + 1) := by
  rw [List.range_succ_eq_map, List.map_cons, List.map_map]
  rfl

/-- **The loop over days gives a bucket for each mark** it passes. -/
theorem bucketLoop_marks {bucket : DayBucketWidth} {m : ℕ → ℤ}
    (hyear : ∀ i, 100 ≤ (dateFromDays (m i)).year)
    (hstep : ∀ i < k,
      advanceBucketDate (dateFromDays (m i)) bucket = some (dateFromDays (m (i + 1))))
    (hlt : ∀ i < k, dayStart tz (m i) ≤ range.toMs) (hk : range.toMs < dayStart tz (m k)) :
    ∀ fuel, k < fuel → bucketLoop range bucket tz fuel (dateFromDays (m 0)) (dayStart tz (m 0)) =
      some ((List.range k).map (markBucket range fun i => dayStart tz (m i))) := by
  induction k generalizing m with
  | zero =>
    intro fuel hfuel
    obtain ⟨fuel, rfl⟩ := Nat.exists_eq_succ_of_ne_zero (by omega : fuel ≠ 0)
    unfold bucketLoop
    rw [if_neg (by omega)]
    rfl
  | succ k ih =>
    intro fuel hfuel
    obtain ⟨fuel, rfl⟩ := Nat.exists_eq_succ_of_ne_zero (by omega : fuel ≠ 0)
    have hrest := ih (m := fun i => m (i + 1)) (fun i => hyear (i + 1))
      (fun i hi => hstep (i + 1) (by omega)) (fun i hi => hlt (i + 1) (by omega)) hk fuel (by omega)
    have hhere := hlt 0 (by omega)
    have hread := zonedDayStartIso_dateFromDays tz (hyear 1)
    rw [bucketLoop, if_pos hhere, hstep 0 (by omega)]
    simp only [Nat.zero_add, Option.bind_eq_bind, Option.bind_some, hread] at hrest ⊢
    rw [hrest, Option.map_some, map_range_succ]
    rfl

/-- The marks of a sub-day width, from a wall clock on. -/
def hourMark (tz : Tz) (wall stepMs : ℤ) (i : ℕ) : ℤ := tz.mark (wall + i * stepMs)

/-- From an hour on, the loop gives a bucket for each of the `k` marks it
passes, those left empty apart. -/
def GivesHours (tz : Tz) (range : MsRange) (stepHours : ℤ) (k fuel : ℕ) (n hour : ℤ) : Prop :=
  let marks := hourMark tz (n * dayMs + hour * 3600000) (stepHours * 3600000)
  (∀ i < k, marks i ≤ range.toMs) → range.toMs < marks k →
    subDayLoop range stepHours tz fuel (dateFromDays n) hour =
      some (((List.range k).map (markBucket range marks)).filter fun b => b.fromMs ≤ b.toMs)

variable {stepHours n hour : ℤ} {fuel : ℕ}

/-- Hour 24 of a date is hour 0 of the next. -/
theorem givesHours_midnight (hreach : InReach n)
    (h : GivesHours tz range stepHours k fuel (n + 1) 0) :
    GivesHours tz range stepHours k (fuel + 1) n 24 := by
  have hwall : n * dayMs + 24 * 3600000 = (n + 1) * dayMs + 0 * 3600000 := by
    unfold dayMs
    omega
  unfold GivesHours at h ⊢
  intro marks hlt hk
  rw [subDayLoop, if_neg (by omega), shiftDateOnly_next hreach]
  simp only [Option.bind_eq_bind, Option.bind_some]
  simp only [marks, hwall] at hlt hk ⊢
  exact h hlt hk

/-- The marks from the next hour on are those after the first. -/
theorem hourMark_succ (tz : Tz) (wall stepMs : ℤ) (i : ℕ) :
    hourMark tz wall stepMs (i + 1) = hourMark tz (wall + stepMs) stepMs i := by
  unfold hourMark
  congr 1
  push_cast
  ring

theorem givesHours_zero (hreach : InReach n) (hhour : hour < 24) :
    GivesHours tz range stepHours 0 (fuel + 1) n hour := by
  unfold GivesHours
  intro marks hlt hk
  have hstart := zonedHourStartIso_eq_mark tz hreach hhour.le
  have hfirst : marks 0 = tz.mark (n * dayMs + hour * 3600000) := by
    simp only [marks, hourMark, Nat.cast_zero, Int.zero_mul, Int.add_zero]
  rw [subDayLoop, if_pos hhour, hstart]
  simp only [Option.bind_eq_bind, Option.bind_some]
  rw [if_pos (hfirst ▸ hk)]
  rfl

theorem givesHours_succ (hreach : InReach n) (hhour : hour + stepHours ≤ 24)
    (hpos : 0 < stepHours) (h : GivesHours tz range stepHours k fuel n (hour + stepHours)) :
    GivesHours tz range stepHours (k + 1) (fuel + 1) n hour := by
  unfold GivesHours at h ⊢
  intro marks hlt hk
  have hwall : n * dayMs + (hour + stepHours) * 3600000 =
      n * dayMs + hour * 3600000 + stepHours * 3600000 := by omega
  have hfirst : zonedHourStartIso (dateFromDays n) hour tz = some (marks 0) := by
    rw [zonedHourStartIso_eq_mark tz hreach (by omega)]
    simp only [marks, hourMark, Nat.cast_zero, Int.zero_mul, Int.add_zero]
  have hnext : zonedHourStartIso (dateFromDays n) (hour + stepHours) tz = some (marks 1) := by
    rw [zonedHourStartIso_eq_mark tz hreach hhour, hwall]
    simp only [marks, hourMark, Nat.cast_one, Int.one_mul]
  have hrest : subDayLoop range stepHours tz fuel (dateFromDays n) (hour + stepHours) =
      some (((List.range k).map fun i => markBucket range marks (i + 1)).filter
        fun b => b.fromMs ≤ b.toMs) := by
    have hmarks : ∀ i, hourMark tz (n * dayMs + (hour + stepHours) * 3600000)
        (stepHours * 3600000) i = marks (i + 1) := fun i => by
      rw [hwall, ← hourMark_succ]
    have hbuckets : markBucket range (hourMark tz (n * dayMs + (hour + stepHours) * 3600000)
        (stepHours * 3600000)) = fun i => markBucket range marks (i + 1) :=
      funext fun i => by simp only [markBucket, hmarks]
    rw [h (fun i hi => hmarks i ▸ hlt (i + 1) (by omega)) (hmarks k ▸ hk), hbuckets]
  have hopen := hlt 0 (by omega)
  rw [subDayLoop, if_pos (by omega), hfirst, hnext]
  simp only [Option.bind_eq_bind, Option.bind_some]
  rw [if_neg (by omega), hrest, Option.map_some, map_range_succ, List.filter_cons]
  simp only [markBucket, decide_eq_true_eq, Nat.zero_add]

/-- **The loop over hours gives a bucket for each mark** it passes, those
left empty apart. -/
theorem subDayLoop_marks (tz : Tz) (range : MsRange) (hpos : 0 < stepHours)
    (hdvd : stepHours ∣ 24) (k : ℕ) :
    ∀ (fuel : ℕ) (n hour : ℤ), 100 ≤ (dateFromDays n).year → 0 ≤ hour → hour ≤ 24 →
      n * dayMs + hour * 3600000 + k * (stepHours * 3600000) + 2 * dayMs ≤ year10000Ms →
      stepHours ∣ hour → 2 * k + 2 ≤ fuel → GivesHours tz range stepHours k fuel n hour := by
  -- the next hour of the grid is still of the date, or its last
  have hgrid : ∀ hour, hour < 24 → stepHours ∣ hour → hour + stepHours ≤ 24 := by
    rintro hour hlt ⟨q, rfl⟩
    obtain ⟨r, hr⟩ := hdvd
    have hqr : q < r := by
      by_contra hn
      have := Int.mul_le_mul_of_nonneg_left (not_lt.mp hn) hpos.le
      omega
    have hnext := Int.mul_le_mul_of_nonneg_left (show q + 1 ≤ r by omega) hpos.le
    rw [Int.mul_add, Int.mul_one] at hnext
    omega
  have hreach : ∀ n : ℤ, 100 ≤ (dateFromDays n).year → n * dayMs + 2 * dayMs ≤ year10000Ms →
      InReach n := by
    intro n hyear hend
    have hn := year_lt_hundred_iff n
    refine ⟨hyear, ?_⟩
    unfold FourDigitDay
    unfold dayMs year10000Ms at hend
    omega
  have hday : dayMs = 86400000 := rfl
  have hnext : ∀ n : ℤ, (n + 1) * dayMs = n * dayMs + dayMs := fun n => by
    rw [Int.add_mul, Int.one_mul]
  induction k with
  | zero =>
    intro fuel n hour hyear h0 h24 hend hstep hfuel
    obtain ⟨fuel, rfl⟩ : ∃ f, fuel = f + 2 := ⟨fuel - 2, by omega⟩
    have hn := hreach n hyear (by omega)
    rcases h24.lt_or_eq with hlt | rfl
    · exact givesHours_zero hn hlt
    · have hn' := hreach (n + 1) (year_succ hyear) (by rw [hnext]; omega)
      exact givesHours_midnight hn (givesHours_zero hn' (by omega))
  | succ k ih =>
    intro fuel n hour hyear h0 h24 hend hstep hfuel
    obtain ⟨fuel, rfl⟩ : ∃ f, fuel = f + 2 := ⟨fuel - 2, by omega⟩
    have hpassed : (0 : ℤ) ≤ k * (stepHours * 3600000) :=
      Int.mul_nonneg (Int.natCast_nonneg k) (by omega)
    have hsucc : ((k + 1 : ℕ) : ℤ) * (stepHours * 3600000) =
        stepHours * 3600000 + k * (stepHours * 3600000) := by
      push_cast
      ring
    have hn := hreach n hyear (by omega)
    rcases h24.lt_or_eq with hlt | rfl
    · exact givesHours_succ hn (hgrid hour hlt hstep) hpos
        (ih _ n (hour + stepHours) hyear (by omega) (hgrid hour hlt hstep) (by omega)
          (Int.dvd_add hstep (Int.dvd_refl stepHours)) (by omega))
    · have hzero := hgrid 0 (by omega) (Int.dvd_zero stepHours)
      have hn' := hreach (n + 1) (year_succ hyear) (by rw [hnext]; omega)
      exact givesHours_midnight hn (givesHours_succ hn' hzero hpos
        (ih _ (n + 1) (0 + stepHours) (year_succ hyear) (by omega) hzero (by rw [hnext]; omega)
          (Int.dvd_add (Int.dvd_zero stepHours) (Int.dvd_refl stepHours)) (by omega)))

/-! Every bucket is cut to the range. -/

/-- A bucket with nothing outside the range. -/
def Inside (range b : MsRange) : Prop := range.fromMs ≤ b.fromMs ∧ b.toMs ≤ range.toMs

theorem bucketLoop_inside {bucket : DayBucketWidth} {date : DateOnly} {start : ℤ}
    {buckets : List MsRange} (h : bucketLoop range bucket tz fuel date start = some buckets) :
    ∀ b ∈ buckets, Inside range b := by
  induction fuel generalizing date start buckets with
  | zero => cases h
  | succ fuel ih =>
    unfold bucketLoop at h
    split at h
    · obtain ⟨nextDate, -, h⟩ := Option.bind_eq_some_iff.mp h
      obtain ⟨nextMs, -, h⟩ := Option.bind_eq_some_iff.mp h
      obtain ⟨rest, hrest, rfl⟩ := Option.map_eq_some_iff.mp h
      intro b hb
      rcases List.mem_cons.mp hb with rfl | hb
      · exact ⟨le_max_right _ _, min_le_right _ _⟩
      · exact ih hrest b hb
    · obtain rfl := Option.some.inj h
      exact fun b hb => absurd hb List.not_mem_nil

theorem subDayLoop_inside {date : DateOnly} {buckets : List MsRange}
    (h : subDayLoop range stepHours tz fuel date hour = some buckets) :
    ∀ b ∈ buckets, Inside range b := by
  induction fuel generalizing date hour buckets with
  | zero => cases h
  | succ fuel ih =>
    unfold subDayLoop at h
    split at h
    · obtain ⟨startMs, -, h⟩ := Option.bind_eq_some_iff.mp h
      split at h
      · obtain rfl := Option.some.inj h
        exact fun b hb => absurd hb List.not_mem_nil
      · obtain ⟨nextMs, -, h⟩ := Option.bind_eq_some_iff.mp h
        obtain ⟨rest, hrest, rfl⟩ := Option.map_eq_some_iff.mp h
        intro b hb
        split at hb
        · rcases List.mem_cons.mp hb with rfl | hb
          · exact ⟨le_max_right _ _, min_le_right _ _⟩
          · exact ih hrest b hb
        · exact ih hrest b hb
    · obtain ⟨nextDate, -, h⟩ := Option.bind_eq_some_iff.mp h
      exact ih h

theorem seriesBucketRanges_inside {bucket : RepoMetricBucket} {buckets : List MsRange}
    (h : seriesBucketRanges fuel range bucket tz = some buckets) : ∀ b ∈ buckets, Inside range b := by
  have hsub : ∀ step, subDayBucketRanges fuel range step tz = some buckets →
      ∀ b ∈ buckets, Inside range b := by
    intro step h
    unfold subDayBucketRanges at h
    split at h
    · obtain rfl := Option.some.inj h
      exact fun b hb => absurd hb List.not_mem_nil
    · exact subDayLoop_inside h
  have hday : ∀ width, bucketRanges fuel range width tz = some buckets →
      ∀ b ∈ buckets, Inside range b := by
    intro width h
    unfold bucketRanges at h
    split at h
    · obtain rfl := Option.some.inj h
      exact fun b hb => absurd hb List.not_mem_nil
    · obtain ⟨cursorMs, -, h⟩ := Option.bind_eq_some_iff.mp h
      exact bucketLoop_inside h
  cases bucket with
  | hours2 => exact hsub 2 h
  | hours4 => exact hsub 4 h
  | hours6 => exact hsub 6 h
  | day => exact hday .day h
  | week => exact hday .week h
  | month => exact hday .month h

end Loops

/-! ## The days buckets start on -/

section Days

variable {n : ℤ}

/-- The day the next bucket starts on. -/
def nextBucketDay (n : ℤ) : DayBucketWidth → ℤ
  | .day => n + 1
  | .week => n + 7
  | .month =>
    let date := dateFromDays n
    daysFromDate (date.year + date.month / 12) (date.month % 12 + 1) date.day

theorem advanceBucketDate_eq (h : 100 ≤ (dateFromDays n).year) (bucket : DayBucketWidth) :
    advanceBucketDate (dateFromDays n) bucket = some (isoDate (nextBucketDay n bucket)) := by
  cases bucket with
  | day => exact shiftDateOnly_dateFromDays h 1
  | week => exact shiftDateOnly_dateFromDays h 7
  | month =>
    simp only [advanceBucketDate, numbers_dateFromDays, Option.map_some, nextBucketDay, dateUTC]
    rw [if_neg (by omega), Int.sub_add_cancel]
    congr 2
    unfold dayMs
    omega

/-- The same day a month on is 28 to 31 days on. -/
theorem daysFromDate_next_month (y m d : ℤ) (hm : 1 ≤ m) (hm' : m ≤ 12) :
    daysFromDate y m d + 28 ≤ daysFromDate (y + m / 12) (m % 12 + 1) d ∧
      daysFromDate (y + m / 12) (m % 12 + 1) d ≤ daysFromDate y m d + 31 := by
  have hcases : m = 2 ∨ m = 12 ∨ (m ≤ 1 ∧ m % 12 + 1 ≤ 2 ∧ m / 12 = 0) ∨
      (3 ≤ m ∧ 3 ≤ m % 12 + 1 ∧ m / 12 = 0) := by omega
  unfold daysFromDate
  simp only
  rcases hcases with rfl | rfl | ⟨hle, hnext, hdiv⟩ | ⟨hle, hnext, hdiv⟩
  · norm_num
    omega
  · norm_num
    omega
  · rw [if_pos (by omega), if_pos hnext, hdiv]
    omega
  · rw [if_neg (by omega), if_neg (by omega), hdiv]
    omega

theorem nextBucketDay_le (n : ℤ) (bucket : DayBucketWidth) :
    (n + 1 ≤ nextBucketDay n bucket ∧ nextBucketDay n bucket ≤ n + 31) ∧
      (bucket = .day → nextBucketDay n bucket = n + 1) ∧
        (bucket ≠ .day → n + 7 ≤ nextBucketDay n bucket) := by
  cases bucket with
  | day => exact ⟨by simp only [nextBucketDay]; omega, fun _ => rfl, fun h => absurd rfl h⟩
  | week => exact ⟨by simp only [nextBucketDay]; omega, by rintro ⟨⟩, fun _ => le_refl _⟩
  | month =>
    have hmonth := dateFromDays_month n
    have hnext := daysFromDate_next_month (dateFromDays n).year (dateFromDays n).month
      (dateFromDays n).day hmonth.1 hmonth.2
    rw [daysFromDate_dateFromDays] at hnext
    refine ⟨?_, by rintro ⟨⟩, fun _ => ?_⟩
    · unfold nextBucketDay
      simp only
      omega
    · unfold nextBucketDay
      simp only
      omega

/-- The day the `i`th bucket starts on. -/
def bucketDay (n : ℤ) (bucket : DayBucketWidth) : ℕ → ℤ
  | 0 => n
  | i + 1 => nextBucketDay (bucketDay n bucket i) bucket

theorem le_bucketDay (n : ℤ) (bucket : DayBucketWidth) (i : ℕ) : n + i ≤ bucketDay n bucket i := by
  induction i with
  | zero => exact le_of_eq (Int.add_zero n)
  | succ i ih =>
    have hnext := (nextBucketDay_le (bucketDay n bucket i) bucket).1.1
    unfold bucketDay
    push_cast
    omega

end Days

/-! ## Tilings -/

section Tilings

variable {tz : Tz} {range : MsRange} {n stepHours : ℤ}

/-- 1 January 101, from where no lookup reads a year `Date.UTC` moves. -/
def firstDay : ℤ := -682638

example : dateFromDays firstDay = ⟨101, 1, 1⟩ := by decide

/-- From the year 101 on, and over forty days before the year 10000, so that
the date after the last bucket is one the code can read. -/
def MsRange.Readable (range : MsRange) : Prop :=
  firstDay * dayMs ≤ range.fromMs ∧ range.toMs + 40 * dayMs ≤ year10000Ms

instance (range : MsRange) : Decidable range.Readable := inferInstanceAs (Decidable (_ ∧ _))

/-- No hour clock of the zone is put forward by more than a bucket's width
within days of the range. Weeks and months are wider than any offset. -/
def Calm (tz : Tz) (range : MsRange) : RepoMetricBucket → Prop
  | .hours2 => Steady tz range (2 * 3600000)
  | .hours4 => Steady tz range (4 * 3600000)
  | .hours6 => Steady tz range (6 * 3600000)
  | .day => Steady tz range (dayMs - 1)
  | .week => True
  | .month => True

/-- The range's first instant is on its day, as the day's start and the next
one bound it. -/
def StartsOnItsDay (tz : Tz) (range : MsRange) : Prop :=
  let first := zonedDateOnly range.fromMs tz
  (∃ start ∈ zonedDayStartIso first tz, start ≤ range.fromMs) ∧
    ∃ next ∈ (shiftDateOnly first 1).bind (zonedDayStartIso · tz), range.fromMs < next

/-- The first day of a range is about its first instant. -/
structure FirstDay (tz : Tz) (range : MsRange) (n : ℤ) : Prop where
  date : zonedDateOnly range.fromMs tz = dateFromDays n
  clock : n * dayMs ≤ tz.clock range.fromMs ∧ tz.clock range.fromMs < (n + 1) * dayMs
  near : range.fromMs - 2 * dayMs ≤ n * dayMs ∧ n * dayMs < range.fromMs + dayMs
  late : -682990 * dayMs ≤ n * dayMs
  reach : InReach n

theorem exists_firstDay (tz : Tz) (hle : range.fromMs ≤ range.toMs) (hread : range.Readable) :
    ∃ n, FirstDay tz range n := by
  obtain ⟨hlate, hend⟩ := hread
  have hbounds := tz.clock_bounds range.fromMs
  have hfour : FourDigitDay (tz.clock range.fromMs / dayMs) ∧
      FourDigitDay (tz.clock range.fromMs / dayMs + 1) := by
    unfold FourDigitDay
    unfold firstDay dayMs year10000Ms at *
    omega
  have hdate := zonedDateOnly_eq hfour.1
  have hclock := (zonedDateOnly_eq_iff hfour.1).mp hdate
  have hyear := year_lt_hundred_iff (tz.clock range.fromMs / dayMs)
  refine ⟨_, hdate, hclock, ?_, ?_, ?_, hfour.2⟩
  · unfold firstDay dayMs at *
    omega
  · unfold firstDay dayMs at *
    omega
  · by_contra hn
    have := hyear.mp (by omega)
    unfold firstDay dayMs at *
    omega

/-- The first day's start and the next one about the range's first
instant. -/
theorem StartsOnItsDay.bounds (h : StartsOnItsDay tz range) (hn : FirstDay tz range n) :
    dayStart tz n ≤ range.fromMs ∧ range.fromMs < dayStart tz (n + 1) := by
  obtain ⟨⟨start, hstart, hle⟩, next, hnext, hlt⟩ := h
  rw [hn.date, Option.mem_def, zonedDayStartIso_dateFromDays tz hn.reach.1] at hstart
  rw [hn.date] at hnext
  obtain rfl := Option.some.inj hstart
  obtain rfl := Option.some.inj ((nextDayStart_eq tz hn.reach).symm.trans hnext)
  exact ⟨hle, hlt⟩

theorem piece_filter (l : List MsRange) :
    (l.filter fun b => b.fromMs ≤ b.toMs).map MsRange.piece =
      (l.map MsRange.piece).filter fun p => p.1 < p.2 := by
  rw [List.filter_map]
  congr 1
  refine List.filter_congr fun b _ => decide_eq_decide.mpr ?_
  simp only [MsRange.piece]
  omega

theorem map_piece_markBucket (g : ℕ → ℤ) (k : ℕ) :
    ((List.range k).map (markBucket range g)).map MsRange.piece =
      (List.range k).map (clippedPiece range.fromMs (range.toMs + 1) g) := by
  rw [List.map_map]
  exact List.map_congr_left fun i _ => piece_markBucket i

variable (tz) in
/-- The marks of hours grow past any instant. -/
theorem hourMark_grow (hpos : 0 < stepHours) (hwall : -682990 * dayMs ≤ n * dayMs) (i : ℕ) :
    (0 : ℤ) ≤ i * (stepHours * 3600000) ∧ n * dayMs + i - (dayMs + 1000) <
      hourMark tz (n * dayMs) (stepHours * 3600000) i := by
  have hone : (1 : ℤ) ≤ stepHours * 3600000 := by omega
  have hstep := Int.mul_le_mul_of_nonneg_left hone (Int.natCast_nonneg i)
  obtain ⟨⟨hlow, -⟩, -⟩ := tz.mark_bounds (n * dayMs + i * (stepHours * 3600000)) (by omega)
  unfold hourMark
  exact ⟨by omega, by omega⟩

/-- **The loop over hours ends**, with the buckets between the marks it
passes. -/
theorem subDay_buckets (tz : Tz) (hpos : 0 < stepHours) (hdvd : stepHours ∣ 24)
    (hle : range.fromMs ≤ range.toMs) (hread : range.Readable) :
    ∃ n k, FirstDay tz range n ∧
      let marks := hourMark tz (n * dayMs) (stepHours * 3600000)
      (∀ i < k, marks i ≤ range.toMs) ∧ range.toMs < marks k ∧
        ∀ fuel, 2 * k + 2 ≤ fuel → subDayBucketRanges fuel range stepHours tz =
          some (((List.range k).map (markBucket range marks)).filter fun b => b.fromMs ≤ b.toMs) := by
  have hday : dayMs = 86400000 := rfl
  have h24 : stepHours ≤ 24 := Int.le_of_dvd (by omega) hdvd
  obtain ⟨n, hn⟩ := exists_firstDay tz hle hread
  obtain ⟨hnear, hnear'⟩ := hn.near
  have hend := hread.2
  have hzero : n * dayMs + 0 * 3600000 = n * dayMs := by omega
  have hgrow := fun i => hourMark_grow tz hpos hn.late i
  obtain ⟨k, hk, hlt⟩ := exists_first_past (fun i => (hgrow i).2) range.toMs
  -- the last mark passed is of the range, so the next one is not far behind it
  have hlast : n * dayMs + k * (stepHours * 3600000) + 2 * dayMs ≤ year10000Ms := by
    cases k with
    | zero =>
      rw [Nat.cast_zero, Int.zero_mul]
      omega
    | succ i =>
      have hpassed := hlt i (Nat.lt_succ_self i)
      have hnonneg := (hgrow i).1
      have hwall := hn.late
      obtain ⟨⟨hlow, -⟩, -⟩ := tz.mark_bounds (n * dayMs + i * (stepHours * 3600000)) (by omega)
      have hsucc : ((i + 1 : ℕ) : ℤ) * (stepHours * 3600000) =
          i * (stepHours * 3600000) + stepHours * 3600000 := by
        push_cast
        ring
      unfold hourMark at hpassed
      rw [hsucc]
      omega
  refine ⟨n, k, hn, hlt, hk, fun fuel hfuel => ?_⟩
  unfold subDayBucketRanges
  rw [if_neg (by omega), hn.date]
  have hgives := subDayLoop_marks tz range hpos hdvd k fuel n 0 hn.reach.1
    (le_refl 0) (by omega) (by omega) (Int.dvd_zero stepHours) hfuel
  unfold GivesHours at hgives
  rw [hzero] at hgives
  exact hgives hlt hk

theorem subDay_tile (hpos : 0 < stepHours) (hdvd : stepHours ∣ 24)
    (hle : range.fromMs ≤ range.toMs) (hread : range.Readable)
    (hfirst : StartsOnItsDay tz range) (hsteady : Steady tz range (stepHours * 3600000)) :
    ∃ buckets turns, (∀ fuel, turns ≤ fuel →
        subDayBucketRanges fuel range stepHours tz = some buckets) ∧
      Tiles range.fromMs (range.toMs + 1) (buckets.map MsRange.piece) := by
  have h24 : stepHours ≤ 24 := Int.le_of_dvd (by omega) hdvd
  obtain ⟨n, k, hn, hlt, hk, hbuckets⟩ := subDay_buckets tz hpos hdvd hle hread
  have hday : dayMs = 86400000 := rfl
  have hwall := hn.late
  obtain ⟨hnear, hnear'⟩ := hn.near
  refine ⟨_, 2 * k + 2, hbuckets, ?_⟩
  rw [piece_filter, map_piece_markBucket]
  refine tiles_clipped _ _ (by omega) ?_ (by omega) fun i hi => ?_
  · unfold hourMark
    rw [Nat.cast_zero, Int.zero_mul, Int.add_zero, ← dayStart_eq_mark]
    exact (hfirst.bounds hn).1
  · have hhere := hlt i hi
    have hnonneg := (hourMark_grow tz hpos hn.late i).1
    obtain ⟨⟨hlow, -⟩, -⟩ := tz.mark_bounds (n * dayMs + i * (stepHours * 3600000)) (by omega)
    have hnext : ((i + 1 : ℕ) : ℤ) * (stepHours * 3600000) =
        i * (stepHours * 3600000) + stepHours * 3600000 := by
      push_cast
      ring
    unfold hourMark at hhere ⊢
    have hkept := tz.mark_le hsteady (n * dayMs + i * (stepHours * 3600000))
      (n * dayMs + ((i + 1 : ℕ) : ℤ) * (stepHours * 3600000)) (by omega) (by omega)
      (by omega) (by omega) (by omega)
    omega

/-- What a width asks of the zone, for buckets of whole days. -/
def DayCalm (tz : Tz) (range : MsRange) (bucket : DayBucketWidth) : Prop :=
  bucket = .day → Steady tz range (dayMs - 1)

/-- The mark of the next bucket is after the mark of the last one passed. -/
theorem dayMark_lt {bucket : DayBucketWidth} (hcalm : DayCalm tz range bucket) {m : ℤ}
    (hm : -682990 * dayMs ≤ m * dayMs) (hnear : range.fromMs - 2 * dayMs ≤ m * dayMs)
    (hpassed : tz.mark (m * dayMs) ≤ range.toMs) :
    tz.mark (m * dayMs) < tz.mark (nextBucketDay m bucket * dayMs) := by
  obtain ⟨⟨hnext, -⟩, hday, hwide⟩ := nextBucketDay_le m bucket
  obtain ⟨⟨hlow, hhigh⟩, -⟩ := tz.mark_bounds _ hm
  by_cases hone : bucket = .day
  · rw [hday hone]
    have hwall : (m + 1) * dayMs = m * dayMs + dayMs := by
      unfold dayMs
      omega
    have hkept := tz.mark_le (hcalm hone) (m * dayMs) (m * dayMs + dayMs) hm hnear
      (by unfold dayMs at *; omega) (by unfold dayMs; omega) (le_refl _)
    rw [hwall]
    omega
  · have hseven := hwide hone
    obtain ⟨⟨hlow', -⟩, -⟩ := tz.mark_bounds (nextBucketDay m bucket * dayMs)
      (by unfold dayMs at *; omega)
    unfold dayMs at *
    omega

/-- The days of the buckets are read at the wall clocks they start at. -/
theorem bucketDay_wall (n : ℤ) (bucket : DayBucketWidth) (i : ℕ) :
    n * dayMs + i * dayMs ≤ bucketDay n bucket i * dayMs := by
  have := le_bucketDay n bucket i
  unfold dayMs
  omega

/-- **The loop over days ends**, with the buckets between the marks it
passes. -/
theorem days_buckets (tz : Tz) (bucket : DayBucketWidth) (hle : range.fromMs ≤ range.toMs)
    (hread : range.Readable) :
    ∃ n k, FirstDay tz range n ∧
      let marks := fun i => dayStart tz (bucketDay n bucket i)
      (∀ i < k, marks i ≤ range.toMs) ∧ range.toMs < marks k ∧
        ∀ fuel, k + 1 ≤ fuel → bucketRanges fuel range bucket tz =
          some ((List.range k).map (markBucket range marks)) := by
  obtain ⟨n, hn⟩ := exists_firstDay tz hle hread
  obtain ⟨hnear, hnear'⟩ := hn.near
  have hwall := hn.late
  have hend := hread.2
  have hyears : ∀ i, 100 ≤ (dateFromDays (bucketDay n bucket i)).year := by
    intro i
    have hyear := hn.reach.1
    have h0 := year_lt_hundred_iff n
    have hi := year_lt_hundred_iff (bucketDay n bucket i)
    have := le_bucketDay n bucket i
    omega
  have hgrow : ∀ i : ℕ, n * dayMs + i - (dayMs + 1000) < dayStart tz (bucketDay n bucket i) := by
    intro i
    have hi := bucketDay_wall n bucket i
    obtain ⟨⟨hlow, -⟩, -⟩ := tz.mark_bounds (bucketDay n bucket i * dayMs)
      (by unfold dayMs at *; omega)
    rw [dayStart_eq_mark]
    unfold dayMs at *
    omega
  -- the loop ends at the first mark past the range
  obtain ⟨k, hk, hlt⟩ := exists_first_past hgrow range.toMs
  have hstep : ∀ i < k, advanceBucketDate (dateFromDays (bucketDay n bucket i)) bucket =
      some (dateFromDays (bucketDay n bucket (i + 1))) := by
    intro i hi
    have hpassed := hlt i hi
    have hi' := bucketDay_wall n bucket i
    have hnext := (nextBucketDay_le (bucketDay n bucket i) bucket).1
    obtain ⟨⟨hlow, -⟩, -⟩ := tz.mark_bounds (bucketDay n bucket i * dayMs)
      (by unfold dayMs at *; omega)
    have hfour : FourDigitDay (nextBucketDay (bucketDay n bucket i) bucket) := by
      rw [dayStart_eq_mark] at hpassed
      unfold FourDigitDay
      unfold dayMs year10000Ms at *
      omega
    rw [advanceBucketDate_eq (hyears i), isoDate_eq hfour]
    rfl
  refine ⟨n, k, hn, hlt, hk, fun fuel hfuel => ?_⟩
  have hcursor := zonedDayStartIso_dateFromDays tz hn.reach.1
  rw [bucketRanges, if_neg (by omega)]
  simp only [hn.date, hcursor, Option.bind_eq_bind, Option.bind_some]
  exact bucketLoop_marks (m := bucketDay n bucket) hyears hstep hlt hk fuel (by omega)

theorem days_tile (bucket : DayBucketWidth) (hle : range.fromMs ≤ range.toMs)
    (hread : range.Readable) (hfirst : StartsOnItsDay tz range)
    (hcalm : DayCalm tz range bucket) :
    ∃ buckets turns, (∀ fuel, turns ≤ fuel → bucketRanges fuel range bucket tz = some buckets) ∧
      Tiles range.fromMs (range.toMs + 1) (buckets.map MsRange.piece) := by
  obtain ⟨n, k, hn, hlt, hk, hbuckets⟩ := days_buckets tz bucket hle hread
  beta_reduce at hlt hk
  obtain ⟨hnear, hnear'⟩ := hn.near
  have hwall := hn.late
  have hmarks : ∀ i, dayStart tz (bucketDay n bucket i) = tz.mark (bucketDay n bucket i * dayMs) :=
    fun i => dayStart_eq_mark tz (bucketDay n bucket i)
  have hforward : ∀ i < k, dayStart tz (bucketDay n bucket i) < dayStart tz (bucketDay n bucket (i + 1)) := by
    intro i hi
    have hi' := bucketDay_wall n bucket i
    have hpassed := hlt i hi
    rw [hmarks] at hpassed
    rw [hmarks, hmarks]
    exact dayMark_lt hcalm (by unfold dayMs at *; omega) (by unfold dayMs at *; omega) hpassed
  obtain ⟨hstart, hnext⟩ := hfirst.bounds hn
  refine ⟨_, k + 1, hbuckets, ?_⟩
  -- the range's first instant is before the second mark, so no bucket is empty
  have hsecond : range.fromMs < dayStart tz (bucketDay n bucket 1) := by
    by_cases hone : bucket = .day
    · unfold bucketDay
      rw [(nextBucketDay_le _ _).2.1 hone]
      exact hnext
    · have hseven := (nextBucketDay_le n bucket).2.2 hone
      obtain ⟨⟨hlow, -⟩, -⟩ := tz.mark_bounds (bucketDay n bucket 1 * dayMs)
        (by have := bucketDay_wall n bucket 1; unfold dayMs at *; omega)
      have hclock := hn.clock
      rw [hmarks]
      unfold bucketDay at hlow ⊢
      unfold bucketDay at hlow ⊢
      unfold dayMs at *
      omega
  have hafter : ∀ i < k, range.fromMs < dayStart tz (bucketDay n bucket (i + 1)) := by
    intro i hi
    induction i with
    | zero => exact hsecond
    | succ i ih =>
      have := hforward (i + 1) hi
      have := ih (by omega)
      omega
  have htiles := tiles_clipped range.fromMs (range.toMs + 1)
    (g := fun i => dayStart tz (bucketDay n bucket i)) (by omega) hstart (by omega)
    fun i hi => (hforward i hi).le
  rw [map_piece_markBucket]
  rwa [List.filter_eq_self.mpr] at htiles
  intro p hp
  obtain ⟨i, hi, rfl⟩ := List.mem_map.mp hp
  have hi' := List.mem_range.mp hi
  have h1 := hforward i hi'
  have h2 := hafter i hi'
  have h3 := hlt i hi'
  refine decide_eq_true ?_
  simp only [clippedPiece]
  omega

/-- **The bucket loops end**, whatever the width and the zone. -/
theorem exists_seriesBucketRanges (tz : Tz) (bucket : RepoMetricBucket) (hread : range.Readable) :
    ∃ buckets turns, ∀ fuel, turns ≤ fuel →
      seriesBucketRanges fuel range bucket tz = some buckets := by
  by_cases hle : range.fromMs ≤ range.toMs
  · have hsub : ∀ step : ℤ, 0 < step → step ∣ 24 → ∃ buckets turns, ∀ fuel, turns ≤ fuel →
        subDayBucketRanges fuel range step tz = some buckets := by
      intro step hpos hdvd
      obtain ⟨n, k, -, -, -, hbuckets⟩ := subDay_buckets tz hpos hdvd hle hread
      exact ⟨_, _, hbuckets⟩
    have hdays : ∀ width, ∃ buckets turns, ∀ fuel, turns ≤ fuel →
        bucketRanges fuel range width tz = some buckets := by
      intro width
      obtain ⟨n, k, -, -, -, hbuckets⟩ := days_buckets tz width hle hread
      exact ⟨_, _, hbuckets⟩
    cases bucket with
    | hours2 => exact hsub 2 (by omega) (by decide)
    | hours4 => exact hsub 4 (by omega) (by decide)
    | hours6 => exact hsub 6 (by omega) (by decide)
    | day => exact hdays .day
    | week => exact hdays .week
    | month => exact hdays .month
  · -- a range that ends before it starts has none
    refine ⟨[], 0, fun fuel _ => ?_⟩
    have hempty : range.toMs < range.fromMs := not_le.mp hle
    have hsub : ∀ step, subDayBucketRanges fuel range step tz = some [] := fun step =>
      if_pos hempty
    have hdays : ∀ width, bucketRanges fuel range width tz = some [] := fun width => if_pos hempty
    cases bucket with
    | hours2 => exact hsub 2
    | hours4 => exact hsub 4
    | hours6 => exact hsub 6
    | day => exact hdays .day
    | week => exact hdays .week
    | month => exact hdays .month

/-- **The buckets of a range tile it**, whatever their width: they follow
each other from its first instant to its last, without a gap, none empty.
The loops end. -/
theorem seriesBucketRanges_tile (bucket : RepoMetricBucket) (hle : range.fromMs ≤ range.toMs)
    (hread : range.Readable) (hfirst : StartsOnItsDay tz range)
    (hcalm : Calm tz range bucket) :
    ∃ buckets turns,
      (∀ fuel, turns ≤ fuel → seriesBucketRanges fuel range bucket tz = some buckets) ∧
        Tiles range.fromMs (range.toMs + 1) (buckets.map MsRange.piece) := by
  cases bucket with
  | hours2 => exact subDay_tile (by omega) (by decide) hle hread hfirst hcalm
  | hours4 => exact subDay_tile (by omega) (by decide) hle hread hfirst hcalm
  | hours6 => exact subDay_tile (by omega) (by decide) hle hread hfirst hcalm
  | day => exact days_tile .day hle hread hfirst fun _ => hcalm
  | week => exact days_tile .week hle hread hfirst (by rintro ⟨⟩)
  | month => exact days_tile .month hle hread hfirst (by rintro ⟨⟩)

end Tilings

end SymphonyBoard
