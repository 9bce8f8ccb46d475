import SymphonyBoard.Common.OrdMap
import SymphonyBoard.Contract.Types
import SymphonyBoard.Shared.IsoText
/-!
# What reads calendar days

The day buckets of a range (`bucketRanges` of `contract/build.ts`), the
activity counts of each day (`buildActivityDaily`) and the range a request
for two dates covers (`parseRange` of `server/range.ts`). `DaysAgree` says
that they put every instant on the same day, over a span of dates.
-/

namespace SymphonyBoard

/-- `rangeMs` of a range: its two ends, both in it. -/
structure MsRange where
  fromMs : ℤ
  toMs : ℤ
deriving DecidableEq, Repr

/-- An instant of the range. -/
def MsRange.Has (range : MsRange) (t : ℤ) : Prop := range.fromMs ≤ t ∧ t ≤ range.toMs

/-- The range of a request's two dates. -/
def parseRange (first last : DateOnly) (tz : Tz) : Option MsRange := do
  let fromMs ← zonedDayStartIso first tz
  let toMs ← zonedDayEndIso last tz
  if toMs < fromMs then none else some ⟨fromMs, toMs⟩

/-! ## Buckets -/

/-- The bucket widths of whole days. -/
inductive DayBucketWidth
  | day
  | week
  | month

/-- The next bucket's start date. A month on, a day the month lacks rolls
over. -/
def advanceBucketDate (date : DateOnly) : DayBucketWidth → Option DateOnly
  | .day => shiftDateOnly date 1
  | .week => shiftDateOnly date 7
  | .month => date.numbers.map fun d =>
    isoDate (dateUTC d.year (d.month - 1 + 1) d.day 0 0 0 0 / dayMs)

/-- The loop over the bucket starts. The fuel bounds its turns; `none` is
that it runs out, or a date that cannot be read. -/
def bucketLoop (range : MsRange) (bucket : DayBucketWidth) (tz : Tz) :
    ℕ → DateOnly → ℤ → Option (List MsRange)
  | 0, _, _ => none
  | fuel + 1, cursorDate, cursorMs =>
    if cursorMs ≤ range.toMs then do
      let nextDate ← advanceBucketDate cursorDate bucket
      let nextMs ← zonedDayStartIso nextDate tz
      (bucketLoop range bucket tz fuel nextDate nextMs).map
        (⟨max cursorMs range.fromMs, min (nextMs - 1) range.toMs⟩ :: ·)
    else some []

/-- `bucketRanges` of a width of whole days. -/
def bucketRanges (fuel : ℕ) (range : MsRange) (bucket : DayBucketWidth) (tz : Tz) :
    Option (List MsRange) :=
  if range.toMs < range.fromMs then some []
  else do
    let cursorDate := zonedDateOnly range.fromMs tz
    let cursorMs ← zonedDayStartIso cursorDate tz
    bucketLoop range bucket tz fuel cursorDate cursorMs

/-! ## Activity counts -/

/-- One more for a key. -/
def inc (counts : OrdMap String ℕ) (key : String) : OrdMap String ℕ :=
  counts.upsert key fun count => count.getD 0 + 1

/-- A day's activities, counted, and by kind. -/
structure ActivityDayBucket where
  count : ℕ
  byKind : OrdMap String ℕ

/-- The calendar aggregate: its first and last day and the counts between. -/
structure ActivityDaily where
  fromDate : DateOnly
  toDate : DateOnly
  total : ℕ
  byKind : OrdMap String ℕ
  days : List (DateOnly × ActivityDayBucket)

/-- What the loop over the activities carries. -/
structure DailyCounts where
  byDay : OrdMap DateOnly ActivityDayBucket
  byKind : OrdMap String ℕ
  total : ℕ
  fromDate : DateOnly

/-- One more activity of a kind on a day. -/
def addToDay (kind : String) (bucket : Option ActivityDayBucket) : ActivityDayBucket :=
  let bucket := bucket.getD { count := 0, byKind := .empty }
  { count := bucket.count + 1, byKind := inc bucket.byKind kind }

/-- An activity without an instant is passed over. -/
def countActivity (tz : Tz) (counts : DailyCounts) (activity : ActivityDTO) : DailyCounts :=
  match timestampMs (some activity.occurredAt) with
  | none => counts
  | some ms =>
    let day := zonedDateOnly ms tz
    { byDay := counts.byDay.upsert day (addToDay activity.kind)
      byKind := inc counts.byKind activity.kind
      total := counts.total + 1
      fromDate := if day.before counts.fromDate then day else counts.fromDate }

/-- `buildActivityDaily`: the days ascend by their texts. -/
def buildActivityDaily (activities : List ActivityDTO) (generatedAtMs : ℤ) (tz : Tz) :
    ActivityDaily :=
  let toDate := zonedDateOnly generatedAtMs tz
  let counts := activities.foldl (countActivity tz)
    { byDay := .empty, byKind := .empty, total := 0, fromDate := toDate }
  { fromDate := counts.fromDate, toDate, total := counts.total, byKind := counts.byKind
    days := counts.byDay.entries.mergeSort fun a b => !b.1.before a.1 }

/-! ## Day buckets over clear days -/

section Clear

variable {tz : Tz} {first last : ℤ}

/-- The `k`th bucket from the first date. -/
def dayBucket (range : MsRange) (tz : Tz) (n : ℤ) : MsRange :=
  ⟨max (dayStart tz n) range.fromMs, min (dayStart tz (n + 1) - 1) range.toMs⟩

/-- Days that are clear and of four-digit years. -/
def ClearSpan (tz : Tz) (first last : ℤ) : Prop :=
  ∀ n, first ≤ n → n ≤ last → ClearDay tz n ∧ FourDigitDay n

/-- One turn of the loop over a clear day, the last of them apart. -/
theorem bucketLoop_succ {range : MsRange} {n : ℤ} {fuel : ℕ} (h : ClearDay tz n)
    (hn : FourDigitDay n) (hn' : FourDigitDay (n + 1)) (hstart : dayStart tz n ≤ range.toMs) :
    bucketLoop range .day tz (fuel + 1) (dateFromDays n) (dayStart tz n) =
      (bucketLoop range .day tz fuel (dateFromDays (n + 1)) (dayStart tz (n + 1))).map
        (dayBucket range tz n :: ·) := by
  have hnext := h.nextDayStart_eq hn
  rw [nextDayStart, shiftDateOnly_dateFromDays h.1, isoDate_eq hn', Option.bind_some] at hnext
  rw [bucketLoop, if_pos hstart]
  simp only [advanceBucketDate, shiftDateOnly_dateFromDays h.1, isoDate_eq hn',
    Option.bind_eq_bind, Option.bind_some, hnext]
  rfl

/-- The turn over the last day, and the end. The next date need not read as
one of a day number. -/
theorem bucketLoop_last {range : MsRange} {fuel : ℕ} (h : ClearDay tz last)
    (hn : FourDigitDay last) (hto : zonedDateOnly range.toMs tz = dateFromDays last) :
    bucketLoop range .day tz (fuel + 2) (dateFromDays last) (dayStart tz last) =
      some [dayBucket range tz last] := by
  have hnext := h.nextDayStart_eq hn
  obtain ⟨hlow, hhigh⟩ := (zonedDateOnly_eq_iff hn).mp hto
  have hstart : dayStart tz last ≤ range.toMs := (h.crossesAt_start.1 range.toMs).mpr hlow
  have hend : ¬dayStart tz (last + 1) ≤ range.toMs := fun hle => by
    have := (h.crossesAt_start.2 range.toMs).mp hle
    omega
  rw [nextDayStart, shiftDateOnly_dateFromDays h.1, Option.bind_some] at hnext
  rw [bucketLoop, if_pos hstart]
  simp only [advanceBucketDate, shiftDateOnly_dateFromDays h.1, Option.bind_eq_bind,
    Option.bind_some, hnext]
  rw [bucketLoop, if_neg hend]
  rfl

theorem bucketLoop_of_clear {range : MsRange} (hclear : ClearSpan tz first last)
    (hlast : zonedDateOnly range.toMs tz = dateFromDays last) (k : ℕ) :
    ∀ (n : ℤ) (fuel : ℕ), first ≤ n → n + k = last → k + 1 < fuel →
      bucketLoop range .day tz fuel (dateFromDays n) (dayStart tz n) =
        some ((List.range (k + 1)).map fun i : ℕ => dayBucket range tz (n + i)) := by
  induction k with
  | zero =>
    intro n fuel hn hk hfuel
    obtain ⟨fuel, rfl⟩ : ∃ f, fuel = f + 2 := ⟨fuel - 2, by omega⟩
    obtain rfl : n = last := by omega
    obtain ⟨hday, hfour⟩ := hclear n hn (Int.le_refl n)
    rw [bucketLoop_last hday hfour hlast]
    simp
  | succ k ih =>
    intro n fuel hn hk hfuel
    obtain ⟨fuel, rfl⟩ := Nat.exists_eq_succ_of_ne_zero (by omega : fuel ≠ 0)
    obtain ⟨hday, hfour⟩ := hclear n hn (by omega)
    obtain ⟨-, hfour'⟩ := hclear (n + 1) (by omega) (by omega)
    have hto := ((zonedDateOnly_eq_iff (hclear last (by omega) (Int.le_refl last)).2).mp hlast).1
    have hmono : n * dayMs ≤ last * dayMs := by
      unfold dayMs
      omega
    have hstart : dayStart tz n ≤ range.toMs :=
      (hday.crossesAt_start.1 range.toMs).mpr (Int.le_trans hmono hto)
    rw [bucketLoop_succ hday hfour hfour' hstart, ih (n + 1) fuel (by omega) (by omega) (by omega),
      Option.map_some, List.range_succ_eq_map (n := k + 1), List.map_cons, List.map_map]
    congr 2
    · simp
    · refine List.map_congr_left fun i _ => ?_
      simp only [Function.comp, Nat.succ_eq_add_one]
      congr 1
      omega

/-- A clear day's bucket holds the instants of the range that are of the
day. -/
theorem dayBucket_has (range : MsRange) {n : ℤ} (t : ℤ) (h : ClearDay tz n) (hn : FourDigitDay n) :
    (dayBucket range tz n).Has t ↔ range.Has t ∧ zonedDateOnly t tz = dateFromDays n := by
  have hday := (between_iff_midnights hn).mpr h.crossesAt_start t
  rw [← hday]
  unfold MsRange.Has dayBucket
  simp only
  omega

/-- Over clear days, the instants from one day's start to another's end
are those of the days between. -/
theorem clear_span (hclear : ClearSpan tz first last) (hle : first ≤ last) (t : ℤ) :
    dayStart tz first ≤ t ∧ t ≤ dayEnd tz last ↔
      ∃ n, first ≤ n ∧ n ≤ last ∧ zonedDateOnly t tz = dateFromDays n := by
  obtain ⟨hfirst, hfour⟩ := hclear first (Int.le_refl first) hle
  obtain ⟨hlast, hfour'⟩ := hclear last hle (Int.le_refl last)
  have hstart := hfirst.crossesAt_start.1 t
  have hend := hlast.crossesAt_end t
  constructor
  · rintro ⟨hs, he⟩
    have hlow := hstart.mp hs
    have hhigh : ¬(last + 1) * dayMs ≤ tz.clock t := fun h => by
      have := hend.mpr h
      omega
    have hday : first ≤ tz.clock t / dayMs ∧ tz.clock t / dayMs ≤ last := by
      unfold dayMs at hlow hhigh ⊢
      omega
    exact ⟨tz.clock t / dayMs, hday.1, hday.2, zonedDateOnly_eq (hclear _ hday.1 hday.2).2⟩
  · rintro ⟨n, hn, hn', hdate⟩
    have hday := (zonedDateOnly_eq_iff (hclear n hn hn').2).mp hdate
    refine ⟨hstart.mpr ?_, ?_⟩
    · unfold dayMs at hday ⊢
      omega
    · by_contra hgt
      have hnext := hend.mp (by omega)
      unfold dayMs at hday hnext
      omega

end Clear

/-! ## Counts by day -/

/-- The dated activities, with their kinds. -/
def datedKinds (tz : Tz) (activities : List ActivityDTO) : List (DateOnly × String) :=
  activities.filterMap fun activity =>
    (timestampMs (some activity.occurredAt)).map fun ms => (zonedDateOnly ms tz, activity.kind)

theorem countActivity_byDay (tz : Tz) (activities : List ActivityDTO) (counts : DailyCounts) :
    (activities.foldl (countActivity tz) counts).byDay =
      (datedKinds tz activities).foldl (fun m x => m.upsert x.1 (addToDay x.2)) counts.byDay := by
  induction activities generalizing counts with
  | nil => rfl
  | cons activity activities ih =>
    rw [List.foldl_cons, ih]
    unfold countActivity datedKinds
    cases hms : timestampMs (some activity.occurredAt) with
    | none => simp [hms]
    | some ms => simp [hms]

/-- Adding activities one by one to a day counts them. -/
theorem count_foldl_addToDay (l : List (DateOnly × String)) (bucket : Option ActivityDayBucket) :
    (l.foldl (fun o x => some (addToDay x.2 o)) bucket).map ActivityDayBucket.count =
      if l = [] then bucket.map ActivityDayBucket.count
      else some ((bucket.map ActivityDayBucket.count).getD 0 + l.length) := by
  induction l generalizing bucket with
  | nil => rfl
  | cons x l ih =>
    rw [List.foldl_cons, ih]
    have hadd : (addToDay x.2 bucket).count = (bucket.map ActivityDayBucket.count).getD 0 + 1 := by
      cases bucket with
      | none => rfl
      | some b => rfl
    by_cases hl : l = []
    · subst hl
      simp [hadd]
    · simp only [hl, if_false, Option.map_some, Option.getD_some, hadd, List.length_cons,
        reduceCtorEq]
      congr 1
      omega

/-- **A day is listed with the number of activities dated to it**, if there
are any. -/
theorem days_count_iff (activities : List ActivityDTO) (generatedAtMs : ℤ) (tz : Tz)
    (d : DateOnly) (k : ℕ) :
    (∃ bucket, (d, bucket) ∈ (buildActivityDaily activities generatedAtMs tz).days ∧
        bucket.count = k) ↔
      0 < k ∧ k = ((datedKinds tz activities).filter fun x => x.1 = d).length := by
  unfold buildActivityDaily
  simp only [List.mem_mergeSort, OrdMap.mem_entries_iff, countActivity_byDay]
  rw [OrdMap.get?_foldl_upsert Prod.fst (fun x o => addToDay x.2 o), OrdMap.get?_empty]
  generalize (datedKinds tz activities).filter (fun x => x.1 = d) = l
  have hcount := count_foldl_addToDay l none
  rw [Option.map_none, Option.getD_none, Nat.zero_add] at hcount
  have hmap : (∃ bucket, l.foldl (fun o x => some (addToDay x.2 o)) none = some bucket ∧
      bucket.count = k) ↔
      (l.foldl (fun o x => some (addToDay x.2 o)) none).map ActivityDayBucket.count = some k := by
    rw [Option.map_eq_some_iff]
  rw [hmap, hcount]
  by_cases hl : l = []
  · subst hl
    simp
    omega
  · have hpos : 0 < l.length := List.length_pos_iff.mpr hl
    simp only [hl, if_false, Option.some.injEq]
    omega

/-- The activities dated to a day, as a list of kinds, are those between
its start and the next one. -/
theorem datedKinds_of_partition {tz : Tz} {n start next : ℤ}
    (h : ∀ t, start ≤ t ∧ t < next ↔ zonedDateOnly t tz = dateFromDays n)
    (activities : List ActivityDTO) :
    ((datedKinds tz activities).filter fun x => x.1 = dateFromDays n).length =
      (activities.filter fun activity => (timestampMs (some activity.occurredAt)).any fun ms =>
        start ≤ ms ∧ ms < next).length := by
  rw [← List.countP_eq_length_filter, ← List.countP_eq_length_filter]
  unfold datedKinds
  rw [List.countP_filterMap]
  refine List.countP_congr fun activity _ => ?_
  cases hms : timestampMs (some activity.occurredAt) with
  | none => simp
  | some ms =>
    have hday := h ms
    simp only [Option.map_some, Option.any_some, Option.getD_some, decide_eq_true_eq]
    exact hday.symm

/-! ## Agreement -/

/-- **Every instant is on one day**: over the dates from `a` through `b`,
a day's start and the next one bound the instants dated to it, a request
for a span of dates covers the instants dated to them, the `k`th bucket of
a range holds its instants dated `k` days after its first, and a day's
count is of the activities between its start and the next. -/
structure DaysAgree (tz : Tz) (a b : ℤ) : Prop where
  partition : ∀ n, a ≤ n → n ≤ b → StartsPartition tz n
  expanded : ∀ m n, a ≤ m → m ≤ n → n ≤ b →
    ∃ range, parseRange (dateFromDays m) (dateFromDays n) tz = some range ∧
      ∀ t, range.Has t ↔ ∃ k, m ≤ k ∧ k ≤ n ∧ zonedDateOnly t tz = dateFromDays k
  bucketed : ∀ (range : MsRange) (first last : ℤ) (fuel : ℕ), range.fromMs ≤ range.toMs →
    zonedDateOnly range.fromMs tz = dateFromDays first →
    zonedDateOnly range.toMs tz = dateFromDays last → a ≤ first → first ≤ b → a ≤ last →
    last ≤ b → last - first + 1 < fuel →
    ∃ buckets, bucketRanges fuel range .day tz = some buckets ∧
      ∀ (k : ℕ) (t : ℤ), (∃ bucket, buckets[k]? = some bucket ∧ bucket.Has t) ↔
        range.Has t ∧ zonedDateOnly t tz = dateFromDays (first + k)
  counted : ∀ (activities : List ActivityDTO) (generatedAtMs n : ℤ) (k : ℕ), a ≤ n → n ≤ b →
    ∃ start ∈ zonedDayStartIso (dateFromDays n) tz, ∃ next ∈ nextDayStart tz n,
      ((∃ bucket, (dateFromDays n, bucket) ∈ (buildActivityDaily activities generatedAtMs tz).days ∧
          bucket.count = k) ↔
        0 < k ∧ k = (activities.filter fun activity =>
          (timestampMs (some activity.occurredAt)).any fun ms => start ≤ ms ∧ ms < next).length)

section

variable {tz : Tz} {a b : ℤ}

theorem ClearSpan.mono {first last : ℤ} (h : ClearSpan tz a b) (ha : a ≤ first) (hb : last ≤ b) :
    ClearSpan tz first last := fun n hn hn' => h n (by omega) (by omega)

theorem bucketRanges_of_clear (hclear : ClearSpan tz a b) {range : MsRange}
    {first last : ℤ} {fuel : ℕ} (hrange : range.fromMs ≤ range.toMs)
    (hfirst : zonedDateOnly range.fromMs tz = dateFromDays first)
    (hlast : zonedDateOnly range.toMs tz = dateFromDays last) (ha : a ≤ first) (hb : last ≤ b)
    (hfuel : last - first + 1 < fuel) (hle : first ≤ last) :
    bucketRanges fuel range .day tz =
      some ((List.range (last + 1 - first).toNat).map fun i : ℕ =>
        dayBucket range tz (first + i)) := by
  have hspan : ClearSpan tz first last := hclear.mono ha hb
  have hstart := zonedDayStartIso_dateFromDays tz (hspan first (Int.le_refl first) hle).1.1
  have hcount : (last + 1 - first).toNat = (last - first).toNat + 1 := by omega
  rw [bucketRanges, if_neg (by omega), hcount]
  simp only [hfirst, hstart, Option.bind_eq_bind, Option.bind_some]
  exact bucketLoop_of_clear hspan hlast _ first fuel (Int.le_refl first) (by omega) (by omega)

/-- Over clear days, a range's first date is not after its last. -/
theorem first_le_last (hclear : ClearSpan tz a b) {range : MsRange}
    {first last : ℤ} (hrange : range.fromMs ≤ range.toMs)
    (hfirst : zonedDateOnly range.fromMs tz = dateFromDays first)
    (hlast : zonedDateOnly range.toMs tz = dateFromDays last) (ha : a ≤ first) (hb : first ≤ b)
    (ha' : a ≤ last) (hb' : last ≤ b) : first ≤ last := by
  by_contra hn
  obtain ⟨hday, hfour⟩ := hclear first ha hb
  have hfrom := ((zonedDateOnly_eq_iff hfour).mp hfirst).1
  have hto := ((zonedDateOnly_eq_iff (hclear last ha' hb').2).mp hlast).2
  have hcross := hday.crossesAt_start.1
  -- the first day's midnight is passed by the range's start, so by its end
  have := (hcross range.toMs).mp (Int.le_trans ((hcross range.fromMs).mpr hfrom) hrange)
  unfold dayMs at *
  omega

theorem DaysAgree.of_clear (hclear : ClearSpan tz a b) : DaysAgree tz a b where
  partition n hn hn' := by
    obtain ⟨hday, hfour⟩ := hclear n hn hn'
    exact hday.startsPartition hfour
  expanded m n hm hmn hn := by
    obtain ⟨hday, hfour⟩ := hclear m hm (by omega)
    obtain ⟨hday', -⟩ := hclear n (by omega) hn
    have hspan := clear_span (hclear.mono hm hn) hmn
    obtain ⟨t, ht, -⟩ := tz.exists_day hfour
    have hsome := (hspan t).mpr ⟨m, Int.le_refl m, hmn, ht⟩
    refine ⟨⟨dayStart tz m, dayEnd tz n⟩, ?_, hspan⟩
    rw [parseRange, zonedDayStartIso_dateFromDays tz hday.1, zonedDayEndIso_dateFromDays tz hday'.1]
    simp only [Option.bind_eq_bind, Option.bind_some]
    rw [if_neg (by omega)]
  bucketed range first last fuel hrange hfirst hlast ha hfb hal hb hfuel := by
    have hle := first_le_last hclear hrange hfirst hlast ha hfb hal hb
    refine ⟨_, bucketRanges_of_clear hclear hrange hfirst hlast ha hb hfuel hle, ?_⟩
    intro k t
    -- a bucket for each day of the span, and none after it
    by_cases hk : k < (last + 1 - first).toNat
    · rw [List.getElem?_map, List.getElem?_range hk, Option.map_some]
      obtain ⟨hclearDay, hfour⟩ := hclear (first + k) (by omega) (by omega)
      have hday := dayBucket_has range t hclearDay hfour
      rw [← hday]
      constructor
      · rintro ⟨bucket, hb, hhas⟩
        obtain rfl := Option.some.inj hb
        exact hhas
      · intro hhas
        exact ⟨_, rfl, hhas⟩
    · constructor
      · rintro ⟨bucket, hb, -⟩
        rw [List.getElem?_eq_none (by simp; omega)] at hb
        exact absurd hb (by simp)
      · -- no instant of the range is dated after the range's last date
        rintro ⟨hhas, hdate⟩
        obtain ⟨hlastDay, hfour⟩ := hclear last hal hb
        have hto := ((zonedDateOnly_eq_iff hfour).mp hlast).2
        have hday : first + k ≤ tz.clock t / dayMs := zonedDateOnly_day hdate
        have hcross := hlastDay.crossesAt_start.2
        have hnext : (last + 1) * dayMs ≤ tz.clock t := by
          unfold dayMs at *
          omega
        have := (hcross range.toMs).mp (Int.le_trans ((hcross t).mpr hnext) hhas.2)
        omega
  counted activities generatedAtMs n k hn hn' := by
    obtain ⟨hday, hfour⟩ := hclear n hn hn'
    obtain ⟨start, hstart, next, hnext, hpart⟩ := hday.startsPartition hfour
    refine ⟨start, hstart, next, hnext, ?_⟩
    rw [days_count_iff, datedKinds_of_partition hpart]

theorem DaysAgree.dayExpands (h : DaysAgree tz a b) {n : ℤ} (hn : a ≤ n) (hn' : n ≤ b) :
    DayExpands tz n := by
  obtain ⟨range, hrange, hspan⟩ := h.expanded n n hn (Int.le_refl n) hn'
  have hone : ∀ t, (∃ k, n ≤ k ∧ k ≤ n ∧ zonedDateOnly t tz = dateFromDays k) ↔
      zonedDateOnly t tz = dateFromDays n := by
    intro t
    constructor
    · rintro ⟨k, hk, hk', hdate⟩
      obtain rfl : k = n := by omega
      exact hdate
    · intro hdate
      exact ⟨n, Int.le_refl n, Int.le_refl n, hdate⟩
  obtain ⟨start, hstart, hrange⟩ := Option.bind_eq_some_iff.mp hrange
  obtain ⟨last, hlast, hrange⟩ := Option.bind_eq_some_iff.mp hrange
  split at hrange
  · cases hrange
  · obtain rfl := Option.some.inj hrange
    exact ⟨start, hstart, last, hlast, fun t => (hspan t).trans (hone t)⟩

/-- **Calendar days partition time over a span of dates of four-digit years
just when each of its days is clear.** -/
theorem daysAgree_iff (ha : 0 ≤ (dateFromDays a).year) (hb : (dateFromDays b).year < 10000) :
    DaysAgree tz a b ↔ ∀ n, a ≤ n → n ≤ b → ClearDay tz n := by
  have hfour : ∀ n, a ≤ n → n ≤ b → FourDigitDay n := by
    intro n hn hn'
    have hlow := (year_nonneg_iff a).mp ha
    have hhigh := (year_lt_tenThousand_iff b).mp hb
    exact ⟨by omega, by omega⟩
  constructor
  · intro h n hn hn'
    exact (clearDay_iff (hfour n hn hn')).mpr ⟨h.partition n hn hn', h.dayExpands hn hn'⟩
  · intro h
    exact DaysAgree.of_clear fun n hn hn' => ⟨h n hn hn', hfour n hn hn'⟩

end

/-! ## A zone that skips midnight -/

/-- Five hours west of UTC until 05:00 UTC on 8 March 2026, four from then
on: the local day of 8 March starts at one o'clock. -/
def havana : Zone where
  offset ms := if ms < 1772946000000 then -18000000 else -14400000
  transitions := [1772946000000]
  constant ms hms := by
    have hne : ms ≠ 1772946000000 := fun h => hms (h ▸ List.mem_singleton_self _)
    by_cases h : ms < 1772946000000
    · rw [if_pos h, if_pos (by omega)]
    · rw [if_neg h, if_neg (by omega)]
  small ms := by
    unfold dayMs
    split <;> split <;> omega
  bounded ms := by
    unfold dayMs
    split <;> omega

/-- 8 March starts an hour early there: half past eleven of the evening
before is counted in. -/
theorem not_daysAgree_havana : ¬DaysAgree (.zone havana) 20520 20520 := by
  intro h
  obtain ⟨start, hstart, next, hnext, hpart⟩ := h.partition 20520 (by decide) (by decide)
  have hstart' : zonedDayStartIso (dateFromDays 20520) (.zone havana) = some 1772942400000 := by decide
  have hnext' : nextDayStart (.zone havana) 20520 = some 1773028800000 := by decide
  obtain rfl := Option.some.inj (hstart'.symm.trans hstart)
  obtain rfl := Option.some.inj (hnext'.symm.trans hnext)
  have hday := (hpart 1772944200000).mp (by decide)
  exact absurd hday (by decide)

/-- The theorem there, for the day before and the day itself. -/
theorem daysAgree_iff_havana :
    0 ≤ (dateFromDays 20519).year ∧ (dateFromDays 20520).year < 10000 ∧
      (DaysAgree (.zone havana) 20519 20520 ↔
        ∀ n, 20519 ≤ n → n ≤ 20520 → ClearDay (.zone havana) n) :=
  ⟨by decide, by decide, daysAgree_iff (by decide) (by decide)⟩

end SymphonyBoard
