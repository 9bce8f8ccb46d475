import SymphonyBoard.Db.ActivityRange
/-!
# The range of a request

`parseRange` of `src/server/range.ts`: two calendar dates become the texts
of the first and the last instant of their days. `rangePrefilter_iff` says
for which accepted ranges the two date-bounded queries return exactly the
rows of the range.
-/

namespace SymphonyBoard

/-- A bound of the query. -/
inductive RangeField
  | fromField
  | toField
deriving DecidableEq

/-- The parameter's name. -/
def RangeField.text : RangeField → String
  | .fromField => "from"
  | .toField => "to"

/-- `/^\d{4}-\d{2}-\d{2}$/`, with the numbers it matches. -/
def dateParts (value : String) : Option (ℕ × ℕ × ℕ) := do
  let (y, cs) ← takeNum 4 0 value.toList
  let cs ← expect '-' cs
  let (m, cs) ← takeNum 2 0 cs
  let cs ← expect '-' cs
  let (d, cs) ← takeNum 2 0 cs
  if cs = [] then return (y, m, d) else none

/-- `zonedDayStartIso` and `zonedDayEndIso` of a date in full, as the texts
they write. -/
def zonedDayText (value : String) (parts : ℕ × ℕ × ℕ) (field : RangeField) : Tz → String
  | .utc =>
    match field with
    | .fromField => value ++ "T00:00:00.000Z"
    | .toField => value ++ "T23:59:59.999Z"
  | .zone z =>
    let (year, month, day) := parts
    match field with
    | .fromField => isoString (zonedWallToInstantMs year month day 0 0 0 0 z)
    | .toField => isoString (zonedWallToInstantMs year month day 23 59 59 999 z)

/-- `parseDateParam`: a day of the calendar, as the instant it starts or ends on in the zone. -/
def parseDateParam (value : Option String) (field : RangeField) (tz : Tz) :
    Except String String :=
  match value.bind fun v => (dateParts v).map fun parts => (v, parts) with
  | none => .error (field.text ++ " must be YYYY-MM-DD")
  | some (v, parts) =>
    let iso := zonedDayText v parts field tz
    if dateParseAll iso = none then .error (field.text ++ " is not a valid date") else .ok iso

/-- `parseRange`, on the two search parameters. -/
def parseRangeParams (fromParam toParam : Option String) (tz : Tz) : Except String TimeRange := do
  let fromIso ← parseDateParam fromParam .fromField tz
  let toIso ← parseDateParam toParam .toField tz
  if toIso < fromIso then .error "from must be on or before to" else return ⟨fromIso, toIso⟩

example : parseRangeParams (some "2026-01-01") (some "9999-12-31") .utc =
    .ok ⟨"2026-01-01T00:00:00.000Z", "9999-12-31T23:59:59.999Z"⟩ := by decide +kernel

/-! ## The queries -/

section Queries

variable {range : TimeRange} {activities : OrdMap ItemEndpoint ActivityRow}
variable {commitFiles : OrdMap ItemEndpoint CommitFilesRow}

theorem parseDateParam_eq_ok {value : Option String} {field : RangeField} {tz : Tz} {iso : String}
    (h : parseDateParam value field tz = .ok iso) : dateParseAll iso ≠ none := by
  unfold parseDateParam at h
  split at h
  · cases h
  · simp only at h
    split at h
    · cases h
    · rename_i hparses
      exact Except.ok.inj h ▸ hparses

theorem dateParseAll_ne_none_of_param {fromParam toParam : Option String} {tz : Tz}
    (h : parseRangeParams fromParam toParam tz = .ok range) :
    dateParseAll range.fromIso ≠ none ∧ dateParseAll range.toIso ≠ none := by
  unfold parseRangeParams at h
  cases hfrom : parseDateParam fromParam .fromField tz with
  | error msg =>
    rw [hfrom] at h
    cases h
  | ok fromIso =>
    cases hto : parseDateParam toParam .toField tz with
    | error msg =>
      rw [hfrom, hto] at h
      cases h
    | ok toIso =>
      rw [hfrom, hto] at h
      have hrange : (if toIso < fromIso then .error "from must be on or before to"
          else .ok ⟨fromIso, toIso⟩ : Except String TimeRange) = .ok range := h
      split at hrange
      · cases hrange
      · obtain rfl := Except.ok.inj hrange
        exact ⟨parseDateParam_eq_ok hfrom, parseDateParam_eq_ok hto⟩

/-- Both ends of an accepted range parse. -/
theorem activityRangeBounds_of_accepted {fromParam toParam : Option String} {tz : Tz}
    (h : parseRangeParams fromParam toParam tz = .ok range) :
    ∃ bounds, activityRangeBounds range = .ok bounds := by
  obtain ⟨f, hf⟩ := Option.ne_none_iff_exists'.mp (dateParseAll_ne_none_of_param h).1
  obtain ⟨t, ht⟩ := Option.ne_none_iff_exists'.mp (dateParseAll_ne_none_of_param h).2
  unfold activityRangeBounds
  rw [hf, ht]
  exact ⟨_, rfl⟩

/-- A commit's files are read in the range: they are known, and the
commit's activity lies in it. -/
def FilesInRange (activities : OrdMap ItemEndpoint ActivityRow) (range : TimeRange)
    (b : ItemEndpoint × CommitFilesRow) : Prop :=
  b.2.files.state = .ok ∧
    ∃ row ∈ commitActivityAt activities b.1, InRange range row.activity.occurredAt

instance (activities : OrdMap ItemEndpoint ActivityRow) (range : TimeRange)
    (b : ItemEndpoint × CommitFilesRow) : Decidable (FilesInRange activities range b) :=
  inferInstanceAs (Decidable (_ ∧ _))

/-- **The queries return the rows of the range, each once.** -/
def PrefilterExact (activities : OrdMap ItemEndpoint ActivityRow)
    (commitFiles : OrdMap ItemEndpoint CommitFilesRow) (range : TimeRange) : Prop :=
  ∃ rows files, listActivitiesInRange activities range = .ok rows ∧
    listCommitFilesInRange activities commitFiles range = .ok files ∧
    rows.Perm (activities.values.filter fun row => InRange range row.activity.occurredAt) ∧
    files = (commitFiles.entries.filter fun b => FilesInRange activities range b).map (·.2)

/-- Where the prefilter keeps the rows in range, the queries are exact. -/
theorem prefilterExact_of_keeps {bounds : ActivityRangeBounds}
    (hbounds : activityRangeBounds range = .ok bounds)
    (hkeeps : ∀ row ∈ activities.values,
      bounds.keeps row.activity.occurredAt = true ↔ InRange range row.activity.occurredAt) :
    PrefilterExact activities commitFiles range := by
  refine ⟨newestFirst (·.activity.occurredAt)
      (activities.values.filter fun row => bounds.keeps row.activity.occurredAt),
    (commitFiles.entries.filter fun b => decide (b.2.files.state = .ok) &&
      (commitActivityAt activities b.1).any fun row => bounds.keeps row.activity.occurredAt).map
        (·.2), ?_, ?_, ?_, ?_⟩
  · rw [listActivitiesInRange, hbounds]
    rfl
  · rw [listCommitFilesInRange, hbounds]
    rfl
  · refine (newestFirst_perm _ _).trans (List.Perm.of_eq (List.filter_congr fun row hrow => ?_))
    rw [Bool.eq_iff_iff, decide_eq_true_eq]
    exact hkeeps row hrow
  · congr 1
    refine List.filter_congr fun b _ => ?_
    rw [Bool.eq_iff_iff, decide_eq_true_eq, Bool.and_eq_true, decide_eq_true_eq, Option.any_eq_true]
    refine and_congr_right fun _ => exists_congr fun row => and_congr_right fun hrow => ?_
    obtain ⟨hget, -⟩ := Option.filter_eq_some_iff.mp hrow
    exact hkeeps row (OrdMap.mem_values_iff.mpr ⟨b.1, hget⟩)

/-- **When the prefilter is exact.** For an accepted range and activities
dated in four-digit years, the two queries return the rows of the range,
just when the end of the range is two days before year 10000 or there is
no row to return. -/
theorem rangePrefilter_iff {fromParam toParam : Option String} {tz : Tz}
    (haccepted : parseRangeParams fromParam toParam tz = .ok range)
    (hiso : ∀ row ∈ activities.values, IsoDated row.activity.occurredAt) :
    PrefilterExact activities commitFiles range ↔
      FarFromYear10000 range ∨
        ∀ row ∈ activities.values, ¬ InRange range row.activity.occurredAt := by
  obtain ⟨bounds, hbounds⟩ := activityRangeBounds_of_accepted haccepted
  constructor
  · rintro ⟨rows, files, hrows, -, hperm, -⟩
    by_contra hno
    obtain ⟨hnear, hsome⟩ := not_or.mp hno
    simp only [not_forall, not_not] at hsome
    obtain ⟨row, hrow, hin⟩ := hsome
    have hmem : row ∈ rows :=
      hperm.mem_iff.mpr (List.mem_filter.mpr ⟨hrow, decide_eq_true hin⟩)
    have heq : newestFirst (·.activity.occurredAt) (activities.values.filter fun row =>
        bounds.keeps row.activity.occurredAt) = rows := by
      rw [listActivitiesInRange, hbounds] at hrows
      exact Except.ok.inj hrows
    rw [← heq, (newestFirst_perm _ _).mem_iff] at hmem
    exact hnear (farFromYear10000_of_keeps hbounds (hiso row hrow) (List.mem_filter.mp hmem).2)
  · intro h
    refine prefilterExact_of_keeps hbounds fun row hrow => ⟨inRange_of_keeps hbounds, fun hin => ?_⟩
    rcases h with hfar | hnone
    · exact keeps_of_inRange hbounds hfar (hiso row hrow) hin
    · exact absurd hin (hnone row hrow)

end Queries

/-! ## A range without an end -/

namespace OpenEnded

/-- A timestamp of a whole minute. -/
def minuteStamp (year month day hour minute : ℕ) (offset : Offset)
    (date : year < 10000 ∧ ValidDate year month day) (time : hour < 24 ∧ minute < 60)
    (offsetValid : offset.Valid)
    (within : -(14 * 60) ≤ offset.minutes ∧ offset.minutes ≤ 14 * 60) : IsoTimestamp where
  stamp :=
    { year, month, day, hour, minute, second := 0, fraction := none, offset, date
      time := ⟨time.1, time.2, by decide⟩, fractionDigits := by simp, offsetValid }
  further := []
  furtherDigits := by simp
  behindMillis := by simp
  within

/-- Noon of 1 June 2026. -/
def noon : IsoTimestamp :=
  minuteStamp 2026 6 1 12 0 .utc ⟨by decide, ⟨by decide, by decide⟩⟩ (by decide) trivial (by decide)

/-- The first half hour of 2027, two hours east of UTC. -/
def newYearEast : IsoTimestamp :=
  minuteStamp 2027 1 1 0 30 (.ahead 2 0) ⟨by decide, ⟨by decide, by decide⟩⟩ (by decide)
    ⟨by decide, by decide⟩ (by decide)

/-- The last half hour of 2026, five hours west of UTC. -/
def newYearWest : IsoTimestamp :=
  minuteStamp 2026 12 31 23 30 (.behind 5 0) ⟨by decide, ⟨by decide, by decide⟩⟩ (by decide)
    ⟨by decide, by decide⟩ (by decide)

/-- Noon of 1 June 2025. -/
def yearBefore : IsoTimestamp :=
  minuteStamp 2025 6 1 12 0 .utc ⟨by decide, ⟨by decide, by decide⟩⟩ (by decide) trivial (by decide)

/-- A GitHub source. -/
def gh : SourceId := ⟨"gh", by decide⟩

/-- A commit stored the day after noon; it names issue 7 by its number. -/
def commitRow (externalId occurredAt : String) : ActivityRow :=
  { activity :=
      { sourceId := gh, externalId, kind := "commit", action := "committed"
        projectPath := some "o/r", targetKind := some "issue", target := none, targetIid := some 7
        title := none, url := none, actor := none, occurredAt }
    firstSeenAt := "2026-06-02T00:00:00Z", lastSeenAt := "2026-06-02T00:00:00Z" }

/-- A row within the range. -/
def noonRow : ActivityRow := commitRow "commit:1" "2026-06-01T12:00:00Z"

/-- Dated to 2027 as text, in 2026 by its instant. -/
def eastRow : ActivityRow := commitRow "commit:2" "2027-01-01T00:30:00+02:00"

/-- Dated to 2026 as text, in 2027 by its instant. -/
def westRow : ActivityRow := commitRow "commit:3" "2026-12-31T23:30:00-05:00"

/-- A row of the year before. -/
def oldRow : ActivityRow := commitRow "commit:4" "2025-06-01T12:00:00Z"

/-- The rows: one inside the year, two whose offsets carry them over its end, and an old one. -/
def activities : OrdMap ItemEndpoint ActivityRow where
  entries := [(⟨gh, "commit:1"⟩, noonRow), (⟨gh, "commit:2"⟩, eastRow),
    (⟨gh, "commit:3"⟩, westRow), (⟨gh, "commit:4"⟩, oldRow)]
  nodup := by decide

/-- The files of a commit, one line added to one of them. -/
def filesRow (externalId : String) (state : CommitFilesState) : CommitFilesRow :=
  ⟨⟨gh, externalId, some "o/r", externalId, state, false, [⟨"a.ts", .modified, 1, 0⟩]⟩,
    "2026-06-02T00:00:00Z"⟩

/-- The files of three commits are known; `commit:3` is a merge. -/
def commitFiles : OrdMap ItemEndpoint CommitFilesRow where
  entries := [(⟨gh, "commit:4"⟩, filesRow "commit:4" .ok), (⟨gh, "commit:2"⟩, filesRow "commit:2" .ok),
    (⟨gh, "commit:3"⟩, filesRow "commit:3" .merge), (⟨gh, "commit:1"⟩, filesRow "commit:1" .ok)]
  nodup := by decide

theorem isoDated : ∀ row ∈ activities.values, IsoDated row.activity.occurredAt := by
  have hvalues : activities.values = [noonRow, eastRow, westRow, oldRow] := rfl
  rw [hvalues]
  intro row hrow
  simp only [List.mem_cons, List.not_mem_nil, or_false] at hrow
  rcases hrow with rfl | rfl | rfl | rfl
  · exact ⟨noon, by decide +kernel⟩
  · exact ⟨newYearEast, by decide +kernel⟩
  · exact ⟨newYearWest, by decide +kernel⟩
  · exact ⟨yearBefore, by decide +kernel⟩

/-- The range of the year 2026. -/
def throughYear2026 : TimeRange := ⟨"2026-01-01T00:00:00.000Z", "2026-12-31T23:59:59.999Z"⟩

/-- A range whose last day is the last of the year 9999. -/
def throughYear9999 : TimeRange := ⟨"2026-01-01T00:00:00.000Z", "9999-12-31T23:59:59.999Z"⟩

end OpenEnded

open OpenEnded in
/-- The text of the widened end starts with a sign, so a range through 31
December 9999 holds no row. -/
theorem not_rangePrefilter : ¬ ∀ (fromParam toParam : Option String) (tz : Tz) (range : TimeRange)
    (activities : OrdMap ItemEndpoint ActivityRow)
    (commitFiles : OrdMap ItemEndpoint CommitFilesRow),
    parseRangeParams fromParam toParam tz = .ok range →
    (∀ row ∈ activities.values, IsoDated row.activity.occurredAt) →
    PrefilterExact activities commitFiles range := by
  intro h
  obtain ⟨rows, -, hrows, -, hperm, -⟩ := h (some "2026-01-01") (some "9999-12-31") .utc
    throughYear9999 activities .empty (by decide +kernel) isoDated
  have hnone : (listActivitiesInRange activities throughYear9999).toOption.map List.length =
      some 0 := by decide +kernel
  have hthree : (activities.values.filter fun row =>
      InRange throughYear9999 row.activity.occurredAt).length = 3 := by decide +kernel
  rw [hrows] at hnone
  have hlen : rows.length = 0 := Option.some.inj hnone
  rw [hperm.length_eq, hthree] at hlen
  exact absurd hlen (by decide)

open OpenEnded in
/-- The year's rows are those of noon and of the new year in the east, with
the files of both. -/
theorem rangePrefilter_iff_throughYear :
    PrefilterExact activities commitFiles throughYear2026 ∧
      (activities.values.filter fun row => InRange throughYear2026 row.activity.occurredAt).map
          (·.activity.externalId) = ["commit:1", "commit:2"] ∧
      (commitFiles.entries.filter fun b => FilesInRange activities throughYear2026 b).map
          (·.2.files.externalId) = ["commit:2", "commit:1"] := by
  have haccepted : parseRangeParams (some "2026-01-01") (some "2026-12-31") .utc =
      .ok throughYear2026 := by decide +kernel
  have hfar : FarFromYear10000 throughYear2026 :=
    ⟨1767225600000, 1798761599999, by decide +kernel, by decide +kernel, by decide⟩
  refine ⟨(rangePrefilter_iff haccepted isoDated).mpr (Or.inl hfar), ?_, ?_⟩
  · decide +kernel
  · decide +kernel

end SymphonyBoard
