import SymphonyBoard.Ui.RailStats
/-!
# The panes agree

Every pane counts the dated rows (`datedRows`), grouped its own way: by
hour, by day, by day and series, by day or weekday and hour. Over a span
that holds the rows the groups cover them, so each pane's counts sum to the
number of rows (`panes_agree`).
-/

namespace SymphonyBoard

/-! ## Dated rows -/

/-- The rows with a calendar day. -/
def datedRows (tz : Tz) (activities : List RailActivity) : List (DateOnly × RailActivity) :=
  activities.filterMap fun a => (zonedDateOf tz a).map fun date => (date, a)

/-- How many rows have a parseable instant. -/
def parseableCount (activities : List RailActivity) : ℕ :=
  activities.countP fun a => (dateParseAll a.occurredAt).isSome

/-- Every parseable instant falls on a day from `a` to `b`. -/
def WithinSpan (tz : Tz) (activities : List RailActivity) (a b : ℤ) : Prop :=
  ∀ x ∈ activities, ∀ ms, dateParseAll x.occurredAt = some ms →
    ∃ n, a ≤ n ∧ n ≤ b ∧ zonedDateOnly ms tz = dateFromDays n

variable {tz : Tz} {activities : List RailActivity} {a b : ℤ}

theorem zonedDateOf_eq (x : RailActivity) :
    zonedDateOf tz x = (dateParseAll x.occurredAt).map fun ms => zonedDateOnly ms tz := by
  unfold zonedDateOf zonedOf
  rw [Option.map_map]
  rfl

theorem length_datedRows : (datedRows tz activities).length = parseableCount activities := by
  unfold datedRows parseableCount
  rw [List.length_filterMap_eq_countP]
  refine List.countP_congr fun x _ => ?_
  rw [zonedDateOf_eq]
  cases dateParseAll x.occurredAt <;> simp

theorem foldl_onDay {β : Type} (step : β → DateOnly → RailActivity → β) (start : β) :
    activities.foldl (onDay tz step) start =
      (datedRows tz activities).foldl (fun acc x => step acc x.1 x.2) start := by
  unfold datedRows
  induction activities generalizing start with
  | nil => rfl
  | cons x activities ih =>
    rw [List.foldl_cons, ih, onDay]
    cases hdate : zonedDateOf tz x with
    | none => simp [hdate]
    | some date => simp [hdate]

/-! ## The days of a span -/

theorem dateOnlyMs?_dateFromDays (n : ℤ) : dateOnlyMs? (dateFromDays n) = some (n * dayMs) := by
  unfold dateOnlyMs?
  rw [daysFromDate_dateFromDays]
  simp

theorem dayLoop_eq (room : ℕ) : dayLoop (b * dayMs) room (a * dayMs) =
    (List.range (min room (b - a + 1).toNat)).map fun i : ℕ => dateFromDays (a + i) := by
  induction room generalizing a with
  | zero => simp [dayLoop]
  | succ room ih =>
    have hnext : a * dayMs + dayMs = (a + 1) * dayMs := by
      unfold dayMs
      omega
    have hday : a * dayMs / dayMs = a := by
      unfold dayMs
      omega
    unfold dayLoop
    by_cases hle : a ≤ b
    · have hms : a * dayMs ≤ b * dayMs := by
        unfold dayMs
        omega
      have hlen : min (room + 1) (b - a + 1).toNat = min room (b - (a + 1) + 1).toNat + 1 := by
        omega
      rw [if_pos hms, hnext, ih, hday, hlen, List.range_succ_eq_map, List.map_cons, List.map_map]
      refine congrArg₂ List.cons (by simp) (List.map_congr_left fun i _ => ?_)
      simp only [Function.comp_apply]
      congr 1
      push_cast
      omega
    · have hms : ¬a * dayMs ≤ b * dayMs := by
        unfold dayMs
        omega
      have hlen : min (room + 1) (b - a + 1).toNat = 0 := by omega
      rw [if_neg hms, hlen]
      rfl

/-- **The days of a span** of at most 400. -/
theorem enumerateDays_eq (hspan : b - a < 400) :
    enumerateDays (dateFromDays a) (dateFromDays b) =
      (List.range (b - a + 1).toNat).map fun i : ℕ => dateFromDays (a + i) := by
  unfold enumerateDays
  simp only [dateOnlyMs?_dateFromDays, dayLoop_eq]
  have hroom : min maxDays (b - a + 1).toNat = (b - a + 1).toNat := by
    unfold maxDays
    omega
  rw [hroom]
  split
  · next h =>
    have hnil : (b - a + 1).toNat = 0 := by
      unfold dayMs at h
      omega
    rw [hnil]
    rfl
  · rfl

theorem nodup_enumerateDays (hspan : b - a < 400) :
    (enumerateDays (dateFromDays a) (dateFromDays b)).Nodup := by
  rw [enumerateDays_eq hspan]
  refine List.Nodup.map (fun i j hij => ?_) List.nodup_range
  have hsame := dateFromDays_injective hij
  omega

theorem mem_enumerateDays (hspan : b - a < 400) {n : ℤ} (hn : a ≤ n) (hn' : n ≤ b) :
    dateFromDays n ∈ enumerateDays (dateFromDays a) (dateFromDays b) := by
  rw [enumerateDays_eq hspan]
  refine List.mem_map.mpr ⟨(n - a).toNat, List.mem_range.mpr (by omega), ?_⟩
  congr 1
  omega

/-- The days of the span cover the dated rows. -/
theorem WithinSpan.covers (h : WithinSpan tz activities a b) (hspan : b - a < 400) :
    ∀ x ∈ datedRows tz activities,
      x.1 ∈ enumerateDays (dateFromDays a) (dateFromDays b) := by
  intro x hx
  obtain ⟨y, hy, hdate⟩ := List.mem_filterMap.mp hx
  rw [zonedDateOf_eq] at hdate
  cases hms : dateParseAll y.occurredAt with
  | none =>
    rw [hms] at hdate
    cases hdate
  | some ms =>
    rw [hms] at hdate
    obtain ⟨n, hn, hn', hday⟩ := h y hy ms hms
    have hx1 : zonedDateOnly ms tz = x.1 := congrArg Prod.fst (Option.some.inj hdate)
    rw [← hx1, hday]
    exact mem_enumerateDays hspan hn hn'

/-- **Counting by day counts every row once.** -/
theorem sum_countP_days (h : WithinSpan tz activities a b) (hspan : b - a < 400) :
    ((enumerateDays (dateFromDays a) (dateFromDays b)).map fun date =>
      (datedRows tz activities).countP fun x => x.1 = date).sum = parseableCount activities := by
  rw [sum_countP (nodup_enumerateDays hspan) (h.covers hspan), length_datedRows]

/-! ## Hours and days -/

theorem countsByDay_eq (activities : List RailActivity) (tz : Tz) (fromDate toDate : DateOnly) :
    (countsByDay activities tz fromDate toDate).map (fun d => (d.date, d.count)) =
      (enumerateDays fromDate toDate).map fun date =>
        (date, (datedRows tz activities).countP fun x => x.1 = date) := by
  unfold countsByDay
  rw [List.map_map]
  refine List.map_congr_left fun date _ => ?_
  simp only [Function.comp_apply, foldl_onDay]
  exact congrArg (Prod.mk date) (OrdMap.count_tally Prod.fst (datedRows tz activities) date)

theorem zonedHourOf_of_date {x : RailActivity} {date : DateOnly} (h : zonedDateOf tz x = some date) :
    ∃ hour : ℕ, zonedHourOf tz x = some (hour : ℤ) ∧ hour < 24 := by
  unfold zonedDateOf zonedOf at h
  unfold zonedHourOf zonedOf
  cases hms : dateParseAll x.occurredAt with
  | none =>
    rw [hms] at h
    cases h
  | some ms =>
    obtain ⟨hlo, hhi⟩ := zonedHour_range ms tz
    refine ⟨(zonedHour ms tz).toNat, ?_, by omega⟩
    rw [Option.map_some, Option.map_some, Int.toNat_of_nonneg hlo]

theorem zonedHourOf_of_no_date {x : RailActivity} (h : zonedDateOf tz x = none) :
    zonedHourOf tz x = none := by
  unfold zonedDateOf at h
  unfold zonedHourOf
  rw [Option.map_eq_none_iff] at h ⊢
  exact h

/-- **The hours count every row.** -/
theorem sum_countsByHour :
    ((countsByHour activities tz).map HourBucket.count).sum = parseableCount activities := by
  have hstep : ∀ (l : List RailActivity) (buckets : List HourBucket), buckets.length = 24 →
      ((l.foldl (countHour tz) buckets).map HourBucket.count).sum =
        (buckets.map HourBucket.count).sum + (datedRows tz l).length := by
    intro l
    induction l with
    | nil => intro buckets _; rfl
    | cons x l ih =>
      intro buckets hlen
      rw [List.foldl_cons]
      cases hdate : zonedDateOf tz x with
      | none =>
        have hskip : countHour tz buckets x = buckets := by
          rw [countHour, zonedHourOf_of_no_date hdate]
        rw [hskip, ih buckets hlen]
        simp [datedRows, hdate]
      | some date =>
        obtain ⟨hour, hhour, hlt⟩ := zonedHourOf_of_date hdate
        have hcount : countHour tz buckets x = buckets.modify hour HourBucket.add := by
          rw [countHour, hhour]
          rfl
        rw [hcount, ih _ (by simpa using hlen)]
        have hsum := sum_map_modify (f := HourBucket.count) (g := HourBucket.add)
          (l := buckets) (fun _ _ => rfl) (i := hour) (by omega)
        rw [hsum]
        simp [datedRows, hdate]
        omega
  have hzero : (((List.range 24).map fun hour => HourBucket.mk hour 0).map HourBucket.count).sum =
      0 := rfl
  unfold countsByHour
  rw [hstep _ _ (by simp), length_datedRows, hzero, Nat.zero_add]

/-! ## Lines changed -/

theorem churnByDay_eq (activities : List RailActivity) (tz : Tz) (fromDate toDate : DateOnly) :
    (churnByDay activities tz fromDate toDate).map (fun d => (d.date, d.commits)) =
      (enumerateDays fromDate toDate).map fun date =>
        (date, (datedRows tz activities).countP fun x => x.1 = date) := by
  have hadd : ∀ (x : RailActivity) (day : ChurnDay),
      (day.add x).date = day.date ∧ (day.add x).commits = day.commits + 1 := by
    intro x day
    unfold ChurnDay.add
    simp only
    split <;> exact ⟨rfl, rfl⟩
  have hfold : ∀ (date : DateOnly) (l : List (DateOnly × RailActivity)) (o : Option ChurnDay),
      (o.getD (.zero date)).date = date → (∀ x ∈ l, x.1 = date) →
      ((l.foldl (fun o x => some ((o.getD (.zero x.1)).add x.2)) o).getD (.zero date)).date =
          date ∧
        ((l.foldl (fun o x => some ((o.getD (.zero x.1)).add x.2)) o).getD (.zero date)).commits =
          (o.getD (.zero date)).commits + l.length := by
    intro date l
    induction l with
    | nil => intro o ho _; exact ⟨ho, rfl⟩
    | cons x l ih =>
      intro o ho hall
      obtain rfl : x.1 = date := hall x List.mem_cons_self
      obtain ⟨hdate, hcommits⟩ := hadd x.2 (o.getD (.zero x.1))
      obtain ⟨ihdate, ihcommits⟩ := ih (some ((o.getD (.zero x.1)).add x.2))
        (by rw [Option.getD_some, hdate, ho]) fun y hy => hall y (List.mem_cons_of_mem _ hy)
      refine ⟨ihdate, ?_⟩
      rw [List.foldl_cons, ihcommits, Option.getD_some, hcommits, List.length_cons]
      omega
  unfold churnByDay
  rw [List.map_map]
  refine List.map_congr_left fun date _ => ?_
  simp only [Function.comp_apply]
  rw [foldl_onDay]
  rw [OrdMap.get?_foldl_upsert Prod.fst
    (fun (x : DateOnly × RailActivity) (day : Option ChurnDay) =>
      (day.getD (.zero x.1)).add x.2), OrdMap.get?_empty]
  obtain ⟨hdate, hcommits⟩ := hfold date
    ((datedRows tz activities).filter fun x => x.1 = date) none rfl fun x hx => by
      simpa using (List.mem_filter.mp hx).2
  rw [hdate, hcommits, List.countP_eq_length_filter]
  simp [ChurnDay.zero]

/-! ## Stacked days -/

section Stack

variable {keyOf : RailActivity → SeriesKey} {localeCompare : String → String → Ordering}

/-- The tallies of a walk: the keys of the dated rows, and those of each day. -/
structure Tallied (keyOf : RailActivity → SeriesKey) (rows : List (DateOnly × RailActivity))
    (t : StackTally) : Prop where
  totals : t.totals = OrdMap.tally (fun x => (keyOf x.2).key) rows
  perDay : ∀ date, (t.perDay.get? date).getD .empty =
    OrdMap.tally (fun x => (keyOf x.2).key) (rows.filter fun x => x.1 = date)

theorem tally_concat {α : Type} (key : α → String) (l : List α) (x : α) :
    OrdMap.tally key (l ++ [x]) = (OrdMap.tally key l).addAt (key x) 1 := by
  unfold OrdMap.tally
  rw [List.foldl_append]
  rfl

theorem tallied_foldl (keyOf : RailActivity → SeriesKey) (rows : List (DateOnly × RailActivity)) :
    Tallied keyOf rows
      (rows.foldl (fun t x => t.add keyOf x.1 x.2) ⟨.empty, .empty, .empty⟩) := by
  induction rows using List.reverseRecOn with
  | nil => exact ⟨rfl, fun _ => rfl⟩
  | append_singleton rows x ih =>
    rw [List.foldl_append]
    generalize rows.foldl (fun (t : StackTally) x => t.add keyOf x.1 x.2)
      ⟨.empty, .empty, .empty⟩ = t at ih ⊢
    refine ⟨?_, fun date => ?_⟩
    · rw [tally_concat, ← ih.totals]
      rfl
    · simp only [List.foldl_cons, List.foldl_nil, StackTally.add, OrdMap.get?_upsert]
      by_cases hdate : x.1 = date
      · have hfilter : (rows ++ [x]).filter (fun x => x.1 = date) =
            (rows.filter fun x => x.1 = date) ++ [x] := by
          simp [List.filter_append, hdate]
        rw [if_pos hdate, Option.getD_some, hfilter, tally_concat, hdate, ih.perDay]
      · have hfilter : (rows ++ [x]).filter (fun x => x.1 = date) =
            rows.filter fun x => x.1 = date := by
          simp [List.filter_append, hdate]
        rw [if_neg hdate, hfilter, ih.perDay]

/-- **A day's bar is cut, not trimmed**: where each key has a series, the
segments sum to the total, and the total is what was counted. -/
theorem stackedDay_spec (kept series : List RailRank) (date : DateOnly) (counts : OrdMap String ℕ)
    (hkept : ∀ k, k ∈ kept.map (·.key) → k ∈ series.map (·.key))
    (hseries : (∀ e ∈ counts.entries, e.1 ∈ kept.map (·.key)) ∨ series ≠ []) :
    (stackedDay kept series date counts).date = date ∧
      (stackedDay kept series date counts).total = counts.sum ∧
      (stackedDay kept series date counts).segments.sum =
        (stackedDay kept series date counts).total := by
  have hindex : ∀ e ∈ counts.entries,
      (if e.1 ∈ kept.map (·.key) then series.findIdx (·.key = e.1) else series.length - 1) <
        series.length := by
    intro e he
    split
    · next hmem =>
      obtain ⟨rank, hrank, hkey⟩ := List.mem_map.mp (hkept e.1 hmem)
      exact List.findIdx_lt_length_of_exists ⟨rank, hrank, by simpa using hkey⟩
    · next hmem =>
      have hne : series ≠ [] := hseries.resolve_left fun hall => hmem (hall e he)
      have hpos := List.length_pos_iff.mpr hne
      omega
  -- each count goes to one segment, so the sum and the total grow alike
  have hfold : ∀ (l : List (String × ℕ)) (day : StackedDay),
      day.segments.length = series.length → day.segments.sum = day.total →
      (∀ e ∈ l, (if e.1 ∈ kept.map (·.key) then series.findIdx (·.key = e.1)
        else series.length - 1) < series.length) →
      let day' := l.foldl (fun day e =>
        let index := if e.1 ∈ kept.map (·.key) then series.findIdx (·.key = e.1)
          else series.length - 1
        { day with
          segments := day.segments.modify index (· + e.2)
          total := day.total + e.2 }) day
      day'.date = day.date ∧ day'.total = day.total + (l.map Prod.snd).sum ∧
        day'.segments.sum = day'.total := by
    intro l
    induction l with
    | nil =>
      intro day _ hsum _
      exact ⟨rfl, by simp, hsum⟩
    | cons e l ih =>
      intro day hlen hsum hall
      rw [List.foldl_cons]
      have hat := hall e List.mem_cons_self
      have hsegment := sum_map_modify (f := fun n : ℕ => n) (g := (· + e.2)) (n := e.2)
        (l := day.segments) (fun _ _ => rfl) (by rw [hlen]; exact hat)
      rw [List.map_id', List.map_id'] at hsegment
      obtain ⟨hdate, htotal, hsum'⟩ := ih
        { day with
          segments := day.segments.modify
            (if e.1 ∈ kept.map (·.key) then series.findIdx (·.key = e.1) else series.length - 1)
            (· + e.2)
          total := day.total + e.2 }
        (by rw [List.length_modify, hlen]) (by rw [hsegment, hsum])
        fun e' he' => hall e' (List.mem_cons_of_mem _ he')
      refine ⟨hdate, ?_, hsum'⟩
      rw [List.map_cons, List.sum_cons]
      refine htotal.trans ?_
      simp only
      omega
  obtain ⟨hdate, htotal, hsum⟩ := hfold counts.entries
    { date, total := 0, segments := series.map fun _ => 0 } (by simp) (by simp) hindex
  refine ⟨hdate, htotal.trans ?_, hsum⟩
  rw [Nat.zero_add]
  rfl

theorem topRanks_perm (localeCompare : String → String → Ordering) (counts : OrdMap String ℕ) :
    (topRanks localeCompare counts 0).Perm (counts.entries.map fun e => ⟨e.1, e.1, e.2⟩) := by
  unfold topRanks
  exact sortBy_perm _ _

/-- The members of a sublist are found again by their keys. -/
theorem filter_mem_of_sublist {α : Type} {key : α → String} {l l' : List α} (h : l'.Sublist l)
    (hnodup : (l.map key).Nodup) : l.filter (fun x => key x ∈ l'.map key) = l' := by
  induction h with
  | slnil => rfl
  | @cons l' l x hsub ih =>
    rw [List.map_cons, List.nodup_cons] at hnodup
    have hnot : key x ∉ l'.map key := fun hmem => hnodup.1 ((hsub.map key).subset hmem)
    rw [List.filter_cons_of_neg (by simpa using hnot)]
    exact ih hnodup.2
  | @cons_cons l' l x hsub ih =>
    rw [List.map_cons, List.nodup_cons] at hnodup
    have hrest : l.filter (fun y => key y ∈ (x :: l').map key) =
        l.filter fun y => key y ∈ l'.map key := by
      refine List.filter_congr fun y hy => ?_
      have hne : key y ≠ key x := fun hc => hnodup.1 (hc ▸ List.mem_map_of_mem hy)
      simp [hne]
    rw [List.filter_cons_of_pos (by simp), hrest, ih hnodup.2]

/-- **What is kept and what is folded make up the whole**: kept ranks and the
rest of the tally sum to the tally. -/
theorem kept_add_fold {totals : OrdMap String ℕ} {kept : List RailRank}
    (h : kept.Sublist (topRanks localeCompare totals 0)) :
    (kept.map (·.count)).sum +
        ((totals.entries.filter fun e => e.1 ∉ kept.map (·.key)).map Prod.snd).sum =
      totals.sum := by
  have hperm := topRanks_perm localeCompare totals
  have hnodup : ((topRanks localeCompare totals 0).map (·.key)).Nodup := by
    refine ((hperm.map (·.key)).nodup_iff).mpr ?_
    rw [List.map_map]
    exact totals.nodup
  have hkept : (kept.map (·.count)).sum =
      ((totals.entries.filter fun e => e.1 ∈ kept.map (·.key)).map Prod.snd).sum := by
    have hfound := filter_mem_of_sublist h hnodup
    have hfilter := hperm.filter fun x => x.key ∈ kept.map (·.key)
    rw [hfound] at hfilter
    rw [(hfilter.map (·.count)).sum_eq, List.filter_map, List.map_map]
    rfl
  rw [hkept, OrdMap.sum, OrdMap.values, ← List.sum_append, ← List.map_append]
  refine ((List.Perm.map Prod.snd ?_).sum_eq)
  have hsplit := List.filter_append_perm (fun e : String × ℕ => e.1 ∈ kept.map (·.key))
    totals.entries
  simpa only [decide_not] using hsplit

/-- **The series and the days of a stack**: the series counts sum to the
rows, each day has its rows for a total, and its segments sum to that. -/
theorem stackedDays_spec (localeCompare : String → String → Ordering)
    (activities : List RailActivity) (tz : Tz) (fromDate toDate : DateOnly)
    (keyOf : RailActivity → SeriesKey) (limit : JsNumber) :
    let s := stackedDays localeCompare activities tz fromDate toDate keyOf limit
    (s.series.map (·.count)).sum = parseableCount activities ∧
      s.days.map (fun d => (d.date, d.total)) =
        (enumerateDays fromDate toDate).map (fun date =>
          (date, (datedRows tz activities).countP fun x => x.1 = date)) ∧
      ∀ day ∈ s.days, day.segments.sum = day.total := by
  have htallied := tallied_foldl keyOf (datedRows tz activities)
  rw [← foldl_onDay (StackTally.add keyOf)] at htallied
  unfold stackedDays
  simp only
  generalize activities.foldl (onDay tz (StackTally.add keyOf)) ⟨.empty, .empty, .empty⟩ = t
    at htallied ⊢
  generalize hkept : ((topRanks localeCompare t.totals 0).filter (·.key ≠ stackFoldKey)).take
    (sliceEnd limit ((topRanks localeCompare t.totals 0).filter (·.key ≠ stackFoldKey)).length) =
    kept
  have hsub : kept.Sublist (topRanks localeCompare t.totals 0) := by
    rw [← hkept]
    exact (List.take_sublist _ _).trans List.filter_sublist
  have hsum := kept_add_fold hsub
  generalize hfold : ((t.totals.entries.filter fun e => e.1 ∉ kept.map (·.key)).map Prod.snd).sum =
    foldTotal at hsum ⊢
  set keptSeries := kept.map fun rank =>
    { rank with label := (t.labels.get? rank.key).getD rank.key } with hkeptSeries
  set series := keptSeries ++
    if 0 < foldTotal then [⟨stackFoldKey, stackFoldKey, foldTotal⟩] else [] with hseries
  have hkeys : keptSeries.map (·.key) = kept.map (·.key) := by
    rw [hkeptSeries, List.map_map]
    rfl
  have hcounts : keptSeries.map (·.count) = kept.map (·.count) := by
    rw [hkeptSeries, List.map_map]
    rfl
  have htotal : (series.map (·.count)).sum = parseableCount activities := by
    have hrows : t.totals.sum = parseableCount activities := by
      rw [htallied.totals, OrdMap.sum_tally, length_datedRows]
    rw [hseries, List.map_append, List.sum_append, hcounts, ← hrows, ← hsum]
    split
    · simp
    · next hzero => simp [Nat.eq_zero_of_not_pos hzero]
  -- A key that is not kept was counted into the fold, so the fold is a series.
  have hroom : ∀ k, k ∈ (datedRows tz activities).map (fun x => (keyOf x.2).key) →
      k ∈ kept.map (·.key) ∨ series ≠ [] := by
    intro k hk
    by_cases hmem : k ∈ kept.map (·.key)
    · exact .inl hmem
    · refine .inr ?_
      have hget : t.totals.get? k = some ((datedRows tz activities).countP
          fun x => (keyOf x.2).key = k) := by
        have hcount := OrdMap.count_tally (fun x => (keyOf x.2).key) (datedRows tz activities) k
        have hbound := OrdMap.get?_foldl_addAt (fun x => (keyOf x.2).key) (fun _ => 1)
          (datedRows tz activities) k
        rw [if_pos hk] at hbound
        change (OrdMap.tally (fun x => (keyOf x.2).key) (datedRows tz activities)).get? k = _
          at hbound
        rw [OrdMap.count, hbound, Option.getD_some] at hcount
        rw [htallied.totals, hbound, hcount]
      have hpos : 0 < (datedRows tz activities).countP fun x => (keyOf x.2).key = k := by
        obtain ⟨x, hx, hkx⟩ := List.mem_map.mp hk
        exact List.countP_pos_iff.mpr ⟨x, hx, by simpa using hkx⟩
      have hentry := OrdMap.mem_entries_iff.mpr hget
      have hle : (datedRows tz activities).countP (fun x => (keyOf x.2).key = k) ≤ foldTotal := by
        rw [← hfold]
        refine List.single_le_sum (fun _ _ => Nat.zero_le _) _ ?_
        exact List.mem_map.mpr ⟨_, List.mem_filter.mpr ⟨hentry, by simpa using hmem⟩, rfl⟩
      rw [hseries, if_pos (by omega)]
      exact List.append_ne_nil_of_right_ne_nil _ (List.cons_ne_nil _ _)
  have hday : ∀ date, (stackedDay kept series date ((t.perDay.get? date).getD .empty)).date =
        date ∧
      (stackedDay kept series date ((t.perDay.get? date).getD .empty)).total =
        (datedRows tz activities).countP (fun x => x.1 = date) ∧
      (stackedDay kept series date ((t.perDay.get? date).getD .empty)).segments.sum =
        (stackedDay kept series date ((t.perDay.get? date).getD .empty)).total := by
    intro date
    rw [htallied.perDay]
    have hspec := stackedDay_spec kept series date
      (OrdMap.tally (fun x => (keyOf x.2).key)
        ((datedRows tz activities).filter fun x => x.1 = date))
      (fun k hk => by
        rw [hseries, List.map_append, hkeys]
        exact List.mem_append_left _ hk)
      (by
        by_cases hne : series = []
        · refine .inl fun e he => ?_
          have hget := OrdMap.mem_entries_iff.mp he
          have hbound := OrdMap.get?_foldl_addAt (fun x => (keyOf x.2).key) (fun _ => 1)
            ((datedRows tz activities).filter fun x => x.1 = date) e.1
          change (OrdMap.tally (fun x : DateOnly × RailActivity => (keyOf x.2).key) _).get? e.1 = _ at hbound
          have hin : e.1 ∈ ((datedRows tz activities).filter fun x => x.1 = date).map
              fun x => (keyOf x.2).key := by
            by_contra hnot
            rw [if_neg hnot] at hbound
            rw [hbound] at hget
            cases hget
          obtain ⟨x, hx, hkx⟩ := List.mem_map.mp hin
          exact (hroom e.1 (List.mem_map.mpr ⟨x, (List.mem_filter.mp hx).1, hkx⟩)).resolve_right
            fun h => h hne
        · exact .inr hne)
    rw [OrdMap.sum_tally, ← List.countP_eq_length_filter] at hspec
    exact hspec
  refine ⟨htotal, ?_, fun day hmem => ?_⟩
  · rw [List.map_map]
    refine List.map_congr_left fun date _ => ?_
    obtain ⟨hdate, htot, -⟩ := hday date
    simp only [Function.comp_apply, hdate, htot]
  · obtain ⟨date, -, rfl⟩ := List.mem_map.mp hmem
    exact (hday date).2.2

end Stack

/-! ## Day by hour -/

/-- One row counted where the grid has a row for it. -/
theorem punchRow_spec (rowKey : DateOnly → PunchKey) {rows : List PunchRow} {date : DateOnly}
    {x : RailActivity} (hdate : zonedDateOf tz x = some date)
    (hkey : rowKey date ∈ rows.map (·.key)) (hhours : ∀ row ∈ rows, row.hours.length = 24) :
    (punchRow tz rowKey rows date x).map (fun row => (row.key, row.hours.length)) =
        rows.map (fun row => (row.key, row.hours.length)) ∧
      ((punchRow tz rowKey rows date x).map (·.total)).sum = (rows.map (·.total)).sum + 1 ∧
      ((punchRow tz rowKey rows date x).map (·.hours.sum)).sum =
        (rows.map (·.hours.sum)).sum + 1 := by
  obtain ⟨hour, hhour, hlt⟩ := zonedHourOf_of_date hdate
  obtain ⟨row, hrow, hrowkey⟩ := List.mem_map.mp hkey
  have hfound : ∃ i, rows.findIdx? (fun row => decide (row.key = rowKey date)) = some i ∧
      i < rows.length := by
    cases hfind : rows.findIdx? (fun row => decide (row.key = rowKey date)) with
    | none =>
      have hnone := List.findIdx?_eq_none_iff.mp hfind row hrow
      exact absurd hrowkey (by simpa using hnone)
    | some i =>
      obtain ⟨hi, -⟩ := List.findIdx?_eq_some_iff_getElem.mp hfind
      exact ⟨i, rfl, hi⟩
  obtain ⟨i, hfind, hi⟩ := hfound
  have hstep : punchRow tz rowKey rows date x = rows.modify i (PunchRow.add hour) := by
    rw [punchRow, hfind, hhour]
    rfl
  rw [hstep]
  refine ⟨map_modify_of_eq (fun row => ?_) rows i, sum_map_modify (fun _ _ => rfl) hi,
    sum_map_modify (fun row hrow => ?_) hi⟩
  · simp [PunchRow.add]
  · have hcell := sum_map_modify (f := fun n : ℕ => n) (g := (· + 1)) (n := 1) (l := row.hours)
      (fun _ _ => rfl) (i := hour) (by rw [hhours row hrow]; exact hlt)
    rw [List.map_id', List.map_id'] at hcell
    exact hcell

/-- A walk over dated rows counts each of them, the grid having a row for
each. -/
theorem foldl_punchRow (rowKey : DateOnly → PunchKey) {blank : List PunchRow}
    (rows : List (DateOnly × RailActivity)) (hdates : ∀ x ∈ rows, zonedDateOf tz x.2 = some x.1)
    (hkeys : ∀ x ∈ rows, rowKey x.1 ∈ blank.map (·.key))
    (hhours : ∀ row ∈ blank, row.hours.length = 24) :
    let grid := rows.foldl (fun grid x => punchRow tz rowKey grid x.1 x.2) blank
    (grid.map (·.total)).sum = (blank.map (·.total)).sum + rows.length ∧
      (grid.map (·.hours.sum)).sum = (blank.map (·.hours.sum)).sum + rows.length := by
  induction rows generalizing blank with
  | nil => exact ⟨rfl, rfl⟩
  | cons x rows ih =>
    obtain ⟨hshape, htotal, hsum⟩ := punchRow_spec rowKey
      (hdates x List.mem_cons_self) (hkeys x List.mem_cons_self) hhours
    have hshape_keys : (punchRow tz rowKey blank x.1 x.2).map (·.key) = blank.map (·.key) := by
      have hfst := congrArg (List.map Prod.fst) hshape
      simpa [List.map_map, Function.comp_def] using hfst
    have hshape_hours : ∀ row ∈ punchRow tz rowKey blank x.1 x.2, row.hours.length = 24 := by
      intro row hrow
      have hmem : (row.key, row.hours.length) ∈
          blank.map (fun row => (row.key, row.hours.length)) :=
        hshape ▸ List.mem_map_of_mem (f := fun row : PunchRow => (row.key, row.hours.length)) hrow
      obtain ⟨row', hrow', heq⟩ := List.mem_map.mp hmem
      rw [← (Prod.mk.inj heq).2]
      exact hhours row' hrow'
    obtain ⟨ihtotal, ihsum⟩ := ih
      (fun y hy => hdates y (List.mem_cons_of_mem _ hy))
      (fun y hy => by rw [hshape_keys]; exact hkeys y (List.mem_cons_of_mem _ hy)) hshape_hours
    rw [htotal] at ihtotal
    rw [hsum] at ihsum
    refine ⟨ihtotal.trans ?_, ihsum.trans ?_⟩
    · rw [List.length_cons]
      omega
    · rw [List.length_cons]
      omega

theorem weekdayOf_mem (date : DateOnly) : weekdayOf date ∈ weekdayRows := by
  have hrange : 0 ≤ weekdayOf date ∧ weekdayOf date < 7 := by
    simp only [weekdayOf, weekdayOfDays]
    omega
  simp only [weekdayRows, List.mem_cons, List.not_mem_nil, or_false]
  omega

theorem datedRows_date : ∀ x ∈ datedRows tz activities, zonedDateOf tz x.2 = some x.1 := by
  intro x hx
  obtain ⟨y, -, hy⟩ := List.mem_filterMap.mp hx
  obtain ⟨date, hdate, rfl⟩ := Option.map_eq_some_iff.mp hy
  exact hdate

/-- **The grid counts every row**, by day or by weekday. -/
theorem punchCard_spec (hcovers : ∀ x ∈ datedRows tz activities,
      x.1 ∈ enumerateDays (dateFromDays a) (dateFromDays b)) :
    let card := punchCard activities tz (dateFromDays a) (dateFromDays b)
    (card.rows.map (·.total)).sum = parseableCount activities ∧
      (card.rows.map (·.hours.sum)).sum = parseableCount activities := by
  unfold punchCard
  simp only [foldl_onDay]
  set dates := enumerateDays (dateFromDays a) (dateFromDays b)
  generalize (decide (punchCardDayRowsMax < dates.length)) = byWeekday
  -- by weekday or by date, every dated row finds its line on the card
  have hblank : ∀ {blank : List PunchRow},
      (blank = if byWeekday = true then weekdayRows.map fun day => PunchRow.empty (.weekday day) day
        else dates.map fun date => PunchRow.empty (.date date) (weekdayOf date)) →
      (∀ row ∈ blank, row.hours = List.replicate 24 0 ∧ row.total = 0) ∧
        ∀ x ∈ datedRows tz activities,
          (if byWeekday = true then PunchKey.weekday (weekdayOf x.1) else .date x.1) ∈
            blank.map (·.key) := by
    rintro blank rfl
    split
    · refine ⟨fun row hrow => ?_, fun x _ => ?_⟩
      · obtain ⟨day, -, rfl⟩ := List.mem_map.mp hrow
        exact ⟨rfl, rfl⟩
      · rw [List.map_map]
        exact List.mem_map.mpr ⟨weekdayOf x.1, weekdayOf_mem x.1, rfl⟩
    · refine ⟨fun row hrow => ?_, fun x hx => ?_⟩
      · obtain ⟨date, -, rfl⟩ := List.mem_map.mp hrow
        exact ⟨rfl, rfl⟩
      · rw [List.map_map]
        exact List.mem_map.mpr ⟨x.1, hcovers x hx, rfl⟩
  obtain ⟨hempty, hkeys⟩ := hblank rfl
  have hwalk := foldl_punchRow
    (fun date => if byWeekday = true then PunchKey.weekday (weekdayOf date) else .date date)
    (datedRows tz activities) datedRows_date hkeys fun row hrow => by rw [(hempty row hrow).1, List.length_replicate]
  rw [length_datedRows] at hwalk
  have hzero : ∀ {f : PunchRow → ℕ} {blank : List PunchRow}, (∀ row ∈ blank, f row = 0) →
      (blank.map f).sum = 0 := by
    intro f blank hall
    rw [List.sum_eq_zero_iff]
    intro n hn
    obtain ⟨row, hrow, rfl⟩ := List.mem_map.mp hn
    exact hall row hrow
  rw [hzero fun row hrow => (hempty row hrow).2,
    hzero fun row hrow => by rw [(hempty row hrow).1]; rfl, Nat.zero_add] at hwalk
  exact hwalk

/-! ## The rail -/

/-- **What the panes have to agree on.** -/
structure PanesAgree (localeCompare : String → String → Ordering) (activities : List RailActivity)
    (tz : Tz) (fromDate toDate : DateOnly) (keyOf : RailActivity → SeriesKey) (limit : JsNumber) :
    Prop where
  hours : ((countsByHour activities tz).map (·.count)).sum = parseableCount activities
  days : ((countsByDay activities tz fromDate toDate).map (·.count)).sum =
    parseableCount activities
  stackTotals : ((stackedDays localeCompare activities tz fromDate toDate keyOf limit).days.map
    (·.total)).sum = parseableCount activities
  stackSegments : ((stackedDays localeCompare activities tz fromDate toDate keyOf limit).days.map
    (·.segments.sum)).sum = parseableCount activities
  series : ((stackedDays localeCompare activities tz fromDate toDate keyOf limit).series.map
    (·.count)).sum = parseableCount activities
  commits : ((churnByDay activities tz fromDate toDate).map (·.commits)).sum =
    parseableCount activities
  punchTotals : ((punchCard activities tz fromDate toDate).rows.map (·.total)).sum =
    parseableCount activities
  punchHours : ((punchCard activities tz fromDate toDate).rows.map (·.hours.sum)).sum =
    parseableCount activities
  stackDay : (countsByDay activities tz fromDate toDate).map (fun d => (d.date, d.count)) =
    (stackedDays localeCompare activities tz fromDate toDate keyOf limit).days.map
      fun d => (d.date, d.total)
  churnDay : (countsByDay activities tz fromDate toDate).map (fun d => (d.date, d.count)) =
    (churnByDay activities tz fromDate toDate).map fun d => (d.date, d.commits)
  segments : ∀ day ∈ (stackedDays localeCompare activities tz fromDate toDate keyOf limit).days,
    day.segments.sum = day.total

/-- **The panes agree** over every span of at most 400 days that holds the
rows. -/
theorem panes_agree (localeCompare : String → String → Ordering) (activities : List RailActivity)
    (tz : Tz) (a b : ℤ) (keyOf : RailActivity → SeriesKey) (limit : JsNumber)
    (hspan : b - a + 1 ≤ 400) (hwithin : WithinSpan tz activities a b) :
    PanesAgree localeCompare activities tz (dateFromDays a) (dateFromDays b) keyOf limit := by
  have hlt : b - a < 400 := by omega
  have hdays := sum_countP_days hwithin hlt
  obtain ⟨hseries, hstack, hsegments⟩ := stackedDays_spec localeCompare activities tz
    (dateFromDays a) (dateFromDays b) keyOf limit
  obtain ⟨hpunch, hcells⟩ := punchCard_spec (hwithin.covers hlt)
  have hcounts := countsByDay_eq activities tz (dateFromDays a) (dateFromDays b)
  have hchurn := churnByDay_eq activities tz (dateFromDays a) (dateFromDays b)
  -- A pane with the rows of each day for its counts sums to all of them.
  have hsum : ∀ {α : Type} {date : α → DateOnly} {count : α → ℕ} {l : List α},
      l.map (fun d => (date d, count d)) =
        (enumerateDays (dateFromDays a) (dateFromDays b)).map (fun date =>
          (date, (datedRows tz activities).countP fun x => x.1 = date)) →
      (l.map count).sum = parseableCount activities := by
    intro α date count l h
    have hsnd := congrArg (List.map Prod.snd) h
    rw [List.map_map, List.map_map] at hsnd
    have hcount : l.map count = l.map (Prod.snd ∘ fun d => (date d, count d)) := rfl
    rw [hcount, hsnd]
    exact hdays
  have htotals := hsum hstack
  refine ⟨sum_countsByHour, hsum hcounts, htotals, ?_, hseries, hsum hchurn, hpunch, hcells,
    hcounts.trans hstack.symm, hcounts.trans hchurn.symm, hsegments⟩
  rw [← htotals]
  congr 1
  exact List.map_congr_left hsegments

/-! ### Three weeks of March -/

namespace ThreeWeeks

theorem noBar : '|' ∉ "github".toList := by decide

/-- A GitHub source. -/
def github : SourceId := ⟨"github", noBar⟩

/-- An activity of one kind and time. -/
def activity (kind occurredAt : String) : RailActivity :=
  { sourceId := github, externalId := kind ++ occurredAt, kind, action := "pushed"
    projectPath := none, targetKind := none, targetRef := none, targetIid := none, title := none
    actor := none, occurredAt, details := none }

/-- Two commits, the first of them on 9 March by its instant, a review and a
comment, and a row without an instant. -/
def rows : List RailActivity :=
  [activity "commit" "2026-03-08T23:30:00-02:00", activity "review" "2026-03-16T08:00:00Z",
    activity "comment" "2026-03-02T08:00:00Z", activity "commit" "2026-03-20T08:00:00Z",
    activity "commit" "soon"]

/-- From 1 to 20 March. -/
theorem rows_within : WithinSpan .utc rows 20513 20532 := by
  have hdays : (rows.filterMap fun a => dateParseAll a.occurredAt) =
      [1773019800000, 1773648000000, 1772438400000, 1773993600000] := by
    decide +kernel
  have hall : ∀ ms ∈ [1773019800000, 1773648000000, 1772438400000, 1773993600000],
      ∃ n ∈ [20521, 20528, 20514, 20532], zonedDateOnly ms .utc = dateFromDays n := by
    decide +kernel
  intro x hx ms hms
  obtain ⟨n, hn, hdate⟩ := hall ms (hdays ▸ List.mem_filterMap.mpr ⟨x, hx, hms⟩)
  have hbounds : ∀ n ∈ [20521, 20528, 20514, 20532], (20513 : ℤ) ≤ n ∧ n ≤ 20532 := by decide
  exact ⟨n, (hbounds n hn).1, (hbounds n hn).2, hdate⟩

/-- The series are ranked by an order. -/
instance transCmp_ranks : Std.TransCmp fun a b : RailRank =>
    (compare b.count a.count).then (compare a.label b.label) := by
  have hcount : Std.TransCmp fun a b : RailRank => compare b.count a.count :=
    @Std.TransCmp.opposite _ (compareOn RailRank.count) _
  exact inferInstanceAs (Std.TransCmp (compareLex (fun a b : RailRank => compare b.count a.count)
    (compareOn RailRank.label)))

/-- **The same over three weeks**, with the series but one folded together
and the punch card by weekdays. -/
theorem panes_agree_threeWeeks :
    PanesAgree compare rows .utc ⟨2026, 3, 1⟩ ⟨2026, 3, 20⟩ (fun a => ⟨a.kind, a.kind⟩)
        (.finite 1) ∧
      (stackedDays compare rows .utc ⟨2026, 3, 1⟩ ⟨2026, 3, 20⟩ (fun a => ⟨a.kind, a.kind⟩)
        (.finite 1)).series.map (fun r => (r.key, r.count)) = [("commit", 2), (stackFoldKey, 2)] ∧
      (punchCard rows .utc ⟨2026, 3, 1⟩ ⟨2026, 3, 20⟩).byWeekday = true := by
  refine ⟨panes_agree compare rows .utc 20513 20532 (fun a => ⟨a.kind, a.kind⟩) (.finite 1)
    (by decide) rows_within, ?_, by decide +kernel⟩
  simp only [stackedDays, topRanks, sortBy_eq_insertionSort]
  decide +kernel

end ThreeWeeks

end SymphonyBoard
