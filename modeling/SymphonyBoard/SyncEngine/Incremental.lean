import SymphonyBoard.SyncEngine.Writes
/-!
# What an incremental run commits

An incremental run merges the records of the refresh pass over those of
the fetch, writes them, and merges the fetch's watermark into the stored
one. Every fetched record is written under its identity, by itself or by a
later record of the same identity (`mem_dedupeRecords_iff`); the stored
watermark is the merge (`getWatermark_commitRun`).
-/

namespace SymphonyBoard

variable {P : Type}

/-! ## The merged records -/

/-- A record survives the merge if it is the last of its identity. -/
theorem mem_dedupeRecords_iff {records : List (RawRecord P)} {r : RawRecord P} :
    r ∈ dedupeRecords records ↔ (records.filter fun r' => r'.key = r.key).getLast? = some r := by
  rw [dedupeRecords, OrdMap.mem_values_iff]
  simp only [OrdMap.get?_index]
  constructor
  · rintro ⟨k, hk⟩
    obtain rfl : r.key = k := by
      have := List.mem_of_getLast? hk
      simpa using (List.mem_filter.mp this).2
    exact hk
  · exact fun h => ⟨r.key, h⟩

theorem mem_of_mem_dedupeRecords {records : List (RawRecord P)} {r : RawRecord P}
    (h : r ∈ dedupeRecords records) : r ∈ records :=
  (List.mem_filter.mp (List.mem_of_getLast? (mem_dedupeRecords_iff.mp h))).1

/-- Every identity survives. -/
theorem exists_mem_dedupeRecords {records : List (RawRecord P)} {r : RawRecord P}
    (h : r ∈ records) : ∃ r' ∈ dedupeRecords records, r'.key = r.key := by
  cases hlast : (records.filter fun r' => r'.key = r.key).getLast? with
  | none =>
    have hnil := List.getLast?_eq_none_iff.mp hlast
    exact absurd (List.mem_filter.mpr ⟨h, by simp⟩) (hnil ▸ List.not_mem_nil)
  | some r' =>
    have hkey : r'.key = r.key := by
      simpa using (List.mem_filter.mp (List.mem_of_getLast? hlast)).2
    exact ⟨r', mem_dedupeRecords_iff.mpr (by rw [hkey]; exact hlast), hkey⟩

/-- The records an incremental run works on: the fetched ones, or the
merge of fetched and refreshed ones. -/
inductive RefreshMerge (source : Source P) (primary : FetchResult P) : List (RawRecord P) → Prop
  | fetched : RefreshMerge source primary primary.records
  | refreshed {fetchRefresh candidates refresh} (h : source.fetchRefresh = some fetchRefresh)
      (hr : fetchRefresh candidates { since := none, full := false } = .ok refresh) :
      RefreshMerge source primary (dedupeRecords (primary.records ++ refresh.records))

/-- **What an incremental run fetches.** The watermark is the one of the
fetch; the records are merged from it. -/
theorem fetchWithRefresh_incremental {store : Store P} {source : Source P}
    {prevWatermark : Option String} {opts : SyncOptions} {startedAt : String}
    {result : FetchResult P} (hfull : opts.full = false)
    (h : fetchWithRefresh store source prevWatermark opts startedAt = .ok result) :
    ∃ primary, source.fetch { since := prevWatermark, full := false } = .ok primary ∧
      result.watermark = primary.watermark ∧ RefreshMerge source primary result.records := by
  simp only [fetchWithRefresh, hfull, bind, Except.bind] at h
  cases hp : source.fetch { since := prevWatermark, full := false } with
  | error msg =>
    rw [hp] at h
    cases h
  | ok primary =>
    refine ⟨primary, rfl, ?_⟩
    rw [hp] at h
    simp only at h
    cases hf : source.fetchRefresh with
    | none =>
      rw [hf] at h
      obtain rfl := Except.ok.inj h
      exact ⟨rfl, .fetched⟩
    | some fetchRefresh =>
      rw [hf] at h
      simp only at h
      cases hcut : refreshCutoffIso startedAt (opts.ciRefreshGraceMs.getD defaultCiRefreshGraceMs) with
      | error msg =>
        rw [hcut] at h
        cases h
      | ok cutoff =>
        rw [hcut] at h
        simp only at h
        split at h
        · obtain rfl := Except.ok.inj h
          exact ⟨rfl, .fetched⟩
        · obtain rfl := Except.ok.inj h
          unfold mergeRefresh
          split
          · rename_i refresh hr
            exact ⟨rfl, .refreshed hf hr⟩
          · exact ⟨rfl, .fetched⟩

theorem RefreshMerge.mem {source : Source P} {primary : FetchResult P}
    {records : List (RawRecord P)} (h : RefreshMerge source primary records) {r : RawRecord P}
    (hr : r ∈ records) : r ∈ primary.records ∨ ∃ fetchRefresh candidates refresh,
      source.fetchRefresh = some fetchRefresh ∧
      fetchRefresh candidates { since := none, full := false } = .ok refresh ∧
      r ∈ refresh.records := by
  cases h with
  | fetched => exact Or.inl hr
  | refreshed h hok =>
    rcases List.mem_append.mp (mem_of_mem_dedupeRecords hr) with hr | hr
    · exact Or.inl hr
    · exact Or.inr ⟨_, _, _, h, hok, hr⟩

/-- A run reports the watermark of its fetch, full or not. -/
theorem fetchWithRefresh_watermark {store : Store P} {source : Source P}
    {prevWatermark : Option String} {opts : SyncOptions} {startedAt : String}
    {result : FetchResult P}
    (h : fetchWithRefresh store source prevWatermark opts startedAt = .ok result) :
    ∃ primary, source.fetch { since := prevWatermark, full := opts.full } = .ok primary ∧
      result.watermark = primary.watermark := by
  cases hfull : opts.full with
  | false =>
    obtain ⟨primary, hfetch, hwatermark, -⟩ := fetchWithRefresh_incremental hfull h
    exact ⟨primary, hfetch, hwatermark⟩
  | true =>
    simp only [fetchWithRefresh, hfull, bind, Except.bind] at h
    cases hp : source.fetch { since := prevWatermark, full := true } with
    | error msg =>
      rw [hp] at h
      cases h
    | ok primary =>
      rw [hp] at h
      obtain rfl := Except.ok.inj h
      exact ⟨primary, rfl, rfl⟩

/-- Every fetched identity is written. -/
theorem RefreshMerge.exists_record {source : Source P} {primary : FetchResult P}
    {records : List (RawRecord P)} (h : RefreshMerge source primary records) {r : RawRecord P}
    (hr : r ∈ primary.records) : ∃ r' ∈ records, r'.key = r.key := by
  cases h with
  | fetched => exact ⟨r, hr, rfl⟩
  | refreshed => exact exists_mem_dedupeRecords (List.mem_append_left _ hr)

/-! ## The stored rows -/

/-- A live row of this run. -/
def StoredAt (s : Store P) (k : ItemEndpoint) (startedAt : String) : Prop :=
  ∃ row, s.items.get? k = some row ∧ row.deletedAt = none ∧ row.lastSeenAt = startedAt

/-- **A record that normalizes to an item is stored.** -/
theorem storedAt_commitRun (s : Store P) (source : Source P) (opts : SyncOptions) (env : RunEnv)
    (result : FetchResult P) {bundles : List NormalizedBundle} {k : ItemEndpoint}
    (h : ∃ b ∈ bundles, ∃ i, b.item = some i ∧ i.endpoint = k) :
    StoredAt (commitRun s source opts env result bundles) k env.startedAt := by
  cases hlast : lastItem bundles k with
  | none =>
    obtain ⟨b, hb, i, hi, hik⟩ := h
    exact absurd hik (lastItem_eq_none_iff.mp hlast b hb i hi)
  | some i =>
    refine ⟨itemRow source env.startedAt i, ?_, rfl, rfl⟩
    rw [commitRun_items, hlast, Option.map_some, Option.some_or, Option.map_some,
      sweptItemRow_itemRow]

/-! ## The stored watermark -/

theorem mergeWatermark_none (driver : Driver) (stored : Option String) :
    Store.mergeWatermark driver none stored = stored := by
  cases driver with
  | sqlite => rfl
  | postgres => cases stored <;> rfl

theorem getWatermark_updateSyncState (s : Store P) (sourceId : SourceId)
    (watermark : Option String) (status : RunStatus) (error : Option String) (nowIso : String) :
    (s.updateSyncState sourceId watermark status error nowIso).getWatermark sourceId =
      Store.mergeWatermark s.driver watermark (s.getWatermark sourceId) := by
  simp [Store.getWatermark, Store.updateSyncState]

/-- The tables a run does not get to before its last statement. -/
theorem commitRun_eq (s : Store P) (source : Source P) (opts : SyncOptions) (env : RunEnv)
    (result : FetchResult P) (bundles : List NormalizedBundle) :
    ∃ s' : Store P, s'.driver = s.driver ∧ s'.syncState = s.syncState ∧
      commitRun s source opts env result bundles =
        s'.updateSyncState source.descriptor.sourceId
          (capWatermarkAtRunStart result.watermark env.startedAt) (statusOf result) result.error
          env.startedAt := by
  refine ⟨_, ?_, ?_, rfl⟩
  · simp only [writeFetched_eq]
    cases sweeps opts result <;> rfl
  · simp only [writeFetched_eq]
    cases sweeps opts result <;> rfl

/-- **The watermark a run stores.** -/
theorem getWatermark_commitRun (s : Store P) (source : Source P) (opts : SyncOptions)
    (env : RunEnv) (result : FetchResult P) (bundles : List NormalizedBundle) :
    (commitRun s source opts env result bundles).getWatermark source.descriptor.sourceId =
      Store.mergeWatermark s.driver (capWatermarkAtRunStart result.watermark env.startedAt)
        (s.getWatermark source.descriptor.sourceId) := by
  obtain ⟨s', hdriver, hstate, heq⟩ := commitRun_eq s source opts env result bundles
  rw [heq, getWatermark_updateSyncState, hdriver, Store.getWatermark, hstate, Store.getWatermark]

/-- A run that reports no watermark keeps the stored one. -/
theorem getWatermark_commitRun_of_none (s : Store P) (source : Source P) (opts : SyncOptions)
    (env : RunEnv) {result : FetchResult P} (bundles : List NormalizedBundle)
    (h : result.watermark = none) :
    (commitRun s source opts env result bundles).getWatermark source.descriptor.sourceId =
      s.getWatermark source.descriptor.sourceId := by
  rw [getWatermark_commitRun, h]
  exact mergeWatermark_none s.driver _

/-- So does a failed run. -/
theorem getWatermark_recordFailedRun (s : Store P) (source : Source P) (opts : SyncOptions)
    (env : RunEnv) (msg : String) :
    (recordFailedRun s source opts env msg).1.getWatermark source.descriptor.sourceId =
      s.getWatermark source.descriptor.sourceId := by
  unfold recordFailedRun
  cases opts.dryRun with
  | true => rfl
  | false =>
    simp only [Bool.false_eq_true, if_false]
    rw [getWatermark_updateSyncState, mergeWatermark_none]
    rfl

/-! ## Runs of one source -/

/-- One run of a source: when it ran, how, and what the provider answered. -/
structure SyncRun (A : Type) where
  now : String
  full : Bool
  dryRun : Bool
  ciRefreshGraceMs : Option ℤ
  ciRefreshLimit : Option ℤ
  env : RunEnv
  answers : A

/-- The options of the run. -/
def SyncRun.opts {A : Type} (r : SyncRun A) : SyncOptions :=
  { full := r.full, dryRun := r.dryRun, ciRefreshGraceMs := r.ciRefreshGraceMs,
    ciRefreshLimit := r.ciRefreshLimit }

/-- What the runner of `src/sync-runner.ts` does with one source: a full
run starts from no watermark, an incremental one from the stored one. -/
def runSource {A : Type} (sourceId : SourceId) (toSource : String → A → Source P) (s : Store P)
    (r : SyncRun A) : Store P :=
  (syncSource s (toSource r.now r.answers) (if r.full then none else s.getWatermark sourceId)
    r.opts r.env).1

/-- **An incremental run stores an item or keeps the watermark**, if its
fetch reports no watermark or has a record whose identity stands for the
item. -/
theorem stored_or_watermark_kept {s : Store P} {source : Source P}
    {normalize : RawRecord P → Option NormalizedBundle} (hn : NormalizesWith source normalize)
    {prevWatermark : Option String} {opts : SyncOptions} {env : RunEnv} (hfull : opts.full = false)
    {k : ItemEndpoint}
    (h : ∀ primary, source.fetch { since := prevWatermark, full := false } = .ok primary →
      primary.watermark = none ∨ ∃ r ∈ primary.records, ∀ records,
        RefreshMerge source primary records → ∀ r' ∈ records, r'.key = r.key →
          NormalizesTo normalize r' k) :
    StoredAt (syncSource s source prevWatermark opts env).1 k env.startedAt ∨
      (syncSource s source prevWatermark opts env).1.getWatermark source.descriptor.sourceId =
        s.getWatermark source.descriptor.sourceId := by
  rcases syncSource_cases s source prevWatermark opts env with
    ⟨result, bundles, hcom, heq⟩ | ⟨-, ⟨msg, heq⟩ | heq⟩
  · obtain ⟨primary, hfetch, hwatermark, hmerge⟩ := fetchWithRefresh_incremental hfull hcom.fetched
    rw [heq]
    rcases h primary hfetch with hnone | ⟨r, hr, hall⟩
    · exact Or.inr (getWatermark_commitRun_of_none s source opts env bundles
        (hwatermark.trans hnone))
    · left
      obtain ⟨r', hr', hkey⟩ := hmerge.exists_record hr
      obtain ⟨b, i, hb, hi, hik⟩ := hall _ hmerge r' hr' hkey
      have hbundles := Except.ok.inj
        (hcom.normalized.symm.trans (hn.records result.records))
      rw [hbundles]
      exact storedAt_commitRun s source opts env result
        ⟨b, List.mem_filterMap.mpr ⟨r', hr', hb⟩, i, hi, hik⟩
  · right
    rw [heq]
    exact getWatermark_recordFailedRun s source opts env msg
  · right
    rw [heq]

end SymphonyBoard
