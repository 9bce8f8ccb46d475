import SymphonyBoard.SyncEngine.Statements
/-!
# A sync is atomic

Whatever statement fails, a run whose transaction does not commit leaves
every table as it was and returns a report; a committed run has made all
its writes (`syncSource_atomic`). What a run leaves is read off
`Session.syncSource_reaches`, what a committed run has written off the
tables of `commitRun`.
-/

namespace SymphonyBoard

section Tables

variable {P : Type}

/-- The tables a sync fills, with their tombstones, and the watermarks. -/
structure SameContent (before after : Store P) : Prop where
  raw : after.raw = before.raw
  items : after.items = before.items
  itemLabels : after.itemLabels = before.itemLabels
  edges : after.edges = before.edges
  activities : after.activities = before.activities
  reviewThreads : after.reviewThreads = before.reviewThreads
  watermark : ∀ sourceId, after.getWatermark sourceId = before.getWatermark sourceId

/-- The same, as one value. -/
def content (s : Store P) :=
  (s.raw, s.items, s.itemLabels, s.edges, s.activities, s.reviewThreads, s.getWatermark)

theorem sameContent_of_eq {before after : Store P} (h : content after = content before) :
    SameContent before after := by
  simp only [content, Prod.mk.injEq] at h
  obtain ⟨h1, h2, h3, h4, h5, h6, h7⟩ := h
  exact ⟨h1, h2, h3, h4, h5, h6, congrFun h7⟩

/-- A run without a watermark keeps every stored one. -/
theorem content_updateSyncState (s : Store P) (sourceId : SourceId) (status : RunStatus)
    (error : Option String) (nowIso : String) :
    content (s.updateSyncState sourceId none status error nowIso) = content s := by
  have hmark : (s.updateSyncState sourceId none status error nowIso).getWatermark =
      s.getWatermark := by
    funext k
    by_cases hk : k = sourceId
    · subst hk
      rw [getWatermark_updateSyncState, mergeWatermark_none]
    · simp [Store.getWatermark, Store.updateSyncState, OrdMap.get?_upsert, Ne.symm hk]
  unfold content
  rw [hmark]
  rfl

/-- The labelled item the run saw last under a key. -/
def lastLabelled (bundles : List NormalizedBundle) (k : ItemEndpoint) :
    Option (CanonicalItem × List CanonicalLabel) :=
  ((labelledItems bundles).filter fun il => il.1.endpoint = k).getLast?

/-- The activity the run saw last under a key. -/
def lastActivity (bundles : List NormalizedBundle) (k : ItemEndpoint) : Option CanonicalActivity :=
  ((bundles.flatMap (·.activities)).filter fun a => a.endpoint = k).getLast?

/-- The record the run fetched last under an external id. -/
def lastRecord (records : List (RawRecord P)) (externalId : String) : Option (RawRecord P) :=
  (records.filter fun r => r.externalId = externalId).getLast?

/-- **All of a run's writes.** Where two of them share a key, the later one;
of the rows the run did not see, the sweep's tombstones. -/
structure WritesPresent (before after : Store P) (source : Source P) (opts : SyncOptions)
    (env : RunEnv) (result : FetchResult P) (bundles : List NormalizedBundle) : Prop where
  raw : ∀ id r, lastRecord result.records id = some r →
    after.raw.get? ⟨source.descriptor.sourceId, id⟩ = some (rawRow r)
  items : ∀ k i, lastItem bundles k = some i →
    after.items.get? k = some (itemRow source env.startedAt i)
  itemLabels : ∀ k il, lastLabelled bundles k = some il →
    after.itemLabels.get? k = some (Store.distinctByName il.2)
  edges : ∀ e ∈ refinedEdges bundles,
    after.edges.get? e.rowKey = some (edgeRow env.startedAt e (before.edges.get? e.rowKey))
  activities : ∀ k a, lastActivity bundles k = some a →
    ∃ row, after.activities.get? k = some row ∧ row.activity = a ∧ row.lastSeenAt = env.startedAt
  reviewThreads : ∀ k t, lastReviewThread bundles k = some t →
    after.reviewThreads.get? k = some (reviewThreadRow env.startedAt t)
  sweptItems : ∀ k row, before.items.get? k = some row → lastItem bundles k = none →
    after.items.get? k = some (sweptItemRow source opts env result k row)
  sweptEdges : ∀ k row, before.edges.get? k = some row → refinedAt bundles k = none →
    after.edges.get? k = some (sweptEdgeRow source opts env result k row)
  sweptReviewThreads : ∀ k row, before.reviewThreads.get? k = some row →
    lastReviewThread bundles k = none →
    after.reviewThreads.get? k = some (sweptReviewThreadRow source opts env result k row)
  watermark : after.getWatermark source.descriptor.sourceId =
    Store.mergeWatermark before.driver (capWatermarkAtRunStart result.watermark env.startedAt)
      (before.getWatermark source.descriptor.sourceId)
  syncRun : ∃ runId row, after.syncRuns.get? runId = some row ∧
    row.sourceId = source.descriptor.sourceId ∧ row.startedAt = env.startedAt ∧
    row.status = statusOf result ∧ row.finishedAt = some env.finishedAt

section Commit

variable (store : Store P) (source : Source P) (opts : SyncOptions) (env : RunEnv)
  (result : FetchResult P) (bundles : List NormalizedBundle)

/-- The tables without a sweep are as the upserts left them. -/
theorem commitRun_upserts :
    (commitRun store source opts env result bundles).raw =
        (writeRun store source opts env result bundles).1.raw ∧
      (commitRun store source opts env result bundles).itemLabels =
        (writeRun store source opts env result bundles).1.itemLabels ∧
      (commitRun store source opts env result bundles).activities =
        (writeRun store source opts env result bundles).1.activities := by
  unfold commitRun
  cases sweeps opts result <;> exact ⟨rfl, rfl, rfl⟩

/-- The run's own row, closed with its status. -/
theorem commitRun_syncRun : ∃ runId row,
    (commitRun store source opts env result bundles).syncRuns.get? runId = some row ∧
      row.sourceId = source.descriptor.sourceId ∧ row.startedAt = env.startedAt ∧
      row.status = statusOf result ∧ row.finishedAt = some env.finishedAt := by
  have hruns : (commitRun store source opts env result bundles).syncRuns =
      (((writeRun store source opts env result bundles).1.finishRun
        (store.syncRuns.entries.length + 1) (statusOf result) env.finishedAt
        (itemsOf bundles).length (refinedEdges bundles).length
        (bundles.flatMap (·.activities)).length result.error).syncRuns) := by
    unfold commitRun
    cases sweeps opts result <;> rfl
  rw [hruns]
  simp only [Store.finishRun, writeRun, writeFetched_eq, Store.startRun, Store.ensureSource,
    OrdMap.get?_mapWithKey, OrdMap.get?_set]
  refine ⟨store.syncRuns.entries.length + 1, ?_⟩
  simp only [if_true, Option.map_some]
  exact ⟨_, rfl, rfl, rfl, rfl, rfl⟩

/-- **A committed run has made all its writes.** -/
theorem writesPresent_commitRun :
    WritesPresent store (commitRun store source opts env result bundles) source opts env result
      bundles where
  raw id r hr := by
    rw [(commitRun_upserts store source opts env result bundles).1]
    simp only [writeRun, writeFetched_eq, OrdMap.get?_foldl_set, ItemEndpoint.mk.injEq, true_and]
    rw [show (result.records.filter fun r => decide (r.externalId = id)).getLast? = some r from hr]
    rfl
  items k i hi := by
    rw [commitRun_items, hi, Option.map_some, Option.some_or, Option.map_some,
      sweptItemRow_itemRow]
  itemLabels k il hil := by
    rw [(commitRun_upserts store source opts env result bundles).2.1]
    simp only [writeRun, writeFetched_eq, OrdMap.get?_foldl_set]
    rw [show ((labelledItems bundles).filter fun il => decide (il.1.endpoint = k)).getLast? =
      some il from hil]
    rfl
  edges e he := by
    have hrefined : refinedAt bundles e.rowKey = some e := by
      have hmem : e ∈ (refinedAt bundles e.rowKey).toList := by
        rw [← filter_refinedEdges]
        exact List.mem_filter.mpr ⟨he, decide_eq_true rfl⟩
      exact Option.mem_toList.mp hmem
    rw [commitRun_edges, hrefined, Option.map_some, Option.some_or, Option.map_some]
    exact congrArg some ((sweptEdgeRow_live source opts env result).mpr
      ⟨rfl, rfl, keepsEdge_startedAt source opts env result _⟩).1
  activities k a ha := by
    rw [(commitRun_upserts store source opts env result bundles).2.2]
    simp only [writeRun, writeFetched_eq, OrdMap.get?_foldl_upsert]
    obtain ⟨earlier, hlast⟩ := List.getLast?_eq_some_iff.mp ha
    rw [hlast, List.foldl_append]
    exact ⟨_, rfl, rfl, rfl⟩
  reviewThreads k t ht := by
    rw [commitRun_reviewThreads, ht, Option.map_some, Option.some_or, Option.map_some]
    have hseen : ¬ Store.unseen none env.startedAt env.startedAt = true := by
      simp [Store.unseen]
    exact congrArg some (if_neg fun h => hseen h.2.2)
  sweptItems k row hrow hk := by
    rw [commitRun_items, hk, hrow]
    rfl
  sweptEdges k row hrow hk := by
    rw [commitRun_edges, hk, hrow]
    rfl
  sweptReviewThreads k row hrow hk := by
    rw [commitRun_reviewThreads, hk, hrow]
    rfl
  watermark := getWatermark_commitRun store source opts env result bundles
  syncRun := commitRun_syncRun store source opts env result bundles

end Commit

/-! ## A run over failing statements -/

section Atomic

variable {faults : Nat → Option (Fault (Store P))} {store : Store P} {source : Source P}
variable {prevWatermark : Option String} {opts : SyncOptions} {env : RunEnv}

/-- The bookkeeping of a failed run, whichever of its statements fails. -/
theorem keeps_recordFailedRun (msg : String) :
    Session.Keeps content (Session.recordFailedRun faults source opts env msg) := by
  unfold Session.recordFailedRun
  cases opts.dryRun with
  | true => exact Session.keeps_pure _
  | false =>
    refine Session.keeps_bind (Session.keeps_statement fun _ => rfl) fun _ => ?_
    refine Session.keeps_bind (Session.keeps_statement fun _ => rfl) fun runId => ?_
    refine Session.keeps_bind (Session.keeps_statement fun _ => rfl) fun _ => ?_
    refine Session.keeps_bind (Session.keeps_statement fun s => ?_) fun _ => Session.keeps_pure _
    exact content_updateSyncState s _ _ _ _

variable (faults store source prevWatermark opts env)

/-- What the run returns, and the store it leaves committed. -/
def runSync : Except String SyncReport × Store P :=
  Prod.map id (fun s => s.db.committed)
    (Session.syncSource faults source prevWatermark opts env (Session.begin_ store))

/-- The run's fetch, or its normalizer, throws. -/
def Unfetched : Prop :=
  match (Session.fetched faults store source prevWatermark opts env).1 with
  | .error _ => True
  | .ok result => ∃ msg, normalizeRecords source result.records = .error msg

variable {faults store source prevWatermark opts env}

/-- A recorded failure: the content is as it was, and the run returns an
error report if its bookkeeping was written. -/
theorem recordFailedRun_leaves (s : SessionState (Store P) SweepCounts) (hs : s.db = ⟨store, none⟩)
    (msg : String) :
    SameContent store (Session.recordFailedRun faults source opts env msg s).2.db.committed ∧
      (Session.Quiet faults s.statements 4 →
        ∃ report, (Session.recordFailedRun faults source opts env msg s).1 = .ok report ∧
          report.status = .error) := by
  constructor
  · have hkeep : Session.Keeps content (Session.recordFailedRun faults source opts env msg) :=
      keeps_recordFailedRun msg
    have hcontent := (hkeep s (by rw [hs])).1
    rw [hs] at hcontent
    exact sameContent_of_eq hcontent
  · intro hq
    have hq' : Session.Quiet faults s.statements (if opts.dryRun then 0 else 4) := by
      intro i hi hi'
      refine hq i hi ?_
      split at hi' <;> omega
    refine ⟨_, congrArg Prod.fst
      ((Session.autocommits_recordFailedRun store source opts env msg s hs).1 hq'), ?_⟩
    unfold recordFailedRun
    cases opts.dryRun <;> rfl

theorem runSync_unfetched (h : Unfetched faults store source prevWatermark opts env) :
    SameContent store (runSync faults store source prevWatermark opts env).2 ∧
      (Session.Quiet faults
          (Session.fetched faults store source prevWatermark opts env).2.statements 4 →
        ∃ report, (runSync faults store source prevWatermark opts env).1 = .ok report ∧
          report.status = .error) := by
  unfold Unfetched at h
  unfold runSync
  cases hf : (Session.fetched faults store source prevWatermark opts env).1 with
  | error msg =>
    rw [Session.syncSource_unfetched hf]
    exact recordFailedRun_leaves _ Session.fetched_db msg
  | ok result =>
    rw [hf] at h
    obtain ⟨msg, hn⟩ := h
    rw [Session.syncSource_crashed hf hn]
    exact recordFailedRun_leaves _ Session.fetched_db _

theorem runSync_dry (hd : opts.dryRun = true) :
    (runSync faults store source prevWatermark opts env).2 = store ∧
      ∃ report, (runSync faults store source prevWatermark opts env).1 = .ok report := by
  -- a failed dry run writes no bookkeeping either
  have hfailed : ∀ msg, Session.recordFailedRun faults source opts env msg =
      pure (Session.failedReport source msg) := by
    intro msg
    unfold Session.recordFailedRun
    rw [hd]
    rfl
  have hstore : (Session.fetched faults store source prevWatermark opts env).2.db.committed =
      store := congrArg DbConnection.committed Session.fetched_db
  unfold runSync
  cases hf : (Session.fetched faults store source prevWatermark opts env).1 with
  | error msg =>
    rw [Session.syncSource_unfetched hf, hfailed, Session.pure_run]
    exact ⟨hstore, _, rfl⟩
  | ok result =>
    cases hn : normalizeRecords source result.records with
    | error msg =>
      rw [Session.syncSource_crashed hf hn, hfailed, Session.pure_run]
      exact ⟨hstore, _, rfl⟩
    | ok bundles =>
      rw [Session.syncSource_dry hf hn hd]
      exact ⟨hstore, _, rfl⟩

variable (faults store source prevWatermark opts env)

/-- **A sync is atomic.** A transaction any of whose statements fails, `BEGIN`
and `COMMIT` among them, leaves the store as it was, and the run returns an
error report; a transaction none of whose statements fails leaves all its
writes. A run that could not fetch or normalize leaves the content as it
was, and a dry run the whole store. -/
theorem syncSource_atomic :
    (∀ result bundles, Session.Reaches faults store source prevWatermark opts env result bundles →
      (¬ Session.Quiet faults
          (Session.fetched faults store source prevWatermark opts env).2.statements
          (Session.runStatements opts result bundles + 2) →
        (runSync faults store source prevWatermark opts env).2 = store ∧
          ∃ report, (runSync faults store source prevWatermark opts env).1 = .ok report ∧
            report.status = .error) ∧
      (Session.Quiet faults
          (Session.fetched faults store source prevWatermark opts env).2.statements
          (Session.runStatements opts result bundles + 2) →
        (runSync faults store source prevWatermark opts env).2 =
            commitRun store source opts env result bundles ∧
          WritesPresent store (runSync faults store source prevWatermark opts env).2 source opts env
            result bundles ∧
          ∃ report, (runSync faults store source prevWatermark opts env).1 = .ok report ∧
            report.status = statusOf result)) ∧
    (Unfetched faults store source prevWatermark opts env →
      SameContent store (runSync faults store source prevWatermark opts env).2 ∧
        (Session.Quiet faults
            (Session.fetched faults store source prevWatermark opts env).2.statements 4 →
          ∃ report, (runSync faults store source prevWatermark opts env).1 = .ok report ∧
            report.status = .error)) ∧
    (opts.dryRun = true →
      (runSync faults store source prevWatermark opts env).2 = store ∧
        ∃ report, (runSync faults store source prevWatermark opts env).1 = .ok report) := by
  refine ⟨fun result bundles h => ?_, runSync_unfetched, runSync_dry⟩
  -- one statement that fails undoes the transaction
  obtain ⟨hcommit, hfail⟩ := Session.syncSource_reaches h
  constructor
  · intro hq
    obtain ⟨counts, msg, s, hrun, hdb, -⟩ := hfail hq
    unfold runSync
    rw [hrun]
    exact ⟨congrArg DbConnection.committed hdb, _, rfl, rfl⟩
  · intro hq
    obtain ⟨s, hrun, hdb⟩ := hcommit hq
    have hstore : s.db.committed = commitRun store source opts env result bundles :=
      congrArg DbConnection.committed hdb
    unfold runSync
    rw [hrun]
    refine ⟨hstore, ?_, _, rfl, rfl⟩
    show WritesPresent store s.db.committed source opts env result bundles
    rw [hstore]
    exact writesPresent_commitRun store source opts env result bundles

end Atomic

end Tables

end SymphonyBoard
