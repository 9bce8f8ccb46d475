import SymphonyBoard.Db.Store
/-!
# One source's sync

`src/sync-engine.ts`: fetch, normalize, reconcile edges, write in one
transaction, and, after a full and complete sweep only, tombstone what
the sweep did not see. A run takes the store, a source that answers as the
provider did in this run, and what else the run does not decide itself:
the clock readings and whether the transaction fails. A failed transaction
leaves the store as it was.

The commit file pass, which runs in a transaction of its own after the
sweep's and writes no table modelled here but `raw`, is left out.
-/

namespace SymphonyBoard

/-- `DEFAULT_CI_REFRESH_GRACE_MS`. -/
def defaultCiRefreshGraceMs : ℤ := 6 * 60 * 60 * 1000

/-- `DEFAULT_CI_REFRESH_LIMIT`. -/
def defaultCiRefreshLimit : ℤ := 50

/-- The options of a sync. -/
structure SyncOptions where
  full : Bool
  dryRun : Bool
  ciRefreshGraceMs : Option ℤ
  ciRefreshLimit : Option ℤ

/-- What a sync reports. -/
structure SyncReport where
  sourceId : SourceId
  status : RunStatus
  itemsSeen : Nat
  edgesSeen : Nat
  activitiesSeen : Nat
  softDeleted : Nat
  softDeletedEdges : Nat
  watermark : Option String
  error : Option String
deriving DecidableEq

/-- How far a failing transaction got: the report keeps the counts of the
sweeps that ran before it failed. -/
inductive TxStage
  | beforeSweep
  | sweptItems
  | sweptEdges
deriving DecidableEq, Repr

/-- What a run reads from its surroundings. -/
structure RunEnv where
  startedAt : String
  sweepAt : String
  finishedAt : String
  txError : Option (TxStage × String)

/-- The time from which merged change requests are still looked at. -/
def refreshCutoffIso (startedAt : String) (graceMs : ℤ) : Except String String :=
  match dateParse startedAt with
  | some ms => .ok (toISOString (ms - max 0 graceMs))
  | none => .error "Invalid time value"

/-- Why a change request is looked at again. -/
def ciRefreshReason (row : CanonicalItem) : RefreshReason :=
  if row.ciState = some .pending ∨ row.ciState = some .none then .ciUnresolved
  else if row.state = .opened then .openChangeRequest
  else .recentChangeRequest

/-- The query lists only rows with a project path and a number. -/
def toRefreshCandidate (row : CanonicalItem) : Option RefreshCandidate :=
  match row.projectPath, row.iid with
  | some projectPath, some iid =>
    some { externalId := row.externalId, projectPath, iid, reason := ciRefreshReason row }
  | _, _ => none

section Fetch

variable {P : Type}

/-- What records of one thing share. -/
def RawRecord.key (r : RawRecord P) : EntityKind × String := (r.entityKind, r.externalId)

/-- One record an identity, the last one, at the place of the first. -/
def dedupeRecords (records : List (RawRecord P)) : List (RawRecord P) :=
  (OrdMap.index RawRecord.key records).values

/-- A watermark later than the run's start is cut to it. -/
def capWatermarkAtRunStart (watermark : Option String) (startedAt : String) : Option String :=
  match watermark with
  | none => none
  | some w =>
    match dateParse w, dateParse startedAt with
    | some watermarkMs, some startedAtMs =>
      if startedAtMs < watermarkMs then some startedAt else some w
    | _, _ => some w

/-- The primary records with the refresh records merged over them. -/
def mergeRefresh (result : FetchResult P) : Except String (FetchResult P) → FetchResult P
  | .ok refresh =>
    { records := dedupeRecords (result.records ++ refresh.records)
      watermark := result.watermark
      complete := result.complete && refresh.complete
      error := result.error.or refresh.error }
  | .error msg =>
    { result with complete := false, error := result.error.or (some ("ci refresh: " ++ msg)) }

/-- The fetch, and the refresh of an incremental run. -/
def fetchWithRefresh (store : Store P) (source : Source P) (prevWatermark : Option String)
    (opts : SyncOptions) (startedAt : String) : Except String (FetchResult P) := do
  let result ← source.fetch { since := prevWatermark, full := opts.full }
  match opts.full, source.fetchRefresh with
  | false, some fetchRefresh =>
    let cutoff ← refreshCutoffIso startedAt (opts.ciRefreshGraceMs.getD defaultCiRefreshGraceMs)
    let candidates := (store.listCiRefreshCandidates source.descriptor.sourceId cutoff
      (opts.ciRefreshLimit.getD defaultCiRefreshLimit)).filterMap toRefreshCandidate
    if candidates = [] then return result
    else return mergeRefresh result (fetchRefresh candidates { since := none, full := false })
  | _, _ => return result

/-- The bundles of the records that have one. -/
def normalizeRecords (source : Source P) (records : List (RawRecord P)) :
    Except String (List NormalizedBundle) := do
  let bundles ← records.mapM source.normalize
  return bundles.filterMap id

/-- A source whose normalizer never fails. -/
def NormalizesWith (source : Source P) (normalize : RawRecord P → Option NormalizedBundle) : Prop :=
  ∀ r, source.normalize r = .ok (normalize r)

theorem NormalizesWith.records {source : Source P}
    {normalize : RawRecord P → Option NormalizedBundle} (h : NormalizesWith source normalize)
    (records : List (RawRecord P)) :
    normalizeRecords source records = .ok (records.filterMap normalize) := by
  have hmap : records.mapM source.normalize = Except.ok (records.map normalize) := by
    induction records with
    | nil => rfl
    | cons r records ih =>
      rw [List.mapM_cons, ih, h r]
      rfl
  rw [normalizeRecords, hmap]
  change Except.ok ((records.map normalize).filterMap id) = _
  rw [List.filterMap_map]
  rfl

end Fetch

/-! ## The pure phase -/

/-- The bundles' items, in order. -/
def itemsOf (bundles : List NormalizedBundle) : List CanonicalItem :=
  bundles.filterMap (·.item)

/-- `stateByRef`: the state of every item seen in this run. -/
def stateByRef (bundles : List NormalizedBundle) : OrdMap Ref ItemState :=
  (itemsOf bundles).foldl (fun m i => m.set (refOfEndpoint i.endpoint) i.state) OrdMap.empty

/-- Every edge a bundle's item reported, with the side it reported from. -/
def discovered (bundles : List NormalizedBundle) : List (CanonicalEdge × EdgeReporter) :=
  bundles.flatMap fun b =>
    match b.item with
    | none => []
    | some item => b.edges.map fun edge => (edge, reporterSide edge item.endpoint)

/-- Endpoint states from the items seen in this run, where there are any. -/
def refineEdge (states : OrdMap Ref ItemState) (e : ReconciledEdge) : ReconciledEdge :=
  let fromState := (states.get? (refOfEndpoint e.fromEnd)).or e.fromState
  let toState := (states.get? (refOfEndpoint e.toEnd)).or e.toState
  { e with fromState, toState, lifecycle := deriveLifecycle e.type fromState toState }

/-- The reconciled edges, with the states the bundles know. -/
def refinedEdges (bundles : List NormalizedBundle) : List ReconciledEdge :=
  (reconcileEdges (discovered bundles)).map (refineEdge (stateByRef bundles))

/-! ## The write phase -/

section Write

variable {P : Type}

/-- A run that failed: its row, and nothing else. -/
def recordFailedRun (store : Store P) (source : Source P) (opts : SyncOptions) (env : RunEnv)
    (msg : String) : Store P × SyncReport :=
  let sourceId := source.descriptor.sourceId
  let report : SyncReport :=
    { sourceId, status := .error, itemsSeen := 0, edgesSeen := 0, activitiesSeen := 0,
      softDeleted := 0, softDeletedEdges := 0, watermark := none, error := some msg }
  if opts.dryRun then (store, report)
  else
    let (s, runId) := (store.ensureSource source.descriptor).startRun sourceId opts.full
      env.startedAt
    let s := s.finishRun runId .error env.finishedAt 0 0 0 (some msg)
    (s.updateSyncState sourceId none .error (some msg) env.startedAt, report)

/-- A bundle's item and its labels; an activity-only bundle writes none. -/
def writeItem (normalizerVersion seenAt : String) (s : Store P) (b : NormalizedBundle) : Store P :=
  match b.item with
  | none => s
  | some item => (s.upsertItem item normalizerVersion seenAt).replaceLabels item.endpoint b.labels

/-- The upserts of a run: everything it fetched, nothing deleted. -/
def writeFetched (s : Store P) (source : Source P) (startedAt : String)
    (records : List (RawRecord P)) (bundles : List NormalizedBundle) : Store P :=
  let s := records.foldl (fun s r => s.upsertRaw source.descriptor.sourceId r) s
  let s := bundles.foldl (writeItem source.normalizerVersion startedAt) s
  let s := (refinedEdges bundles).foldl (fun s e => s.upsertEdge e startedAt) s
  let s := (bundles.flatMap (·.activities)).foldl (fun s a => s.upsertActivity a startedAt) s
  (bundles.flatMap (·.reviewThreads)).foldl (fun s t => s.upsertReviewThread t startedAt) s

/-- The disappearance pass of a full and complete sweep. -/
def sweep (s : Store P) (sourceId : SourceId) (startedAt sweepAt : String) : Store P :=
  let s := s.softDeleteUnseenItems sourceId startedAt sweepAt
  let s := s.softDeleteUnseenEdges sourceId startedAt sweepAt
  s.softDeleteUnseenReviewThreads sourceId startedAt sweepAt

/-- How many items the disappearance pass tombstones. -/
def unseenItemCount (s : Store P) (sourceId : SourceId) (cutoff : String) : Nat :=
  s.items.entries.countP fun b =>
    decide (b.1.sourceId = sourceId) && Store.unseen b.2.deletedAt b.2.lastSeenAt cutoff

/-- How many edges the disappearance pass tombstones. -/
def unseenEdgeCount (s : Store P) (sourceId : SourceId) (cutoff : String) : Nat :=
  s.edges.entries.countP fun b =>
    decide (b.1.2.1.sourceId = sourceId) && decide (b.1.2.2.sourceId = sourceId) &&
      Store.unseen b.2.deletedAt b.2.lastSeenAt cutoff

/-- Whether the fetch was complete. -/
def statusOf (result : FetchResult P) : RunStatus := if result.complete then .ok else .partial_

/-- A sweep deletes what it has not seen. -/
def sweeps (opts : SyncOptions) (result : FetchResult P) : Bool := opts.full && result.complete

/-- The transaction's writes up to the disappearance pass. -/
def writeRun (store : Store P) (source : Source P) (opts : SyncOptions) (env : RunEnv)
    (result : FetchResult P) (bundles : List NormalizedBundle) : Store P × Nat :=
  let (s, runId) := (store.ensureSource source.descriptor).startRun source.descriptor.sourceId
    opts.full env.startedAt
  (writeFetched s source env.startedAt result.records bundles, runId)

/-- The store a committed run leaves. -/
def commitRun (store : Store P) (source : Source P) (opts : SyncOptions) (env : RunEnv)
    (result : FetchResult P) (bundles : List NormalizedBundle) : Store P :=
  let sourceId := source.descriptor.sourceId
  let (s, runId) := writeRun store source opts env result bundles
  let s := if sweeps opts result then sweep s sourceId env.startedAt env.sweepAt else s
  let s := s.finishRun runId (statusOf result) env.finishedAt (itemsOf bundles).length
    (refinedEdges bundles).length (bundles.flatMap (·.activities)).length result.error
  s.updateSyncState sourceId (capWatermarkAtRunStart result.watermark env.startedAt)
    (statusOf result) result.error env.startedAt

/-- The counts the disappearance pass adds to the report, as far as the
transaction got. -/
def sweptCounts (store : Store P) (source : Source P) (opts : SyncOptions) (env : RunEnv)
    (result : FetchResult P) (bundles : List NormalizedBundle) : Nat × Nat :=
  let sourceId := source.descriptor.sourceId
  let s := (writeRun store source opts env result bundles).1
  let items := unseenItemCount s sourceId env.startedAt
  let edges := unseenEdgeCount s sourceId env.startedAt
  if sweeps opts result then
    match env.txError with
    | none => (items, edges)
    | some (.beforeSweep, _) => (0, 0)
    | some (.sweptItems, _) => (items, 0)
    | some (.sweptEdges, _) => (items, edges)
  else (0, 0)

/-- `syncSource` -/
def syncSource (store : Store P) (source : Source P) (prevWatermark : Option String)
    (opts : SyncOptions) (env : RunEnv) : Store P × SyncReport :=
  match fetchWithRefresh store source prevWatermark opts env.startedAt with
  | .error msg => recordFailedRun store source opts env msg
  | .ok result =>
    match normalizeRecords source result.records with
    | .error msg => recordFailedRun store source opts env ("normalize: " ++ msg)
    | .ok bundles =>
      let report : SyncReport :=
        { sourceId := source.descriptor.sourceId
          status := statusOf result
          itemsSeen := (itemsOf bundles).length
          edgesSeen := (refinedEdges bundles).length
          activitiesSeen := (bundles.flatMap (·.activities)).length
          softDeleted := 0
          softDeletedEdges := 0
          watermark := capWatermarkAtRunStart result.watermark env.startedAt
          error := result.error }
      if opts.dryRun then (store, report)
      else
        let counts := sweptCounts store source opts env result bundles
        let report := { report with softDeleted := counts.1, softDeletedEdges := counts.2 }
        match env.txError with
        | some (_, msg) => (store, { report with status := .error, error := some msg })
        | none => (commitRun store source opts env result bundles, report)

/-! ## What a run does to the store -/

/-- A run reaches its transaction and commits it, with what it fetched. -/
structure Commits (store : Store P) (source : Source P) (prevWatermark : Option String)
    (opts : SyncOptions) (env : RunEnv) (result : FetchResult P)
    (bundles : List NormalizedBundle) : Prop where
  fetched : fetchWithRefresh store source prevWatermark opts env.startedAt = .ok result
  normalized : normalizeRecords source result.records = .ok bundles
  written : opts.dryRun = false
  committed : env.txError = none

/-- **What a run can do.** It commits what it fetched, or records a failure,
or leaves the store alone. -/
theorem syncSource_cases (store : Store P) (source : Source P) (prevWatermark : Option String)
    (opts : SyncOptions) (env : RunEnv) :
    (∃ result bundles, Commits store source prevWatermark opts env result bundles ∧
      (syncSource store source prevWatermark opts env).1 =
        commitRun store source opts env result bundles) ∨
    ((¬ ∃ result bundles, Commits store source prevWatermark opts env result bundles) ∧
      ((∃ msg, (syncSource store source prevWatermark opts env).1 =
          (recordFailedRun store source opts env msg).1) ∨
        (syncSource store source prevWatermark opts env).1 = store)) := by
  cases hf : fetchWithRefresh store source prevWatermark opts env.startedAt with
  | error msg =>
    right
    refine ⟨?_, Or.inl ⟨msg, by simp [syncSource, hf]⟩⟩
    rintro ⟨result, bundles, h⟩
    rw [h.fetched] at hf
    cases hf
  | ok result =>
    cases hn : normalizeRecords source result.records with
    | error msg =>
      right
      refine ⟨?_, Or.inl ⟨"normalize: " ++ msg, by simp [syncSource, hf, hn]⟩⟩
      rintro ⟨result', bundles, h⟩
      obtain rfl : result = result' := Except.ok.inj (hf.symm.trans h.fetched)
      rw [h.normalized] at hn
      cases hn
    | ok bundles =>
      rcases Bool.eq_false_or_eq_true opts.dryRun with hd | hd
      · right
        refine ⟨?_, Or.inr (by simp [syncSource, hf, hn, hd])⟩
        rintro ⟨_, _, h⟩
        exact absurd (h.written.symm.trans hd) (by decide)
      · cases ht : env.txError with
        | none => exact Or.inl ⟨result, bundles, ⟨hf, hn, hd, ht⟩, by
            simp [syncSource, hf, hn, hd, ht]⟩
        | some e =>
          right
          refine ⟨?_, Or.inr (by simp [syncSource, hf, hn, hd, ht])⟩
          rintro ⟨_, _, h⟩
          exact absurd (h.committed.symm.trans ht) (by simp)

end Write

end SymphonyBoard
