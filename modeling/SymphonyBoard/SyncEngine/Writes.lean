import SymphonyBoard.SyncEngine.Sync
/-!
# What a committed run leaves in each table

Each loop of the write phase changes the tables it is about and no other
(`writeFetched_eq`). From it, one lemma a table: what a key is bound to
after the run, in terms of what the run fetched and what the key was bound
to before. The results about runs are read off these and never unfold the
write phase.
-/

namespace SymphonyBoard

variable {P : Type}

section Tables

variable (source : Source P) (startedAt : String)
  (records : List (RawRecord P)) (bundles : List NormalizedBundle)

/-! ## The loops -/

/-- The row a seen item is stored as. -/
def itemRow (i : CanonicalItem) : ItemRow :=
  { item := i, normalizedWith := source.normalizerVersion, lastSeenAt := startedAt,
    deletedAt := none }

/-- The items with their labels, in order. -/
def labelledItems : List (CanonicalItem × List CanonicalLabel) :=
  bundles.filterMap fun b => b.item.map fun i => (i, b.labels)

/-- The key of the edge's row. -/
def ReconciledEdge.rowKey (e : ReconciledEdge) : EdgeRowKey := (e.type, e.fromEnd, e.toEnd)

/-- The row a reconciled edge is stored as. -/
def edgeRow (e : ReconciledEdge) (old : Option EdgeRow) : EdgeRow :=
  { fromState := e.fromState, toState := e.toState, lifecycle := e.lifecycle,
    discoveredFrom := e.discoveredFrom, firstSeenAt := (old.map (·.firstSeenAt)).getD startedAt,
    lastSeenAt := startedAt, deletedAt := none }

/-- The key of the activity's row. -/
def CanonicalActivity.endpoint (a : CanonicalActivity) : ItemEndpoint := ⟨a.sourceId, a.externalId⟩

/-- The row an activity is stored as. -/
def activityRow (a : CanonicalActivity) (old : Option ActivityRow) : ActivityRow :=
  { activity := a, firstSeenAt := (old.map (·.firstSeenAt)).getD startedAt,
    lastSeenAt := startedAt }

/-- The key of the thread's row. -/
def CanonicalReviewThread.endpoint (t : CanonicalReviewThread) : ItemEndpoint :=
  ⟨t.sourceId, t.externalId⟩

/-- The row a review thread is stored as. -/
def reviewThreadRow (t : CanonicalReviewThread) : ReviewThreadRow :=
  { thread := t, lastSeenAt := startedAt, deletedAt := none }

/-- The row of a raw record. -/
def rawRow (r : RawRecord P) : RawRow P :=
  { entityKind := r.entityKind, apiVersion := r.apiVersion, fetchedAt := r.fetchedAt,
    payload := r.payload }

theorem upsertRaw_loop (sourceId : SourceId) (s : Store P) :
    records.foldl (fun s r => s.upsertRaw sourceId r) s =
      { s with raw := records.foldl (fun m r => m.set ⟨sourceId, r.externalId⟩ (rawRow r)) s.raw } := by
  induction records generalizing s with
  | nil => rfl
  | cons r records ih =>
    rw [List.foldl_cons, ih]
    rfl

theorem writeItem_loop (s : Store P) :
    bundles.foldl (writeItem source.normalizerVersion startedAt) s =
      { s with
        items := (itemsOf bundles).foldl
          (fun m i => m.set i.endpoint (itemRow source startedAt i)) s.items
        itemLabels := (labelledItems bundles).foldl
          (fun m il => m.set il.1.endpoint (Store.distinctByName il.2)) s.itemLabels } := by
  induction bundles generalizing s with
  | nil => rfl
  | cons b bundles ih =>
    rw [List.foldl_cons, ih]
    cases hb : b.item with
    | none => simp only [writeItem, hb, itemsOf, labelledItems, List.filterMap_cons, Option.map_none]
    | some i =>
      simp only [writeItem, hb, itemsOf, labelledItems, List.filterMap_cons, Option.map_some,
        List.foldl_cons]
      rfl

theorem upsertEdge_loop (edges : List ReconciledEdge) (s : Store P) :
    edges.foldl (fun s e => s.upsertEdge e startedAt) s =
      { s with
        edges := edges.foldl (fun m e => m.upsert e.rowKey (edgeRow startedAt e)) s.edges } := by
  induction edges generalizing s with
  | nil => rfl
  | cons e edges ih =>
    rw [List.foldl_cons, ih]
    rfl

theorem upsertActivity_loop (activities : List CanonicalActivity) (s : Store P) :
    activities.foldl (fun s a => s.upsertActivity a startedAt) s =
      { s with
        activities := activities.foldl (fun m a => m.upsert a.endpoint (activityRow startedAt a))
          s.activities } := by
  induction activities generalizing s with
  | nil => rfl
  | cons a activities ih =>
    rw [List.foldl_cons, ih]
    rfl

theorem upsertReviewThread_loop (threads : List CanonicalReviewThread) (s : Store P) :
    threads.foldl (fun s t => s.upsertReviewThread t startedAt) s =
      { s with
        reviewThreads := threads.foldl
          (fun m t => m.set t.endpoint (reviewThreadRow startedAt t)) s.reviewThreads } := by
  induction threads generalizing s with
  | nil => rfl
  | cons t threads ih =>
    rw [List.foldl_cons, ih]
    rfl

/-- **The upserts of a run, table by table.** -/
theorem writeFetched_eq (s : Store P) :
    writeFetched s source startedAt records bundles =
      { s with
        raw := records.foldl
          (fun m r => m.set ⟨source.descriptor.sourceId, r.externalId⟩ (rawRow r)) s.raw
        items := (itemsOf bundles).foldl
          (fun m i => m.set i.endpoint (itemRow source startedAt i)) s.items
        itemLabels := (labelledItems bundles).foldl
          (fun m il => m.set il.1.endpoint (Store.distinctByName il.2)) s.itemLabels
        edges := (refinedEdges bundles).foldl
          (fun m e => m.upsert e.rowKey (edgeRow startedAt e)) s.edges
        activities := (bundles.flatMap (·.activities)).foldl
          (fun m a => m.upsert a.endpoint (activityRow startedAt a)) s.activities
        reviewThreads := (bundles.flatMap (·.reviewThreads)).foldl
          (fun m t => m.set t.endpoint (reviewThreadRow startedAt t)) s.reviewThreads } := by
  simp only [writeFetched, upsertRaw_loop, writeItem_loop, upsertEdge_loop, upsertActivity_loop,
    upsertReviewThread_loop]

/-! ## One edge a row key -/

/-- The edge the run reconciled under a row key. -/
def refinedAt (k : EdgeRowKey) : Option ReconciledEdge :=
  ((reconcileMap (discovered bundles)).get?
    (k.1, refOfEndpoint k.2.1, refOfEndpoint k.2.2)).map (refineEdge (stateByRef bundles))

theorem keyOf_eq_rowKey {e : ReconciledEdge} {k : EdgeRowKey} :
    keyOf e.toCanonicalEdge = (k.1, refOfEndpoint k.2.1, refOfEndpoint k.2.2) ↔ e.rowKey = k := by
  obtain ⟨t, a, b⟩ := k
  simp only [keyOf, ReconciledEdge.rowKey, Prod.mk.injEq, refOfEndpoint_injective.eq_iff]

/-- Reconciliation leaves at most one edge a row key. -/
theorem filter_refinedEdges (k : EdgeRowKey) :
    ((refinedEdges bundles).filter fun e => e.rowKey = k) = (refinedAt bundles k).toList := by
  have hfilter := OrdMap.filter_values (reconcileMap (discovered bundles))
    (fun e => keyOf e.toCanonicalEdge) (reconcileMap_keys (discovered bundles)) (k.1, refOfEndpoint k.2.1, refOfEndpoint k.2.2)
  simp only [keyOf_eq_rowKey] at hfilter
  rw [refinedEdges, reconcileEdges, List.filter_map, refinedAt, Option.toList_map, ← hfilter]
  rfl

end Tables

/-! ## The committed store -/

section Commit

variable (store : Store P) (source : Source P) (opts : SyncOptions) (env : RunEnv)
  (result : FetchResult P) (bundles : List NormalizedBundle)

/-- The item the run saw last under a key. -/
def lastItem (k : ItemEndpoint) : Option CanonicalItem :=
  ((itemsOf bundles).filter fun i => i.endpoint = k).getLast?

theorem lastItem_eq_none_iff {bundles : List NormalizedBundle} {k : ItemEndpoint} :
    lastItem bundles k = none ↔ ∀ b ∈ bundles, ∀ i, b.item = some i → i.endpoint ≠ k := by
  simp only [lastItem, List.getLast?_eq_none_iff, List.filter_eq_nil_iff, itemsOf,
    List.mem_filterMap, decide_eq_true_eq]
  constructor
  · exact fun h b hb i hi => h i ⟨b, hb, hi⟩
  · rintro h i ⟨b, hb, hi⟩
    exact h b hb i hi

/-- `stateByRef` holds the state an item was fetched in last. -/
theorem stateByRef_get? (k : ItemEndpoint) :
    (stateByRef bundles).get? (refOfEndpoint k) = (lastItem bundles k).map (·.state) := by
  rw [stateByRef, OrdMap.get?_foldl_set, OrdMap.get?_empty, Option.or_none, lastItem]
  simp only [refOfEndpoint_injective.eq_iff]

/-- What the disappearance pass makes of an item row. -/
def sweptItemRow (k : ItemEndpoint) (row : ItemRow) : ItemRow :=
  if sweeps opts result ∧ k.sourceId = source.descriptor.sourceId ∧
      Store.unseen row.deletedAt row.lastSeenAt env.startedAt then
    { row with deletedAt := some env.sweepAt }
  else row

/-- What the disappearance pass makes of an edge row. -/
def sweptEdgeRow (k : EdgeRowKey) (row : EdgeRow) : EdgeRow :=
  if sweeps opts result ∧ k.2.1.sourceId = source.descriptor.sourceId ∧
      k.2.2.sourceId = source.descriptor.sourceId ∧
      Store.unseen row.deletedAt row.lastSeenAt env.startedAt then
    { row with deletedAt := some env.sweepAt }
  else row

/-- The review thread the run saw last under a key. -/
def lastReviewThread (k : ItemEndpoint) : Option CanonicalReviewThread :=
  ((bundles.flatMap (·.reviewThreads)).filter fun t => t.endpoint = k).getLast?

/-- What the disappearance pass makes of a review thread row. -/
def sweptReviewThreadRow (k : ItemEndpoint) (row : ReviewThreadRow) : ReviewThreadRow :=
  if sweeps opts result ∧ k.sourceId = source.descriptor.sourceId ∧
      Store.unseen row.deletedAt row.lastSeenAt env.startedAt then
    { row with deletedAt := some env.sweepAt }
  else row

/-- The sweep leaves a live item row alone. -/
def KeepsItem (k : ItemEndpoint) (lastSeenAt : String) : Prop :=
  ¬ (sweeps opts result ∧ k.sourceId = source.descriptor.sourceId ∧ lastSeenAt < env.startedAt)

/-- The sweep leaves a live edge row alone. -/
def KeepsEdge (k : EdgeRowKey) (lastSeenAt : String) : Prop :=
  ¬ (sweeps opts result ∧ k.2.1.sourceId = source.descriptor.sourceId ∧
    k.2.2.sourceId = source.descriptor.sourceId ∧ lastSeenAt < env.startedAt)

theorem sweptItemRow_live {k : ItemEndpoint} {row row' : ItemRow} :
    sweptItemRow source opts env result k row = row' ∧ row'.deletedAt = none ↔
      row = row' ∧ row'.deletedAt = none ∧ KeepsItem source opts env result k row'.lastSeenAt := by
  unfold sweptItemRow
  split
  · rename_i hs
    constructor
    · rintro ⟨rfl, hlive⟩
      cases hlive
    · rintro ⟨rfl, hlive, hkept⟩
      exact absurd ⟨hs.1, hs.2.1, by simpa [Store.unseen, hlive] using hs.2.2⟩ hkept
  · rename_i hs
    constructor
    · rintro ⟨rfl, hlive⟩
      exact ⟨rfl, hlive, fun hk => hs ⟨hk.1, hk.2.1, by simp [Store.unseen, hlive, hk.2.2]⟩⟩
    · rintro ⟨rfl, hlive, -⟩
      exact ⟨rfl, hlive⟩

theorem sweptEdgeRow_live {k : EdgeRowKey} {row row' : EdgeRow} :
    sweptEdgeRow source opts env result k row = row' ∧ row'.deletedAt = none ↔
      row = row' ∧ row'.deletedAt = none ∧ KeepsEdge source opts env result k row'.lastSeenAt := by
  unfold sweptEdgeRow
  split
  · rename_i hs
    constructor
    · rintro ⟨rfl, hlive⟩
      cases hlive
    · rintro ⟨rfl, hlive, hkept⟩
      exact absurd ⟨hs.1, hs.2.1, hs.2.2.1, by simpa [Store.unseen, hlive] using hs.2.2.2⟩ hkept
  · rename_i hs
    constructor
    · rintro ⟨rfl, hlive⟩
      refine ⟨rfl, hlive, fun hk => hs ⟨hk.1, hk.2.1, hk.2.2.1, ?_⟩⟩
      simp [Store.unseen, hlive, hk.2.2.2]
    · rintro ⟨rfl, hlive, -⟩
      exact ⟨rfl, hlive⟩

/-- A row seen in the run survives its sweep: it was last seen when the
run started. -/
theorem keepsItem_startedAt (k : ItemEndpoint) :
    KeepsItem source opts env result k env.startedAt :=
  fun h => absurd h.2.2 (String.lt_irrefl _)

/-- The sweep leaves a row of its own run as it is. -/
theorem sweptItemRow_itemRow (k : ItemEndpoint) (i : CanonicalItem) :
    sweptItemRow source opts env result k (itemRow source env.startedAt i) =
      itemRow source env.startedAt i :=
  ((sweptItemRow_live source opts env result).mpr
    ⟨rfl, rfl, keepsItem_startedAt source opts env result k⟩).1

theorem keepsEdge_startedAt (k : EdgeRowKey) :
    KeepsEdge source opts env result k env.startedAt :=
  fun h => absurd h.2.2.2 (String.lt_irrefl _)

/-- **Items after a run.** A seen item has the row of the last time it was
seen; every other row is kept, or tombstoned by the sweep. -/
theorem commitRun_items (k : ItemEndpoint) :
    (commitRun store source opts env result bundles).items.get? k =
      (((lastItem bundles k).map (itemRow source env.startedAt)).or (store.items.get? k)).map
        (sweptItemRow source opts env result k) := by
  have hwritten : (writeRun store source opts env result bundles).1.items.get? k =
      ((lastItem bundles k).map (itemRow source env.startedAt)).or (store.items.get? k) := by
    simp only [writeRun, writeFetched_eq, OrdMap.get?_foldl_set, lastItem]
    rfl
  rw [← hwritten]
  cases hs : sweeps opts result with
  | false =>
    have hid : sweptItemRow source opts env result k = id := by
      funext row
      simp [sweptItemRow, hs]
    simp [commitRun, Store.updateSyncState, Store.finishRun, hs, hid]
  | true =>
    have hfun : sweptItemRow source opts env result k = fun row =>
        if k.sourceId = source.descriptor.sourceId ∧
            Store.unseen row.deletedAt row.lastSeenAt env.startedAt then
          { row with deletedAt := some env.sweepAt }
        else row := by
      funext row
      simp [sweptItemRow, hs]
    simp only [commitRun, Store.updateSyncState, Store.finishRun, hs, if_true, sweep,
      Store.softDeleteUnseenReviewThreads, Store.softDeleteUnseenEdges,
      Store.softDeleteUnseenItems, OrdMap.get?_mapWithKey, hfun]

/-- **Edges after a run.** A reported edge has the row of its reconciled
report; every other row is kept, or tombstoned by the sweep. -/
theorem commitRun_edges (k : EdgeRowKey) :
    (commitRun store source opts env result bundles).edges.get? k =
      (((refinedAt bundles k).map fun e => edgeRow env.startedAt e (store.edges.get? k)).or
        (store.edges.get? k)).map (sweptEdgeRow source opts env result k) := by
  have hwritten : (writeRun store source opts env result bundles).1.edges.get? k =
      ((refinedAt bundles k).map fun e => edgeRow env.startedAt e (store.edges.get? k)).or
        (store.edges.get? k) := by
    simp only [writeRun, writeFetched_eq, OrdMap.get?_foldl_upsert, filter_refinedEdges]
    cases refinedAt bundles k <;> rfl
  rw [← hwritten]
  cases hs : sweeps opts result with
  | false =>
    have hid : sweptEdgeRow source opts env result k = id := by
      funext row
      simp [sweptEdgeRow, hs]
    simp [commitRun, Store.updateSyncState, Store.finishRun, hs, hid]
  | true =>
    have hfun : sweptEdgeRow source opts env result k = fun row =>
        if k.2.1.sourceId = source.descriptor.sourceId ∧
            k.2.2.sourceId = source.descriptor.sourceId ∧
            Store.unseen row.deletedAt row.lastSeenAt env.startedAt then
          { row with deletedAt := some env.sweepAt }
        else row := by
      funext row
      simp [sweptEdgeRow, hs]
    simp only [commitRun, Store.updateSyncState, Store.finishRun, hs, if_true, sweep,
      Store.softDeleteUnseenReviewThreads, Store.softDeleteUnseenEdges,
      Store.softDeleteUnseenItems, OrdMap.get?_mapWithKey, hfun]

/-- **Review threads after a run.** A reported thread has the row of its
last report; every other row is kept, or tombstoned by the sweep. -/
theorem commitRun_reviewThreads (k : ItemEndpoint) :
    (commitRun store source opts env result bundles).reviewThreads.get? k =
      (((lastReviewThread bundles k).map (reviewThreadRow env.startedAt)).or
        (store.reviewThreads.get? k)).map (sweptReviewThreadRow source opts env result k) := by
  have hwritten : (writeRun store source opts env result bundles).1.reviewThreads.get? k =
      ((lastReviewThread bundles k).map (reviewThreadRow env.startedAt)).or
        (store.reviewThreads.get? k) := by
    simp only [writeRun, writeFetched_eq, OrdMap.get?_foldl_set, lastReviewThread]
    rfl
  rw [← hwritten]
  cases hs : sweeps opts result with
  | false =>
    have hid : sweptReviewThreadRow source opts env result k = id := by
      funext row
      simp [sweptReviewThreadRow, hs]
    simp [commitRun, Store.updateSyncState, Store.finishRun, hs, hid]
  | true =>
    have hfun : sweptReviewThreadRow source opts env result k = fun row =>
        if k.sourceId = source.descriptor.sourceId ∧
            Store.unseen row.deletedAt row.lastSeenAt env.startedAt then
          { row with deletedAt := some env.sweepAt }
        else row := by
      funext row
      simp [sweptReviewThreadRow, hs]
    simp only [commitRun, Store.updateSyncState, Store.finishRun, hs, if_true, sweep,
      Store.softDeleteUnseenReviewThreads, Store.softDeleteUnseenEdges,
      Store.softDeleteUnseenItems, OrdMap.get?_mapWithKey, hfun]

/-- A failed run touches neither items nor edges. -/
theorem recordFailedRun_frame (msg : String) :
    (recordFailedRun store source opts env msg).1.items = store.items ∧
      (recordFailedRun store source opts env msg).1.edges = store.edges := by
  unfold recordFailedRun
  cases opts.dryRun <;> exact ⟨rfl, rfl⟩

/-- Nor review threads. -/
theorem recordFailedRun_reviewThreads (msg : String) :
    (recordFailedRun store source opts env msg).1.reviewThreads = store.reviewThreads := by
  unfold recordFailedRun
  cases opts.dryRun <;> rfl

end Commit

end SymphonyBoard
