import SymphonyBoard.Model.Edges
import SymphonyBoard.Shared.Time
import SymphonyBoard.Sources.Types
/-!
# The canonical store

The tables of `schema/sqlite` that a sync writes, each an insertion-ordered
map from its unique key to its row, with the statements of
`src/db/sqlite.ts` as functions on them. The two drivers differ here in one
statement only, the watermark merge of `updateSyncState`.
-/

namespace SymphonyBoard

/-- The databases the store runs on. -/
inductive Driver
  | sqlite
  | postgres
deriving DecidableEq, Repr

/-- A payload as it came, by its kind. -/
structure RawRow (P : Type) where
  entityKind : EntityKind
  apiVersion : Option String
  fetchedAt : String
  payload : P

/-- An item, with the normalizer's version and when it was last seen. -/
structure ItemRow where
  item : CanonicalItem
  normalizedWith : String
  lastSeenAt : String
  deletedAt : Option String

/-- The ends and the type of an edge. -/
abbrev EdgeRowKey := EdgeType × ItemEndpoint × ItemEndpoint

/-- An edge, with the states of its ends. -/
structure EdgeRow where
  fromState : Option ItemState
  toState : Option ItemState
  lifecycle : Option EdgeLifecycle
  discoveredFrom : DiscoveredFrom
  firstSeenAt : String
  lastSeenAt : String
  deletedAt : Option String

/-- An activity, with when it was first and last seen. -/
structure ActivityRow where
  activity : CanonicalActivity
  firstSeenAt : String
  lastSeenAt : String

/-- A review thread, with when it was last seen. -/
structure ReviewThreadRow where
  thread : CanonicalReviewThread
  lastSeenAt : String
  deletedAt : Option String

/-- How a run came to its end. -/
inductive RunStatus
  | ok
  | partial_
  | error
deriving DecidableEq, Repr

/-- A run of a source. -/
structure SyncRunRow where
  sourceId : SourceId
  full : Bool
  status : RunStatus
  startedAt : String
  finishedAt : Option String
  itemsSeen : Nat
  edgesSeen : Nat
  activitiesSeen : Nat
  error : Option String

/-- Where the syncing of a source stands. -/
structure SyncStateRow where
  watermark : Option String
  lastRunAt : String
  lastSuccessAt : Option String
  lastStatus : RunStatus
  lastError : Option String

/-- The tables. -/
structure Store (P : Type) where
  driver : Driver
  sources : OrdMap SourceId SourceDescriptor
  raw : OrdMap ItemEndpoint (RawRow P)
  items : OrdMap ItemEndpoint ItemRow
  itemLabels : OrdMap ItemEndpoint (List CanonicalLabel)
  edges : OrdMap EdgeRowKey EdgeRow
  activities : OrdMap ItemEndpoint ActivityRow
  reviewThreads : OrdMap ItemEndpoint ReviewThreadRow
  syncRuns : OrdMap Nat SyncRunRow
  syncState : OrdMap SourceId SyncStateRow

namespace Store

variable {P : Type}

/-- A store right after migration. -/
def empty (driver : Driver) : Store P :=
  { driver, sources := .empty, raw := .empty, items := .empty, itemLabels := .empty,
    edges := .empty, activities := .empty, reviewThreads := .empty, syncRuns := .empty,
    syncState := .empty }

/-- A source's descriptor, written over an older one. -/
def ensureSource (s : Store P) (d : SourceDescriptor) : Store P :=
  { s with sources := s.sources.set d.sourceId d }

/-- A payload, written over an older one. -/
def upsertRaw (s : Store P) (sourceId : SourceId) (r : RawRecord P) : Store P :=
  { s with
    raw := s.raw.set ⟨sourceId, r.externalId⟩
      { entityKind := r.entityKind, apiVersion := r.apiVersion, fetchedAt := r.fetchedAt,
        payload := r.payload } }

/-- A re-seen item is live again. -/
def upsertItem (s : Store P) (item : CanonicalItem) (normalizerVersion seenAt : String) :
    Store P :=
  { s with
    items := s.items.set item.endpoint
      { item, normalizedWith := normalizerVersion, lastSeenAt := seenAt, deletedAt := none } }

/-- The labels of one name each, the first of a name winning. -/
def distinctByName (labels : List CanonicalLabel) : List CanonicalLabel :=
  (labels.foldl (fun m l => m.upsert l.name fun o => o.getD l)
    (OrdMap.empty : OrdMap String CanonicalLabel)).values

/-- The labels of an item, in place of the ones it had. -/
def replaceLabels (s : Store P) (item : ItemEndpoint) (labels : List CanonicalLabel) : Store P :=
  { s with itemLabels := s.itemLabels.set item (distinctByName labels) }

/-- A re-seen edge is live again and keeps when it was first seen. -/
def upsertEdge (s : Store P) (e : ReconciledEdge) (nowIso : String) : Store P :=
  { s with
    edges := s.edges.upsert (e.type, e.fromEnd, e.toEnd) fun old =>
      { fromState := e.fromState, toState := e.toState, lifecycle := e.lifecycle,
        discoveredFrom := e.discoveredFrom, firstSeenAt := (old.map (·.firstSeenAt)).getD nowIso,
        lastSeenAt := nowIso, deletedAt := none } }

/-- An activity; the time it was first seen stays. -/
def upsertActivity (s : Store P) (a : CanonicalActivity) (nowIso : String) : Store P :=
  { s with
    activities := s.activities.upsert ⟨a.sourceId, a.externalId⟩ fun old =>
      { activity := a, firstSeenAt := (old.map (·.firstSeenAt)).getD nowIso,
        lastSeenAt := nowIso } }

/-- A review thread, live again if it was deleted. -/
def upsertReviewThread (s : Store P) (t : CanonicalReviewThread) (nowIso : String) : Store P :=
  { s with
    reviewThreads := s.reviewThreads.set ⟨t.sourceId, t.externalId⟩
      { thread := t, lastSeenAt := nowIso, deletedAt := none } }

/-- The rows a sweep would tombstone: live and last seen before the
cutoff. Timestamps are compared as text. -/
def unseen (deletedAt : Option String) (lastSeenAt cutoff : String) : Bool :=
  deletedAt.isNone && decide (lastSeenAt < cutoff)

/-- The items of a source that were not seen since the cutoff. -/
def softDeleteUnseenItems (s : Store P) (sourceId : SourceId) (cutoff nowIso : String) :
    Store P :=
  { s with
    items := s.items.mapWithKey fun k row =>
      if k.sourceId = sourceId ∧ unseen row.deletedAt row.lastSeenAt cutoff then
        { row with deletedAt := some nowIso }
      else row }

/-- Only intra-source edges: one source's sweep says nothing of a link to
another. -/
def softDeleteUnseenEdges (s : Store P) (sourceId : SourceId) (cutoff nowIso : String) :
    Store P :=
  { s with
    edges := s.edges.mapWithKey fun k row =>
      if k.2.1.sourceId = sourceId ∧ k.2.2.sourceId = sourceId ∧
          unseen row.deletedAt row.lastSeenAt cutoff then
        { row with deletedAt := some nowIso }
      else row }

/-- The review threads of a source that were not seen since the cutoff. -/
def softDeleteUnseenReviewThreads (s : Store P) (sourceId : SourceId) (cutoff nowIso : String) :
    Store P :=
  { s with
    reviewThreads := s.reviewThreads.mapWithKey fun k row =>
      if k.sourceId = sourceId ∧ unseen row.deletedAt row.lastSeenAt cutoff then
        { row with deletedAt := some nowIso }
      else row }

/-- The run row opens as partial; its id is its place. -/
def startRun (s : Store P) (sourceId : SourceId) (full : Bool) (startedAt : String) :
    Store P × Nat :=
  let runId := s.syncRuns.entries.length + 1
  ({ s with
    syncRuns := s.syncRuns.set runId
      { sourceId, full, status := .partial_, startedAt, finishedAt := none, itemsSeen := 0,
        edgesSeen := 0, activitiesSeen := 0, error := none } }, runId)

/-- The end of a run. -/
def finishRun (s : Store P) (runId : Nat) (status : RunStatus) (finishedAt : String)
    (itemsSeen edgesSeen activitiesSeen : Nat) (error : Option String) : Store P :=
  { s with
    syncRuns := s.syncRuns.mapWithKey fun k row =>
      if k = runId then
        { row with
          status, finishedAt := some finishedAt, itemsSeen, edgesSeen, activitiesSeen, error }
      else row }

/-- `GREATEST` over text: nulls are ignored. -/
def greatest : Option String → Option String → Option String
  | some a, some b => some (if a < b then b else a)
  | some a, none => some a
  | none, b => b

/-- What a stored watermark becomes when a run writes one: SQLite takes any
non-null value, Postgres the greater one. -/
def mergeWatermark : Driver → Option String → Option String → Option String
  | .sqlite, excluded, stored => excluded.or stored
  | .postgres, excluded, stored => greatest excluded stored

/-- The state of a source after a run. -/
def updateSyncState (s : Store P) (sourceId : SourceId) (watermark : Option String)
    (status : RunStatus) (error : Option String) (nowIso : String) : Store P :=
  let lastSuccess := if status = .ok then some nowIso else none
  { s with
    syncState := s.syncState.upsert sourceId fun old =>
      { watermark := mergeWatermark s.driver watermark (old.bind (·.watermark))
        lastRunAt := nowIso
        lastSuccessAt := lastSuccess.or (old.bind (·.lastSuccessAt))
        lastStatus := status
        lastError := error } }

/-- The watermark of a source. -/
def getWatermark (s : Store P) (sourceId : SourceId) : Option String :=
  (s.syncState.get? sourceId).bind (·.watermark)

/-- `COALESCE(merged_at, closed_at, updated_at, created_at)`. -/
def settledAt (i : CanonicalItem) : Option String :=
  ((i.mergedAt.or i.closedAt).or i.updatedAt).or i.createdAt

/-- The `CASE` of the refresh order: unresolved CI, then open, then the
rest. -/
def refreshRank (i : CanonicalItem) : Nat :=
  if i.ciState = some .pending ∨ i.ciState = some .none then 0
  else if i.state = .opened then 1
  else 2

/-- `julianday(..) DESC`: later instants first, no instant last. -/
def instantAtOrAfter (a b : Option ℤ) : Bool :=
  match a, b with
  | some x, some y => decide (y ≤ x)
  | _, none => true
  | none, some _ => false

/-- `listCiRefreshCandidates`: the change requests worth re-reading, rows
with the newest id first among equals. -/
def listCiRefreshCandidates (s : Store P) (sourceId : SourceId) (cutoffIso : String)
    (limit : Int) : List CanonicalItem :=
  let eligible := (s.items.entries.filter fun b =>
    let i := b.2.item
    b.2.deletedAt.isNone && decide (b.1.sourceId = sourceId) && decide (i.kind = .changeRequest) &&
      i.projectPath.isSome && i.iid.isSome &&
      (decide (i.state = .opened) || (settledAt i).any fun t => decide (cutoffIso ≤ t))).map
        fun b => b.2.item
  let ordered := eligible.reverse.mergeSort fun a b =>
    decide (refreshRank a < refreshRank b) ||
      (decide (refreshRank a = refreshRank b) &&
        instantAtOrAfter (timestampMs (settledAt a)) (timestampMs (settledAt b)))
  ordered.take limit.toNat

end Store

end SymphonyBoard
