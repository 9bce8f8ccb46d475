import SymphonyBoard.Common.Compare
import SymphonyBoard.Common.Transaction
import SymphonyBoard.Db.ActivityRange
/-!
# Cached activity bounds

`repo_activity_bounds`: for each repository the first and the last of its
activities, kept beside the activities by both drivers. A write marks the
repositories it touches as dirty, and the flush recomputes those, at once
outside a transaction and before `COMMIT` inside one. The dirty marks live
in the store handle and not in the database.

`julianday`, like `Date.parse`, is taken to give an activity's instant.
-/

namespace SymphonyBoard

/-! ## Buckets -/

/-- A repository whose bounds are to be read again. -/
structure RepoActivityBoundsBucket where
  sourceId : SourceId
  projectPath : Option String
  projectKey : String
  updatedAt : String

/-- How a repository's path is stored; a null one too. -/
def repoActivityProjectKey (projectPath : Option String) : String :=
  match projectPath with
  | none => "null:"
  | some path => "path:" ++ path

/-- The bucket of a repository. -/
def repoActivityBoundsBucket (sourceId : SourceId) (projectPath : Option String)
    (updatedAt : String) : RepoActivityBoundsBucket :=
  ⟨sourceId, projectPath, repoActivityProjectKey projectPath, updatedAt⟩

/-- The id a handle knows the bucket by. -/
def repoActivityBoundsBucketId (sourceId : SourceId) (projectKey : String) : String :=
  sourceId.val ++ "\x00" ++ projectKey

/-! ## The tables -/

/-- The first and the last activity of a repository. -/
structure RepoActivityBoundsRow where
  projectPath : Option String
  observedSince : String
  lastActivityAt : String
  updatedAt : String

/-- The two tables, by their unique keys. -/
structure ActivityTables where
  activities : OrdMap ItemEndpoint ActivityRow
  bounds : OrdMap (SourceId × String) RepoActivityBoundsRow

namespace ActivityTables

/-- No activities and no bounds. -/
def empty : ActivityTables := ⟨OrdMap.empty, OrdMap.empty⟩

/-- `SELECT project_path FROM activity WHERE source_id = ? AND external_id = ?` -/
def projectPathOf (t : ActivityTables) (a : CanonicalActivity) : Option (Option String) :=
  (t.activities.get? ⟨a.sourceId, a.externalId⟩).map (·.activity.projectPath)

/-- An activity written; the time it was first seen stays. -/
def writeActivity (t : ActivityTables) (a : CanonicalActivity) (nowIso : String) : ActivityTables :=
  { t with activities := t.activities.upsert ⟨a.sourceId, a.externalId⟩ fun old =>
      { activity := a, firstSeenAt := (old.map (·.firstSeenAt)).getD nowIso
        lastSeenAt := nowIso } }

/-- `activity_id` and `occurred_at` of a repository's activities, in the
order of the ids. -/
def activityRows (t : ActivityTables) (bucket : RepoActivityBoundsBucket) : List (ℕ × String) :=
  (t.activities.entries.zipIdx.filter fun b =>
    b.1.1.sourceId = bucket.sourceId ∧ b.1.2.activity.projectPath = bucket.projectPath).map
      fun b => (b.2, b.1.2.activity.occurredAt)

end ActivityTables

/-! ## The first and the last -/

/-- An activity with an instant: that, its id, and its timestamp. -/
structure InstantRow where
  ms : ℤ
  id : ℕ
  value : String

/-- The rows that have an instant. -/
def instantRows (parse : String → Option ℤ) (rows : List (ℕ × String)) : List InstantRow :=
  rows.filterMap fun r => (parse r.2).map fun ms => ⟨ms, r.1, r.2⟩

/-- `ORDER BY julianday(occurred_at) ASC, activity_id ASC` -/
def earliestFirst : InstantRow → InstantRow → Ordering :=
  compareLex (on compare InstantRow.ms) (on compare InstantRow.id)

/-- `ORDER BY julianday(occurred_at) DESC, activity_id DESC` -/
def latestFirst (a b : InstantRow) : Ordering := earliestFirst b a

/-- The window functions of SQLite. -/
def firstValues (rows : List (ℕ × String)) : Option (String × String) :=
  match (sortBy earliestFirst (instantRows dateParse rows)).head?,
    (sortBy latestFirst (instantRows dateParse rows)).head? with
  | some first, some last => some (first.value, last.value)
  | _, _ => none

/-- One row of the scan: it takes the place of what it is better than. -/
def keepBetter (better : InstantRow → InstantRow → Bool) (kept : Option InstantRow)
    (row : InstantRow) : Option InstantRow :=
  match kept with
  | none => some row
  | some old => if better row old then some row else some old

/-- Earlier, or of a smaller id at the same time. -/
def isEarlier (row old : InstantRow) : Bool :=
  row.ms < old.ms || (row.ms = old.ms && row.id < old.id)

/-- Later, or of a greater id at the same time. -/
def isLater (row old : InstantRow) : Bool :=
  old.ms < row.ms || (row.ms = old.ms && old.id < row.id)

/-- The scan of the other driver. -/
def repoActivityBoundsFromRows (rows : List (ℕ × String)) : Option (String × String) :=
  let instants := instantRows dateParseAll rows
  match instants.foldl (keepBetter isEarlier) none, instants.foldl (keepBetter isLater) none with
  | some observedSince, some lastActivityAt => some (observedSince.value, lastActivityAt.value)
  | _, _ => none

/-- The order PostgreSQL reads a table in: any. -/
structure HeapOrder where
  order : List (ℕ × String) → List (ℕ × String)
  perm : ∀ rows, (order rows).Perm rows

/-- A driver, with what its server decides. -/
inductive BoundsDriver
  | sqlite
  | postgres (heap : HeapOrder)

/-- The bounds a driver reads from a repository's rows. -/
def BoundsDriver.boundsOf : BoundsDriver → List (ℕ × String) → Option (String × String)
  | sqlite, rows => firstValues rows
  | postgres heap, rows => repoActivityBoundsFromRows (heap.order rows)

/-- The row of a bucket, rewritten. -/
def ActivityTables.writeBounds (t : ActivityTables) (bucket : RepoActivityBoundsBucket)
    (row : String × String) : ActivityTables :=
  let written : RepoActivityBoundsRow := ⟨bucket.projectPath, row.1, row.2, bucket.updatedAt⟩
  { t with bounds := t.bounds.set (bucket.sourceId, bucket.projectKey) written }

/-- The row of a bucket, deleted. -/
def ActivityTables.deleteBounds (t : ActivityTables) (bucket : RepoActivityBoundsBucket) :
    ActivityTables :=
  { t with bounds := t.bounds.erase (bucket.sourceId, bucket.projectKey) }

/-! ## The store handle -/

/-- What a handle keeps beside the database: the dirty marks, and whether
writes leave the flush to a transaction. -/
structure BoundsHandle where
  dirty : OrdMap String RepoActivityBoundsBucket
  inTransaction : Bool

/-- A handle without marks, outside a transaction. -/
def BoundsHandle.fresh : BoundsHandle := ⟨OrdMap.empty, false⟩

/-- A repository marked to be read again. -/
def BoundsHandle.mark (v : BoundsHandle) (sourceId : SourceId) (projectPath : Option String)
    (updatedAt : String) : BoundsHandle :=
  let bucket := repoActivityBoundsBucket sourceId projectPath updatedAt
  { v with dirty := v.dirty.set (repoActivityBoundsBucketId sourceId bucket.projectKey) bucket }

/-- What a driver does on a connection, with its marks. -/
abbrev BoundsSession := Session ActivityTables BoundsHandle

namespace BoundsDriver

open Session

variable (driver : BoundsDriver) (faults : ℕ → Option (Fault ActivityTables))

/-- The bounds of one bucket, read again and written. -/
def refreshRepoActivityBounds (bucket : RepoActivityBoundsBucket) : BoundsSession Unit := do
  let row ← statement faults fun t => (t, driver.boundsOf (t.activityRows bucket))
  match row with
  | none => statement faults fun t => (t.deleteBounds bucket, ())
  | some row => statement faults fun t => (t.writeBounds bucket row, ())

/-- Every mark taken back, and its bucket refreshed. -/
def flushRepoActivityBoundsDirty : BoundsSession Unit := do
  let v ← vars
  assign fun v => { v with dirty := OrdMap.empty }
  v.dirty.values.forM (refreshRepoActivityBounds driver faults)

/-- The repositories a write touches: the activity's, and the one it moves
from. -/
def markTouched (a : CanonicalActivity) (prev : Option (Option String)) (nowIso : String)
    (v : BoundsHandle) : BoundsHandle :=
  let marked := v.mark a.sourceId a.projectPath nowIso
  match prev with
  | none => marked
  | some path => if path ≠ a.projectPath then marked.mark a.sourceId path nowIso else marked

/-- An activity written, and its repositories marked; outside a transaction
they are refreshed at once. -/
def upsertActivity (a : CanonicalActivity) (nowIso : String) : BoundsSession Unit := do
  let prev ← statement faults fun t => (t, t.projectPathOf a)
  statement faults fun t => (t.writeActivity a nowIso, ())
  assign (markTouched a prev nowIso)
  let v ← vars
  if v.inTransaction then pure () else flushRepoActivityBoundsDirty driver faults

/-- The transaction's own work, up to `COMMIT`. -/
def transactionBody (body : BoundsSession Unit) : BoundsSession Unit := do
  body
  flushRepoActivityBoundsDirty driver faults
  commit faults

/-- `catch` and `finally`: the marks are dropped with the transaction. -/
def abandon (outside : BoundsHandle) (msg : String) : BoundsSession Unit := do
  let rolledBack ← attempt rollback
  assign fun _ => outside
  match rolledBack with
  | .ok () => raise msg
  | .error msg' => raise msg'

/-- How a transaction ends, its handle with it. SQLite's own marks are
cleared where it throws; PostgreSQL's go with its handle. -/
def endTransaction (outside : BoundsHandle) : Except String Unit → BoundsSession Unit
  | .ok () => match driver with
    | sqlite => assign fun v => { v with inTransaction := false }
    | postgres _ => assign fun _ => outside
  | .error msg => match driver with
    | sqlite => abandon ⟨OrdMap.empty, false⟩ msg
    | postgres _ => abandon outside msg

/-- `transaction`. SQLite's handle is the one it is called on, with its
flag up; PostgreSQL's is a new one. -/
def transaction (body : BoundsSession Unit) : BoundsSession Unit := do
  open_ faults
  let outside ← vars
  assign fun v => match driver with
    | sqlite => { v with inTransaction := true }
    | postgres _ => ⟨OrdMap.empty, true⟩
  let result ← attempt (transactionBody driver faults body)
  endTransaction driver outside result

end BoundsDriver

end SymphonyBoard
