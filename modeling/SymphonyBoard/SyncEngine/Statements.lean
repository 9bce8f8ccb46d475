import SymphonyBoard.Common.Transaction
import SymphonyBoard.SyncEngine.Incremental
/-!
# A sync, statement by statement

`syncSource` of `src/sync-engine.ts` once more, over a connection any of
whose statements may fail: the transaction of `src/db/sqlite.ts` around the
run's writes, and the bookkeeping of a failed run outside one.
`Session.syncSource_refines` says that such a run is a run of `syncSource`;
`Session.syncSource_reaches` says what a run that reaches its transaction
leaves.

The flush of the activity bounds before `COMMIT` is a statement that writes
no table modelled here.
-/

namespace SymphonyBoard

/-- The counts the closure of the transaction writes into the report. -/
structure SweepCounts where
  softDeleted : Nat
  softDeletedEdges : Nat
deriving DecidableEq

section Runs

variable {P : Type} (faults : Nat → Option (Fault (Store P)))

/-- A session over the store, whose variables are the counts of the sweep. -/
abbrev SyncSession (P α : Type) := Session (Store P) SweepCounts α

namespace Session

/-- A statement that only writes. -/
def write (f : Store P → Store P) : SyncSession P Unit := statement faults fun s => (f s, ())

/-- The fetch of a run, with the records it reads again. -/
def fetchWithRefresh (source : Source P) (prevWatermark : Option String) (opts : SyncOptions)
    (startedAt : String) : SyncSession P (FetchResult P) := do
  let result ← lift (source.fetch { since := prevWatermark, full := opts.full })
  match opts.full, source.fetchRefresh with
  | false, some fetchRefresh =>
    let cutoff ← lift (refreshCutoffIso startedAt
      (opts.ciRefreshGraceMs.getD defaultCiRefreshGraceMs))
    let rows ← statement faults fun s => (s, s.listCiRefreshCandidates source.descriptor.sourceId
      cutoff (opts.ciRefreshLimit.getD defaultCiRefreshLimit))
    let candidates := rows.filterMap toRefreshCandidate
    if candidates = [] then return result
    else return mergeRefresh result (fetchRefresh candidates { since := none, full := false })
  | _, _ => return result

/-- The error report of a run that fetched nothing. -/
def failedReport (source : Source P) (msg : String) : SyncReport :=
  { sourceId := source.descriptor.sourceId, status := .error, itemsSeen := 0, edgesSeen := 0,
    activitiesSeen := 0, softDeleted := 0, softDeletedEdges := 0, watermark := none,
    error := some msg }

/-- What a failed run leaves in the store: the run and the source's error. -/
def recordFailedRun (source : Source P) (opts : SyncOptions) (env : RunEnv) (msg : String) :
    SyncSession P SyncReport := do
  let sourceId := source.descriptor.sourceId
  if opts.dryRun then return failedReport source msg
  else
    write faults (·.ensureSource source.descriptor)
    let runId ← statement faults (·.startRun sourceId opts.full env.startedAt)
    write faults (·.finishRun runId .error env.finishedAt 0 0 0 (some msg))
    write faults (·.updateSyncState sourceId none .error (some msg) env.startedAt)
    return failedReport source msg

/-- A bundle's item and its labels; an activity-only bundle writes none. -/
def writeItem (source : Source P) (env : RunEnv) (b : NormalizedBundle) : SyncSession P Unit :=
  match b.item with
  | none => return ()
  | some item => do
    write faults (·.upsertItem item source.normalizerVersion env.startedAt)
    write faults (·.replaceLabels item.endpoint b.labels)

/-- The disappearance pass; the first two sweeps report their counts. -/
def sweepUnseen (source : Source P) (env : RunEnv) : SyncSession P Unit := do
  let sourceId := source.descriptor.sourceId
  let softDeleted ← statement faults fun s =>
    (s.softDeleteUnseenItems sourceId env.startedAt env.sweepAt,
      unseenItemCount s sourceId env.startedAt)
  assign fun counts => { counts with softDeleted }
  let softDeletedEdges ← statement faults fun s =>
    (s.softDeleteUnseenEdges sourceId env.startedAt env.sweepAt,
      unseenEdgeCount s sourceId env.startedAt)
  assign fun counts => { counts with softDeletedEdges }
  write faults (·.softDeleteUnseenReviewThreads sourceId env.startedAt env.sweepAt)

/-- Only a full and complete sweep tombstones. -/
def disappearance (source : Source P) (opts : SyncOptions) (env : RunEnv)
    (result : FetchResult P) : SyncSession P Unit :=
  if sweeps opts result then sweepUnseen faults source env else return ()

/-- What the transaction runs: the closure, then the flush. -/
def runWrites (source : Source P) (opts : SyncOptions) (env : RunEnv) (result : FetchResult P)
    (bundles : List NormalizedBundle) : SyncSession P Unit := do
  let sourceId := source.descriptor.sourceId
  write faults (·.ensureSource source.descriptor)
  let runId ← statement faults (·.startRun sourceId opts.full env.startedAt)
  result.records.forM fun raw => write faults (·.upsertRaw sourceId raw)
  bundles.forM (writeItem faults source env)
  (refinedEdges bundles).forM fun e => write faults (·.upsertEdge e env.startedAt)
  (bundles.flatMap (·.activities)).forM fun a => write faults (·.upsertActivity a env.startedAt)
  (bundles.flatMap (·.reviewThreads)).forM fun t =>
    write faults (·.upsertReviewThread t env.startedAt)
  disappearance faults source opts env result
  write faults (·.finishRun runId (statusOf result) env.finishedAt (itemsOf bundles).length
    (refinedEdges bundles).length (bundles.flatMap (·.activities)).length result.error)
  write faults (·.updateSyncState sourceId
    (capWatermarkAtRunStart result.watermark env.startedAt) (statusOf result) result.error
    env.startedAt)
  write faults id

/-- The report of a run that fetched and normalized. -/
def fetchedReport (source : Source P) (env : RunEnv) (result : FetchResult P)
    (bundles : List NormalizedBundle) (counts : SweepCounts) : SyncReport :=
  { sourceId := source.descriptor.sourceId
    status := statusOf result
    itemsSeen := (itemsOf bundles).length
    edgesSeen := (refinedEdges bundles).length
    activitiesSeen := (bundles.flatMap (·.activities)).length
    softDeleted := counts.softDeleted
    softDeletedEdges := counts.softDeletedEdges
    watermark := capWatermarkAtRunStart result.watermark env.startedAt
    error := result.error }

/-- `syncSource`, statement by statement. -/
def syncSource (source : Source P) (prevWatermark : Option String) (opts : SyncOptions)
    (env : RunEnv) : SyncSession P SyncReport := do
  match ← attempt (fetchWithRefresh faults source prevWatermark opts env.startedAt) with
  | .error msg => recordFailedRun faults source opts env msg
  | .ok result =>
    match normalizeRecords source result.records with
    | .error msg => recordFailedRun faults source opts env ("normalize: " ++ msg)
    | .ok bundles =>
      if opts.dryRun then return fetchedReport source env result bundles (← vars)
      else
        match ← attempt (transaction faults (runWrites faults source opts env result bundles)) with
        | .error msg =>
          return { fetchedReport source env result bundles (← vars) with
            status := .error, error := some msg }
        | .ok () => return fetchedReport source env result bundles (← vars)

/-- A connection to the store, before the run. -/
def begin_ (store : Store P) : SessionState (Store P) SweepCounts :=
  { db := ⟨store, none⟩, statements := 0, vars := ⟨0, 0⟩ }

/-! ## The transaction's body -/

section Body

variable {faults} {v : SweepCounts} {left : SweepCounts → Prop}

theorem acts_write (f : Store P → Store P) (d : Store P) (hleft : left v) :
    Acts faults (write faults f) d v 1 () (f d) v left :=
  acts_statement (fun s => (f s, ())) hleft

/-- The statements a bundle takes. -/
def itemStatements (b : NormalizedBundle) : Nat := if b.item.isSome then 2 else 0

theorem acts_writeItem (source : Source P) (env : RunEnv) (hleft : left v) (b : NormalizedBundle)
    (d : Store P) :
    Acts faults (writeItem faults source env b) d v (itemStatements b) ()
      (SymphonyBoard.writeItem source.normalizerVersion env.startedAt d b) v left := by
  unfold writeItem itemStatements SymphonyBoard.writeItem
  cases b.item with
  | none => exact acts_pure ()
  | some item =>
    show Acts faults _ d v (1 + 1) () _ v left
    refine acts_bind (acts_write _ d hleft) ?_
    exact acts_write _ _ hleft

/-- A loop with one write an element. -/
theorem acts_writes {ι : Type} (f : Store P → ι → Store P) (l : List ι) (d : Store P)
    (hleft : left v) :
    Acts faults (l.forM fun x => write faults fun s => f s x) d v l.length () (l.foldl f d) v
      left := by
  have h : Acts faults (l.forM fun x => write faults fun s => f s x) d v
      (l.map fun _ => 1).sum () (l.foldl f d) v left :=
    acts_forM (fun x d => acts_write (fun s => f s x) d hleft) l d
  simpa using h

/-- How many statements the disappearance pass takes. -/
def sweepStatements (opts : SyncOptions) (result : FetchResult P) : Nat :=
  if sweeps opts result then 3 else 0

/-- How many statements the transaction runs between `BEGIN` and `COMMIT`. -/
def runStatements (opts : SyncOptions) (result : FetchResult P)
    (bundles : List NormalizedBundle) : Nat :=
  2 + result.records.length + (bundles.map itemStatements).sum + (refinedEdges bundles).length +
    (bundles.flatMap (·.activities)).length + (bundles.flatMap (·.reviewThreads)).length +
    sweepStatements opts result + 3

/-- The variables a failed transaction can leave: the counts as far as it
got. -/
def LeftBy (store : Store P) (source : Source P) (opts : SyncOptions) (env : RunEnv)
    (result : FetchResult P) (bundles : List NormalizedBundle) (counts : SweepCounts) : Prop :=
  ∃ stage, ∀ msg, (counts.softDeleted, counts.softDeletedEdges) =
    sweptCounts store source opts { env with txError := some (stage, msg) } result bundles

/-- The counts of the disappearance pass. -/
def sweepCounts (source : Source P) (opts : SyncOptions) (env : RunEnv) (result : FetchResult P)
    (d : Store P) : SweepCounts :=
  if sweeps opts result then
    ⟨unseenItemCount d source.descriptor.sourceId env.startedAt,
      unseenEdgeCount d source.descriptor.sourceId env.startedAt⟩
  else ⟨0, 0⟩

section Left

variable (store : Store P) (source : Source P) (opts : SyncOptions) (env : RunEnv)
  (result : FetchResult P) (bundles : List NormalizedBundle)

/-- The counts of a whole run. -/
def runCounts : SweepCounts :=
  sweepCounts source opts env result (writeRun store source opts env result bundles).1

theorem leftBy_zero : LeftBy store source opts env result bundles ⟨0, 0⟩ := by
  refine ⟨.beforeSweep, fun msg => ?_⟩
  unfold sweptCounts
  cases sweeps opts result <;> rfl

theorem leftBy_items : LeftBy store source opts env result bundles
    ⟨(runCounts store source opts env result bundles).softDeleted, 0⟩ := by
  refine ⟨.sweptItems, fun msg => ?_⟩
  unfold sweptCounts runCounts sweepCounts
  cases sweeps opts result <;> rfl

theorem leftBy_edges : LeftBy store source opts env result bundles
    (runCounts store source opts env result bundles) := by
  refine ⟨.sweptEdges, fun msg => ?_⟩
  unfold sweptCounts runCounts sweepCounts
  cases sweeps opts result <;> rfl

end Left

/-- The disappearance pass of `commitRun`. -/
def sweepIf (source : Source P) (opts : SyncOptions) (env : RunEnv) (result : FetchResult P)
    (d : Store P) : Store P :=
  if sweeps opts result then sweep d source.descriptor.sourceId env.startedAt env.sweepAt else d

theorem acts_disappearance (source : Source P) (opts : SyncOptions) (env : RunEnv)
    (result : FetchResult P) (d : Store P) (hnone : left ⟨0, 0⟩)
    (hitems : left ⟨(sweepCounts source opts env result d).softDeleted, 0⟩)
    (hedges : left (sweepCounts source opts env result d)) :
    Acts faults (disappearance faults source opts env result) d ⟨0, 0⟩
      (sweepStatements opts result) () (sweepIf source opts env result d)
      (sweepCounts source opts env result d) left := by
  unfold disappearance sweepStatements sweepIf sweepCounts at *
  cases hs : sweeps opts result with
  | false => exact acts_pure ()
  | true =>
    simp only [hs, if_true] at hitems hedges ⊢
    show Acts faults _ d _ (1 + (0 + (1 + (0 + 1)))) () _ _ left
    refine acts_bind (acts_statement _ hnone) ?_
    refine acts_bind (acts_assign _) ?_
    refine acts_bind (acts_statement _ hitems) ?_
    refine acts_bind (acts_assign _) ?_
    exact acts_write _ _ hedges

theorem acts_runWrites (store : Store P) (source : Source P) (opts : SyncOptions) (env : RunEnv)
    (result : FetchResult P) (bundles : List NormalizedBundle) :
    Acts faults (runWrites faults source opts env result bundles) store ⟨0, 0⟩
      (runStatements opts result bundles) () (commitRun store source opts env result bundles)
      (runCounts store source opts env result bundles)
      (LeftBy store source opts env result bundles) := by
  have hnone := leftBy_zero store source opts env result bundles
  have hitems := leftBy_items store source opts env result bundles
  have hedges := leftBy_edges store source opts env result bundles
  have hcount : runStatements opts result bundles =
      1 + (1 + (result.records.length + ((bundles.map itemStatements).sum +
        ((refinedEdges bundles).length + ((bundles.flatMap (·.activities)).length +
          ((bundles.flatMap (·.reviewThreads)).length +
            (sweepStatements opts result + (1 + (1 + 1))))))))) := by
    unfold runStatements
    omega
  rw [hcount]
  refine acts_bind (acts_write _ store hnone) ?_
  refine acts_bind (acts_statement _ hnone) ?_
  refine acts_bind (acts_writes _ _ _ hnone) ?_
  refine acts_bind (acts_forM (acts_writeItem source env hnone) _ _) ?_
  refine acts_bind (acts_writes _ _ _ hnone) ?_
  refine acts_bind (acts_writes _ _ _ hnone) ?_
  refine acts_bind (acts_writes _ _ _ hnone) ?_
  refine acts_bind (acts_disappearance source opts env result _ hnone hitems hedges) ?_
  refine acts_bind (acts_write _ _ hedges) ?_
  refine acts_bind (acts_write _ _ hedges) ?_
  exact acts_write id _ hedges

end Body

/-! ## The statements outside it -/

section Bookkeeping

variable {faults}

/-- The fetch reads the store and leaves it alone. -/
theorem keeps_fetchWithRefresh (source : Source P) (prevWatermark : Option String)
    (opts : SyncOptions) (startedAt : String) :
    Keeps id (fetchWithRefresh faults source prevWatermark opts startedAt) := by
  unfold fetchWithRefresh
  refine keeps_bind (keeps_lift _) fun result => ?_
  cases opts.full with
  | true => exact keeps_pure result
  | false =>
    cases source.fetchRefresh with
    | none => exact keeps_pure result
    | some fetchRefresh =>
      refine keeps_bind (keeps_lift _) fun cutoff => ?_
      refine keeps_bind (keeps_statement fun _ => rfl) fun rows => ?_
      dsimp only
      split
      · exact keeps_pure _
      · exact keeps_pure _

/-- It is the fetch over the store, unless its one read fails. -/
theorem fetchWithRefresh_run (store : Store P) (source : Source P)
    (prevWatermark : Option String) (opts : SyncOptions) (startedAt : String) :
    (fetchWithRefresh faults source prevWatermark opts startedAt (begin_ store)).1 =
        SymphonyBoard.fetchWithRefresh store source prevWatermark opts startedAt ∨
      ∃ fault, faults 0 = some fault ∧
        (fetchWithRefresh faults source prevWatermark opts startedAt (begin_ store)).1 =
          .error fault.message := by
  unfold fetchWithRefresh SymphonyBoard.fetchWithRefresh
  cases source.fetch { since := prevWatermark, full := opts.full } with
  | error msg => exact Or.inl rfl
  | ok result =>
    cases opts.full with
    | true => exact Or.inl rfl
    | false =>
      cases source.fetchRefresh with
      | none => exact Or.inl rfl
      | some fetchRefresh =>
        simp only [lift_ok_bind]
        cases refreshCutoffIso startedAt
            (opts.ciRefreshGraceMs.getD defaultCiRefreshGraceMs) with
        | error msg => exact Or.inl rfl
        | ok cutoff =>
          simp only [lift_ok_bind]
          -- the one statement of the fetch reads the candidates
          cases hf : faults 0 with
          | some fault =>
            refine Or.inr ⟨fault, rfl, ?_⟩
            rw [bind_run_error]
            simp only [statement, begin_, hf]
            rfl
          | none =>
            have hread : statement faults (fun s => (s, s.listCiRefreshCandidates
                source.descriptor.sourceId cutoff
                (opts.ciRefreshLimit.getD defaultCiRefreshLimit))) (begin_ store) =
                (.ok (store.listCiRefreshCandidates source.descriptor.sourceId cutoff
                  (opts.ciRefreshLimit.getD defaultCiRefreshLimit)),
                  { db := ⟨store, none⟩, statements := 1, vars := ⟨0, 0⟩ }) := by
              simp only [statement, begin_, hf]
            left
            rw [bind_run_ok hread]
            simp only [bind, Except.bind]
            split
            · rfl
            · rfl

theorem autocommits_recordFailedRun (store : Store P) (source : Source P) (opts : SyncOptions)
    (env : RunEnv) (msg : String) :
    Autocommits faults (recordFailedRun faults source opts env msg) store
      (if opts.dryRun then 0 else 4)
      (SymphonyBoard.recordFailedRun store source opts env msg).2
      (SymphonyBoard.recordFailedRun store source opts env msg).1 := by
  unfold recordFailedRun SymphonyBoard.recordFailedRun
  cases opts.dryRun with
  | true => exact autocommits_pure _
  | false =>
    show Autocommits faults _ store (1 + (1 + (1 + (1 + 0)))) _ _
    refine autocommits_bind (autocommits_statement _) ?_
    refine autocommits_bind (autocommits_statement _) ?_
    refine autocommits_bind (autocommits_statement _) ?_
    refine autocommits_bind (autocommits_statement _) ?_
    exact autocommits_pure _

end Bookkeeping

/-! ## The run -/

section Run

variable {faults} {store : Store P} {source : Source P} {prevWatermark : Option String}
variable {opts : SyncOptions} {env : RunEnv} {result : FetchResult P}
variable {bundles : List NormalizedBundle} {msg : String}

/-- The session after the fetch. -/
def fetched (faults : Nat → Option (Fault (Store P))) (store : Store P) (source : Source P)
    (prevWatermark : Option String) (opts : SyncOptions) (env : RunEnv) :
    Except String (FetchResult P) × SessionState (Store P) SweepCounts :=
  fetchWithRefresh faults source prevWatermark opts env.startedAt (begin_ store)

theorem fetched_db : (fetched faults store source prevWatermark opts env).2.db = ⟨store, none⟩ := by
  have hkeep : Keeps id (fetchWithRefresh faults source prevWatermark opts env.startedAt) :=
    keeps_fetchWithRefresh source prevWatermark opts env.startedAt
  obtain ⟨hcommitted, hpending, -⟩ := hkeep (begin_ store) rfl
  unfold fetched
  generalize (fetchWithRefresh faults source prevWatermark opts env.startedAt
    (begin_ store)).2 = s at *
  obtain ⟨⟨committed, pending⟩, statements, vars⟩ := s
  simp only [id] at hcommitted hpending
  rw [hcommitted, hpending]
  rfl

theorem fetched_vars : (fetched faults store source prevWatermark opts env).2.vars = ⟨0, 0⟩ :=
  (keeps_fetchWithRefresh source prevWatermark opts env.startedAt (begin_ store) rfl).2.2

/-- A run whose fetch throws. -/
theorem syncSource_unfetched (h : (fetched faults store source prevWatermark opts env).1 = .error msg) :
    syncSource faults source prevWatermark opts env (begin_ store) =
      recordFailedRun faults source opts env msg
        (fetched faults store source prevWatermark opts env).2 := by
  refine (bind_run_ok (attempt_run _ _)).trans ?_
  rw [show (fetchWithRefresh faults source prevWatermark opts env.startedAt (begin_ store)).1 =
    .error msg from h]
  rfl

/-- A run whose normalizer throws. -/
theorem syncSource_crashed (h : (fetched faults store source prevWatermark opts env).1 = .ok result)
    (hn : normalizeRecords source result.records = .error msg) :
    syncSource faults source prevWatermark opts env (begin_ store) =
      recordFailedRun faults source opts env ("normalize: " ++ msg)
        (fetched faults store source prevWatermark opts env).2 := by
  refine (bind_run_ok (attempt_run _ _)).trans ?_
  rw [show (fetchWithRefresh faults source prevWatermark opts env.startedAt (begin_ store)).1 =
    .ok result from h]
  simp only [hn]
  rfl

/-- A dry run that gets past both. -/
theorem syncSource_dry (h : (fetched faults store source prevWatermark opts env).1 = .ok result)
    (hn : normalizeRecords source result.records = .ok bundles) (hd : opts.dryRun = true) :
    syncSource faults source prevWatermark opts env (begin_ store) =
      (.ok (fetchedReport source env result bundles ⟨0, 0⟩),
        (fetched faults store source prevWatermark opts env).2) := by
  refine (bind_run_ok (attempt_run _ _)).trans ?_
  rw [show (fetchWithRefresh faults source prevWatermark opts env.startedAt (begin_ store)).1 =
    .ok result from h]
  simp only [hn, hd, if_true]
  have hvars : vars (fetched faults store source prevWatermark opts env).2 =
      (.ok ⟨0, 0⟩, (fetched faults store source prevWatermark opts env).2) := by
    rw [vars, fetched_vars]
  exact bind_run_ok hvars

/-- A run that reaches its transaction. -/
structure Reaches (faults : Nat → Option (Fault (Store P))) (store : Store P) (source : Source P)
    (prevWatermark : Option String) (opts : SyncOptions) (env : RunEnv) (result : FetchResult P)
    (bundles : List NormalizedBundle) : Prop where
  fetched : (fetched faults store source prevWatermark opts env).1 = .ok result
  normalized : normalizeRecords source result.records = .ok bundles
  written : opts.dryRun = false

/-- **A run that reaches its transaction commits it or leaves the store as
it was**, and returns a report either way. -/
theorem syncSource_reaches
    (h : Reaches faults store source prevWatermark opts env result bundles) :
    (Quiet faults (fetched faults store source prevWatermark opts env).2.statements
        (runStatements opts result bundles + 2) →
      ∃ s, syncSource faults source prevWatermark opts env (begin_ store) =
          (.ok (fetchedReport source env result bundles
            (runCounts store source opts env result bundles)), s) ∧
        s.db = ⟨commitRun store source opts env result bundles, none⟩) ∧
    (¬ Quiet faults (fetched faults store source prevWatermark opts env).2.statements
        (runStatements opts result bundles + 2) →
      ∃ counts msg s, syncSource faults source prevWatermark opts env (begin_ store) =
          (.ok { fetchedReport source env result bundles counts with
            status := .error, error := some msg }, s) ∧
        s.db = ⟨store, none⟩ ∧ LeftBy store source opts env result bundles counts) := by
  have hrun : ∀ r s', transaction faults (runWrites faults source opts env result bundles)
      (fetched faults store source prevWatermark opts env).2 = (r, s') →
      syncSource faults source prevWatermark opts env (begin_ store) =
        (.ok (match r with
          | .error msg => { fetchedReport source env result bundles s'.vars with
              status := .error, error := some msg }
          | .ok () => fetchedReport source env result bundles s'.vars), s') := by
    intro r s' htx
    refine (bind_run_ok (attempt_run _ _)).trans ?_
    rw [show (fetchWithRefresh faults source prevWatermark opts env.startedAt (begin_ store)).1 =
      .ok result from h.fetched]
    simp only [h.normalized, h.written, Bool.false_eq_true, if_false]
    refine (bind_run_ok (attempt_run _ _)).trans ?_
    rw [show transaction faults (runWrites faults source opts env result bundles)
      (fetchWithRefresh faults source prevWatermark opts env.startedAt (begin_ store)).2 =
        (r, s') from htx]
    cases r <;> rfl
  obtain ⟨hok, herr⟩ := transaction_spec (acts_runWrites store source opts env result bundles)
    (leftBy_zero store source opts env result bundles)
    (leftBy_edges store source opts env result bundles) _ fetched_db fetched_vars
  constructor
  · intro hq
    exact ⟨_, hrun _ _ (hok hq), rfl⟩
  · intro hq
    obtain ⟨msg, s', htx, hdb, hleft⟩ := herr hq
    exact ⟨s'.vars, msg, s', hrun _ _ htx, hdb, hleft⟩

/-- A failed run that returns has been recorded. -/
theorem recordFailedRun_returns {s : SessionState (Store P) SweepCounts} {report : SyncReport}
    (hs : s.db = ⟨store, none⟩)
    (h : (recordFailedRun faults source opts env msg s).1 = .ok report) :
    SymphonyBoard.recordFailedRun store source opts env msg =
      ((recordFailedRun faults source opts env msg s).2.db.committed, report) := by
  obtain ⟨hok, herr⟩ :=
    @autocommits_recordFailedRun _ faults store source opts env msg s hs
  by_cases hq : Quiet faults s.statements (if opts.dryRun then 0 else 4)
  · rw [hok hq] at h ⊢
    obtain rfl := Except.ok.inj h
    rfl
  · obtain ⟨msg', s', hrun⟩ := herr hq
    rw [hrun] at h
    cases h

/-- **The run with failing statements is a run.** Where the fetch's read was
answered and the run returns, it has done what `syncSource` does for some
outcome of its transaction. -/
theorem syncSource_refines {report : SyncReport}
    (hread : (fetched faults store source prevWatermark opts env).1 =
      SymphonyBoard.fetchWithRefresh store source prevWatermark opts env.startedAt)
    (hret : (syncSource faults source prevWatermark opts env (begin_ store)).1 = .ok report) :
    ∃ txError, SymphonyBoard.syncSource store source prevWatermark opts { env with txError } =
      ((syncSource faults source prevWatermark opts env (begin_ store)).2.db.committed, report) := by
  cases hf : (fetched faults store source prevWatermark opts env).1 with
  | error msg =>
    rw [syncSource_unfetched hf] at hret ⊢
    refine ⟨none, ?_⟩
    rw [← recordFailedRun_returns fetched_db hret]
    unfold SymphonyBoard.syncSource
    rw [← hread, hf]
    rfl
  | ok result =>
    cases hn : normalizeRecords source result.records with
    | error msg =>
      rw [syncSource_crashed hf hn] at hret ⊢
      refine ⟨none, ?_⟩
      rw [← recordFailedRun_returns fetched_db hret]
      unfold SymphonyBoard.syncSource
      rw [← hread, hf]
      simp only [hn]
      rfl
    | ok bundles =>
      rcases Bool.eq_false_or_eq_true opts.dryRun with hd | hd
      · rw [syncSource_dry hf hn hd] at hret ⊢
        obtain rfl := Except.ok.inj hret
        refine ⟨none, ?_⟩
        unfold SymphonyBoard.syncSource
        rw [← hread, hf, fetched_db]
        simp only [hn, hd, if_true]
        rfl
      · obtain ⟨hok, herr⟩ := syncSource_reaches ⟨hf, hn, hd⟩
        -- every statement of the transaction comes off, or the first that does not undoes it
        by_cases hq : Quiet faults (fetched faults store source prevWatermark opts env).2.statements
            (runStatements opts result bundles + 2)
        · obtain ⟨s, hrun, hdb⟩ := hok hq
          rw [hrun] at hret ⊢
          obtain rfl := Except.ok.inj hret
          refine ⟨none, ?_⟩
          unfold SymphonyBoard.syncSource
          rw [← hread, hf, hdb]
          simp only [hn, hd, Bool.false_eq_true, if_false]
          unfold sweptCounts runCounts sweepCounts fetchedReport
          cases sweeps opts result <;> rfl
        · obtain ⟨counts, msg, s, hrun, hdb, stage, hcounts⟩ := herr hq
          rw [hrun] at hret ⊢
          obtain rfl := Except.ok.inj hret
          refine ⟨some (stage, msg), ?_⟩
          unfold SymphonyBoard.syncSource
          rw [← hread, hf, hdb]
          simp only [hn, hd, Bool.false_eq_true, if_false]
          rw [← hcounts msg]
          rfl

end Run

end Session

end Runs

end SymphonyBoard
