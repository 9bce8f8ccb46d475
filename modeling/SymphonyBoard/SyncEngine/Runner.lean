import SymphonyBoard.Config.Types
import SymphonyBoard.SyncEngine.SoftDelete
/-!
# A run over several sources

`executeSyncRun` of `src/sync-runner.ts`: the writer lease, the legs one
after the other over one store, and the contract emits at the checkpoints.
Whether the lease is free and what each emit call answers are inputs; the
request counters and the progress reports are left out.

`executeSyncRun_store` says what the run does to the store: its legs, in
order.
-/

namespace SymphonyBoard

/-- What a run reads. -/
inductive SyncMode
  | incremental
  | full
deriving DecidableEq, Repr

/-- What a run is asked for. -/
structure SyncRunOptions where
  mode : SyncMode
  dryRun : Bool
  sourceId : Option String

/-- The statuses of a leg, and of a source in the coverage of a run. -/
inductive LegStatus
  | ok
  | partial_
  | error
  | skipped
  | pending
  | running
deriving DecidableEq, Repr

/-- The status of a leg, from that of its sync. -/
def LegStatus.ofRun : RunStatus → LegStatus
  | .ok => .ok
  | .partial_ => .partial_
  | .error => .error

/-- What became of one source. -/
structure SourceRunResult where
  sourceId : String
  status : LegStatus
  items : ℕ
  edges : ℕ
  activities : ℕ
  softDeleted : ℕ
  softDeletedEdges : ℕ
  error : Option String

/-- The counts of a run. -/
structure SyncRunTotals where
  items : ℕ
  edges : ℕ
  activities : ℕ
  softDeleted : ℕ
  softDeletedEdges : ℕ

/-- Nothing counted. -/
def emptyTotals : SyncRunTotals := ⟨0, 0, 0, 0, 0⟩

/-- What a run returns. -/
structure SyncRunResult where
  status : LegStatus
  sources : List SourceRunResult
  totals : SyncRunTotals
  emitted : Bool
  error : Option String

/-- The coverage an emit carries. -/
structure SyncRunDTO where
  mode : SyncMode
  sourceScope : Option String
  status : LegStatus
  sources : List (String × LegStatus)

/-- A source built from its config entry, and what its leg reads from its
surroundings. The adapters report only their own rows (`ownRows_gitLab`,
`ownRows_gitHub_tableEdges`). -/
structure PreparedSource (P : Type) where
  config : SourceConfig
  source : Source P
  env : RunEnv
  built : source.descriptor.sourceId.val = config.sourceId
  own : OwnRows source

/-- Error before partial before ok; a skipped source is no failure. -/
def overallStatus (sources : List SourceRunResult) : LegStatus :=
  if sources.any fun s => s.status = .error then .error
  else if sources.any fun s => s.status = .partial_ then .partial_
  else .ok

section

variable {P : Type}

/-- Where a run stands between two legs. -/
structure RunState (P : Type) where
  store : Store P
  results : List SourceRunResult
  emitted : Bool
  emitError : Option String
  hasCommittedLeg : Bool
  published : List SyncRunDTO

/-- What the emit callback answers its `n`th call: an error, or none. -/
abbrev EmitOutcomes := ℕ → Option String

variable (prepared : List (PreparedSource P)) (opts : SyncRunOptions)
  (emit : Option EmitOutcomes)

/-- `coverageOf`: the sources so far, the others pending. -/
def coverageOf (running : Bool) (st : RunState P) : SyncRunDTO :=
  let completed := st.results.map (·.sourceId)
  { mode := opts.mode
    sourceScope := opts.sourceId
    status := if running then .running else overallStatus st.results
    sources := (st.results.map fun r => (r.sourceId, r.status)) ++
      (prepared.filter fun p => p.config.sourceId ∉ completed).map fun p =>
        (p.config.sourceId, .pending) }

/-- An all-failed run publishes nothing. -/
def publish (running : Bool) (st : RunState P) : RunState P :=
  match emit with
  | none => st
  | some answers =>
    if opts.dryRun ∨ (¬st.hasCommittedLeg ∧
        (prepared ≠ [] ∨ overallStatus st.results = .error)) then st
    else
      let coverage := coverageOf prepared opts running st
      match answers st.published.length with
      | none => { st with
          emitted := true, emitError := none, published := st.published ++ [coverage] }
      | some message => { st with
          emitError := some ("contract emit failed: " ++ message)
          published := st.published ++ [coverage] }

/-- One leg's sync, over the store as the legs before left it. -/
def syncLeg (store : Store P) (p : PreparedSource P) : Store P × SyncReport :=
  let full := opts.mode = .full
  let prev := if full then none else store.getWatermark p.source.descriptor.sourceId
  syncSource store p.source prev
    { full, dryRun := opts.dryRun, ciRefreshGraceMs := none, ciRefreshLimit := none } p.env

/-- The result of a leg. -/
def resultOfReport (rep : SyncReport) : SourceRunResult :=
  { sourceId := rep.sourceId.val
    status := .ofRun rep.status
    items := rep.itemsSeen
    edges := rep.edgesSeen
    activities := rep.activitiesSeen
    softDeleted := rep.softDeleted
    softDeletedEdges := rep.softDeletedEdges
    error := rep.error }

/-- A leg, and the checkpoint after it; the last leg's is the final one. -/
def runLeg (st : RunState P) (leg : PreparedSource P × ℕ) : RunState P :=
  let (store, rep) := syncLeg opts st.store leg.1
  let st := { st with
    store
    results := st.results ++ [resultOfReport rep]
    hasCommittedLeg := st.hasCommittedLeg || rep.status ≠ .error }
  if leg.2 < prepared.length - 1 then publish prepared opts emit true st else st

/-- The result of a source that is left out. -/
def skippedResult (sourceId : String) : SourceRunResult :=
  ⟨sourceId, .skipped, 0, 0, 0, 0, 0, none⟩

/-- The counts of all results. -/
def totalsOf (results : List SourceRunResult) : SyncRunTotals :=
  results.foldl (fun acc r =>
    ⟨acc.items + r.items, acc.edges + r.edges, acc.activities + r.activities,
      acc.softDeleted + r.softDeleted, acc.softDeletedEdges + r.softDeletedEdges⟩) emptyTotals

/-- `executeSyncRun`: the legs in order, with their checkpoints. -/
def executeSyncRun (leaseFree : Bool) (store : Store P) (prepared : List (PreparedSource P))
    (skipped : List String) (opts : SyncRunOptions) (emit : Option EmitOutcomes)
    (errored : List SourceRunResult) : RunState P × SyncRunResult :=
  let start : RunState P :=
    { store, results := skipped.map skippedResult ++ errored, emitted := false,
      emitError := none, hasCommittedLeg := false, published := [] }
  if ¬opts.dryRun ∧ ¬leaseFree then
    (start, ⟨.skipped, [], emptyTotals, false, none⟩)
  else
    let legs := prepared.zipIdx.foldl (runLeg prepared opts emit) start
    let status := overallStatus legs.results
    let final := publish prepared opts emit false legs
    let error := final.emitError.or
      (if status = .error then some "one or more sources failed to sync" else none)
    let result : SyncRunResult :=
      { status := if final.emitError.isSome then .error else status
        sources := final.results
        totals := totalsOf legs.results
        emitted := final.emitted
        error }
    (final, result)

/-! ## What a run does to the store -/

theorem publish_store (running : Bool) (st : RunState P) :
    (publish prepared opts emit running st).store = st.store := by
  unfold publish
  split
  · rfl
  · split
    · rfl
    · simp only
      split <;> rfl

theorem runLeg_store (st : RunState P) (leg : PreparedSource P × ℕ) :
    (runLeg prepared opts emit st leg).store = (syncLeg opts st.store leg.1).1 := by
  unfold runLeg
  simp only
  split
  · rw [publish_store]
  · rfl

theorem foldl_runLeg_store (legs : List (PreparedSource P)) (i : ℕ) (st : RunState P) :
    ((legs.zipIdx i).foldl (runLeg prepared opts emit) st).store =
      legs.foldl (fun s p => (syncLeg opts s p).1) st.store := by
  induction legs generalizing i st with
  | nil => rfl
  | cons leg legs ih => rw [List.zipIdx_cons, List.foldl_cons, ih, runLeg_store, List.foldl_cons]

/-- **A run's store is its legs', in order**, when it holds the lease or
writes nothing. -/
theorem executeSyncRun_store {leaseFree : Bool} (store : Store P) (skipped : List String)
    (errored : List SourceRunResult) (h : opts.dryRun = true ∨ leaseFree = true) :
    (executeSyncRun leaseFree store prepared skipped opts emit errored).1.store =
      prepared.foldl (fun s p => (syncLeg opts s p).1) store := by
  unfold executeSyncRun
  simp only
  rw [if_neg]
  · rw [publish_store, foldl_runLeg_store]
  · rintro ⟨hdry, hlease⟩
    rcases h with h | h
    · exact hdry h
    · exact hlease h

end

end SymphonyBoard
