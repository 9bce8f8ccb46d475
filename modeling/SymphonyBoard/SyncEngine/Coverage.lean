import SymphonyBoard.SyncEngine.Atomic
import SymphonyBoard.SyncEngine.KeepsFetched
/-!
# The coverage a run publishes

`executeSyncRun` of `src/sync-runner.ts` once more, with every call that
can throw: the lease, the watermark read and the progress reports around a
leg, the statements of the leg itself. The run keeps a log of the reports
of its legs and of its calls of `emit`.

`executeRun_coverage` says that what is published is true at its
checkpoint, and when something is published at all.
-/

namespace SymphonyBoard

/-- One call of `emit`: after how many legs, whether it is the one at the
end of the run, and what it answered. -/
structure EmitCall where
  coverage : SyncRunDTO
  finished : ℕ
  last : Bool
  leaseHeld : Bool
  failed : Option String

section

variable {P : Type}

/-- What throws around a leg, and in its statements. -/
structure LegCalls (P : Type) where
  watermark : Option String
  started : Option String
  statements : ℕ → Option (Fault (Store P))
  finished : Option String

/-- What the calls of a run come to: the lease, each leg, and the emit where there is one. -/
structure RunCalls (P : Type) where
  acquireWriterLease : Except String Bool
  leg : ℕ → LegCalls P
  emit : Option EmitOutcomes

/-- A run, with whether it holds the lease, the reports of its finished legs
and its emits. -/
structure RunLog (P : Type) where
  run : RunState P
  leaseHeld : Bool
  reports : List SyncReport
  emits : List EmitCall

/-- `try` with a `finally`. -/
def tryFinally {S α : Type} (body : S → Except String α × S) (final : S → S) :
    S → Except String α × S := fun s =>
  let (r, s) := body s
  (r, final s)

section Run

variable (calls : RunCalls P) (prepared : List (PreparedSource P)) (opts : SyncRunOptions)

/-- `publish`, and the call of `emit` it made, if any. -/
def publishLogged (last : Bool) (log : RunLog P) : RunLog P :=
  let run := publish prepared opts calls.emit (!last) log.run
  { log with
    run
    emits := log.emits ++ (run.published.drop log.run.published.length).map fun coverage =>
      { coverage
        finished := log.reports.length
        last
        leaseHeld := log.leaseHeld
        failed := calls.emit.bind fun answers => answers log.run.published.length } }

/-- The calls of a leg up to its report. -/
def runSyncLeg (call : LegCalls P) (store : Store P) (p : PreparedSource P) :
    Except String SyncReport × Store P :=
  let full := opts.mode = .full
  match if full then none else call.watermark, call.started with
  | some message, _ => (.error message, store)
  | none, some message => (.error message, store)
  | none, none =>
    let prev := if full then none else store.getWatermark p.source.descriptor.sourceId
    runSync call.statements store p.source prev
      { full, dryRun := opts.dryRun, ciRefreshGraceMs := none, ciRefreshLimit := none } p.env

/-- The run once a leg has its report. -/
def afterReport (log : RunLog P) (store : Store P) (rep : SyncReport) : RunLog P :=
  { log with
    run := { log.run with
      store
      results := log.run.results ++ [resultOfReport rep]
      hasCommittedLeg := log.run.hasCommittedLeg || rep.status ≠ .error }
    reports := log.reports ++ [rep] }

/-- A leg, its checkpoint unless it is the last one, and the report of its
progress. -/
def runLegLogged (leg : PreparedSource P × ℕ) (log : RunLog P) : Except String Unit × RunLog P :=
  match runSyncLeg opts (calls.leg leg.2) log.run.store leg.1 with
  | (.error message, store) => (.error message, { log with run := { log.run with store } })
  | (.ok rep, store) =>
    let log := afterReport log store rep
    let log := if leg.2 < prepared.length - 1 then publishLogged calls prepared opts false log else log
    (match (calls.leg leg.2).finished with
      | some message => .error message
      | none => .ok (), log)

/-- The legs one after another, with what each came to. -/
def runLegs : List (PreparedSource P × ℕ) → RunLog P → Except String Unit × RunLog P
  | [], log => (.ok (), log)
  | leg :: legs, log =>
    match runLegLogged calls prepared opts leg log with
    | (.ok (), log) => runLegs legs log
    | (.error message, log) => (.error message, log)

/-- What a run returns after its last checkpoint. -/
def runResult (legs final : RunState P) : SyncRunResult :=
  let status := overallStatus legs.results
  let error := final.emitError.or
    (if status = .error then some "one or more sources failed to sync" else none)
  { status := if final.emitError.isSome then .error else status
    sources := final.results
    totals := totalsOf legs.results
    emitted := final.emitted
    error }

/-- A run under the lease: the legs, then the emit at the end. -/
def runBody (log : RunLog P) : Except String SyncRunResult × RunLog P :=
  match runLegs calls prepared opts prepared.zipIdx log with
  | (.error message, log) => (.error message, log)
  | (.ok (), legs) =>
    let final := publishLogged calls prepared opts true legs
    (.ok (runResult legs.run final.run), final)

/-- The log before the first leg: the sources skipped and those that could not be built. -/
def runStart (store : Store P) (skipped : List String) (errored : List SourceRunResult) :
    RunLog P :=
  { run :=
      { store, results := skipped.map skippedResult ++ errored, emitted := false,
        emitError := none, hasCommittedLeg := false, published := [] }
    leaseHeld := false
    reports := []
    emits := [] }

/-- `executeRun`: a run that writes takes the lease first. -/
def executeRun (store : Store P) (skipped : List String) (errored : List SourceRunResult) :
    Except String SyncRunResult × RunLog P :=
  let start := runStart store skipped errored
  if opts.dryRun then runBody calls prepared opts start
  else
    match calls.acquireWriterLease with
    | .error message => (.error message, start)
    | .ok false => (.ok ⟨.skipped, [], emptyTotals, false, none⟩, start)
    | .ok true =>
      tryFinally (runBody calls prepared opts) (fun log => { log with leaseHeld := false })
        { start with leaseHeld := true }

end Run

/-! ## What coverage should say -/

/-- Error is worse than partial, and partial than the rest. -/
def LegStatus.severity : LegStatus → ℕ
  | .error => 2
  | .partial_ => 1
  | _ => 0

/-- The worst of some statuses, ok where none is worse. -/
def IsWorst (status : LegStatus) (statuses : List LegStatus) : Prop :=
  (status = .ok ∨ status ∈ statuses) ∧ ∀ s ∈ statuses, s.severity ≤ status.severity

/-- Coverage that is true after some reports: every source of the run once,
the finished ones with their legs' statuses, the others pending. -/
structure TruthfulCoverage (prepared : List (PreparedSource P)) (skipped : List String)
    (errored : List SourceRunResult) (opts : SyncRunOptions) (reports : List SyncReport)
    (last : Bool) (coverage : SyncRunDTO) : Prop where
  mode : coverage.mode = opts.mode
  sourceScope : coverage.sourceScope = opts.sourceId
  sources : coverage.sources.map Prod.fst =
    skipped ++ errored.map (·.sourceId) ++ prepared.map (·.config.sourceId)
  once : (coverage.sources.map Prod.fst).Nodup
  ofSkipped : ∀ id ∈ skipped, (id, .skipped) ∈ coverage.sources
  ofErrored : ∀ r ∈ errored, (r.sourceId, r.status) ∈ coverage.sources
  ofFinished : ∀ (j : ℕ) (p : PreparedSource P) (rep : SyncReport), prepared[j]? = some p →
    reports[j]? = some rep → (p.config.sourceId, LegStatus.ofRun rep.status) ∈ coverage.sources
  pending : ∀ (j : ℕ) (p : PreparedSource P), prepared[j]? = some p →
    ((p.config.sourceId, LegStatus.pending) ∈ coverage.sources ↔ reports.length ≤ j)
  running : last = false → coverage.status = .running
  worst : last = true → IsWorst coverage.status
    (skipped.map (fun _ => .skipped) ++ errored.map (·.status) ++
      reports.map fun rep => .ofRun rep.status)

theorem overallStatus_isWorst (sources : List SourceRunResult) :
    IsWorst (overallStatus sources) (sources.map (·.status)) := by
  unfold overallStatus
  by_cases herror : sources.any (fun s => s.status = .error) = true
  · rw [if_pos herror]
    obtain ⟨s, hs, hstatus⟩ := List.any_eq_true.mp herror
    refine ⟨Or.inr (List.mem_map.mpr ⟨s, hs, of_decide_eq_true hstatus⟩), fun t _ => ?_⟩
    cases t <;> decide
  · rw [if_neg herror]
    have hno : ∀ s ∈ sources, s.status ≠ .error := fun s hs heq =>
      herror (List.any_eq_true.mpr ⟨s, hs, decide_eq_true heq⟩)
    by_cases hpartial : sources.any (fun s => s.status = .partial_) = true
    · rw [if_pos hpartial]
      obtain ⟨s, hs, hstatus⟩ := List.any_eq_true.mp hpartial
      refine ⟨Or.inr (List.mem_map.mpr ⟨s, hs, of_decide_eq_true hstatus⟩), fun t ht => ?_⟩
      obtain ⟨r, hr, rfl⟩ := List.mem_map.mp ht
      have hr' := hno r hr
      cases hst : r.status <;> simp_all [LegStatus.severity]
    · rw [if_neg hpartial]
      refine ⟨Or.inl rfl, fun t ht => ?_⟩
      obtain ⟨r, hr, rfl⟩ := List.mem_map.mp ht
      have hr' := hno r hr
      have hr'' : r.status ≠ .partial_ := fun heq =>
        hpartial (List.any_eq_true.mpr ⟨r, hr, decide_eq_true heq⟩)
      cases hst : r.status <;> simp_all [LegStatus.severity]

/-! ## What a run keeps true -/

variable {calls : RunCalls P} {prepared : List (PreparedSource P)} {opts : SyncRunOptions}
variable {skipped : List String} {errored : List SourceRunResult} {log : RunLog P}

/-- An emit that was made rightly: true coverage, in a run that writes, with
the lease, and not over failed legs alone. -/
structure RightEmit (prepared : List (PreparedSource P)) (skipped : List String)
    (errored : List SourceRunResult) (opts : SyncRunOptions) (reports : List SyncReport)
    (e : EmitCall) : Prop where
  finished : e.finished ≤ reports.length
  truthful : TruthfulCoverage prepared skipped errored opts (reports.take e.finished) e.last
    e.coverage
  written : opts.dryRun = false
  leaseHeld : e.leaseHeld = true
  committed : prepared ≠ [] → ∃ rep ∈ reports.take e.finished, rep.status ≠ .error

/-- The log of a run between two of its calls. -/
structure Logged (prepared : List (PreparedSource P)) (skipped : List String)
    (errored : List SourceRunResult) (opts : SyncRunOptions) (log : RunLog P) : Prop where
  results : log.run.results =
    skipped.map skippedResult ++ errored ++ log.reports.map resultOfReport
  legs : log.reports.map (·.sourceId.val) =
    (prepared.take log.reports.length).map (·.config.sourceId)
  committed : log.run.hasCommittedLeg = log.reports.any fun rep => rep.status ≠ .error
  leaseHeld : opts.dryRun = false → log.leaseHeld = true
  emits : ∀ e ∈ log.emits, RightEmit prepared skipped errored opts log.reports e

/-- The sources of a run are told apart by their ids. -/
structure DistinctSources (prepared : List (PreparedSource P)) (skipped : List String)
    (errored : List SourceRunResult) : Prop where
  nodup : (skipped ++ errored.map (·.sourceId) ++ prepared.map (·.config.sourceId)).Nodup
  errored : ∀ r ∈ errored, r.status = .error

/-- A report is of the source at its position. -/
theorem sourceId_of_report (hlog : Logged prepared skipped errored opts log) {j : ℕ} {p : PreparedSource P} {rep : SyncReport}
    (hp : prepared[j]? = some p) (hrep : log.reports[j]? = some rep) :
    rep.sourceId.val = p.config.sourceId := by
  have hj : j < log.reports.length := (List.getElem?_eq_some_iff.mp hrep).1
  have hget := congrArg (fun l : List String => l[j]?) hlog.legs
  simp only [List.getElem?_map, hrep, List.getElem?_take_of_lt hj, hp, Option.map_some] at hget
  exact Option.some.inj hget

section Truthful

variable (hdistinct : DistinctSources prepared skipped errored)
  (hlog : Logged prepared skipped errored opts log)

include hdistinct hlog

/-- The sources still to come are the ones after the finished legs. -/
theorem filter_pending :
    (prepared.filter fun p => p.config.sourceId ∉ log.run.results.map (·.sourceId)) =
      prepared.drop log.reports.length := by
  have hcompleted : log.run.results.map (·.sourceId) = skipped ++ errored.map (·.sourceId) ++
      (prepared.take log.reports.length).map (·.config.sourceId) := by
    rw [hlog.results, List.map_append, List.map_append, List.map_map, List.map_map, ← hlog.legs]
    congr 2
    exact List.map_id' skipped
  have hnodup := hdistinct.nodup
  rw [← List.take_append_drop log.reports.length prepared, List.map_append, ← List.append_assoc,
    ← hcompleted] at hnodup
  have hdisjoint := (List.nodup_append.mp hnodup).2.2
  conv_lhs => rw [← List.take_append_drop log.reports.length prepared]
  rw [List.filter_append]
  have htake : (prepared.take log.reports.length).filter
      (fun p => p.config.sourceId ∉ log.run.results.map (·.sourceId)) = [] := by
    refine List.filter_eq_nil_iff.mpr fun p hp => ?_
    have hmem : p.config.sourceId ∈ log.run.results.map (·.sourceId) := by
      rw [hcompleted]
      exact List.mem_append_right _ (List.mem_map_of_mem hp)
    simpa using hmem
  have hdrop : (prepared.drop log.reports.length).filter
      (fun p => p.config.sourceId ∉ log.run.results.map (·.sourceId)) =
        prepared.drop log.reports.length := by
    refine List.filter_eq_self.mpr fun p hp => decide_eq_true fun hmem => ?_
    exact hdisjoint _ hmem _ (List.mem_map_of_mem hp) rfl
  rw [htake, hdrop, List.nil_append]

/-- The sources of a checkpoint's coverage, in its order. -/
theorem sources_coverageOf (running : Bool) :
    (coverageOf prepared opts running log.run).sources =
      skipped.map (fun id => (id, LegStatus.skipped)) ++
        errored.map (fun r => (r.sourceId, r.status)) ++
        log.reports.map (fun rep => (rep.sourceId.val, LegStatus.ofRun rep.status)) ++
        (prepared.drop log.reports.length).map fun p => (p.config.sourceId, .pending) := by
  have hpending := filter_pending hdistinct hlog
  simp only [coverageOf]
  rw [hpending, hlog.results, List.map_append, List.map_append, List.map_map, List.map_map]
  rfl

/-- **The coverage of a checkpoint is true.** -/
theorem truthful_coverageOf (last : Bool) :
    TruthfulCoverage prepared skipped errored opts log.reports last
      (coverageOf prepared opts (!last) log.run) := by
  have hsources := sources_coverageOf hdistinct hlog (!last)
  have hids : (coverageOf prepared opts (!last) log.run).sources.map Prod.fst =
      skipped ++ errored.map (·.sourceId) ++ prepared.map (·.config.sourceId) := by
    rw [hsources]
    simp only [List.map_append, List.map_map]
    rw [List.append_assoc (_ ++ _)]
    congr 1
    · congr 1
      exact List.map_id' skipped
    · show log.reports.map (·.sourceId.val) ++
        (prepared.drop log.reports.length).map (·.config.sourceId) = _
      rw [hlog.legs, ← List.map_append]
      congr 1
      exact List.take_append_drop _ _
  refine ⟨rfl, rfl, hids, hids ▸ hdistinct.nodup, fun id hid => ?_, fun r hr => ?_,
    fun j p rep hp hrep => ?_, fun j p hp => ⟨fun hmem => ?_, fun hle => ?_⟩, fun hlast => ?_,
    fun hlast => ?_⟩
  · rw [hsources]
    simp only [List.mem_append, List.mem_map]
    exact Or.inl (Or.inl (Or.inl ⟨id, hid, rfl⟩))
  · rw [hsources]
    simp only [List.mem_append, List.mem_map]
    exact Or.inl (Or.inl (Or.inr ⟨r, hr, rfl⟩))
  · rw [hsources, ← sourceId_of_report hlog hp hrep]
    simp only [List.mem_append, List.mem_map]
    exact Or.inl (Or.inr ⟨rep, List.mem_of_getElem? hrep, rfl⟩)
  · -- a pending entry is of a source after the finished legs
    rw [hsources] at hmem
    simp only [List.mem_append, List.mem_map, Prod.mk.injEq] at hmem
    rcases hmem with ((⟨id, -, -, h⟩ | ⟨r, hr, -, h⟩) | ⟨rep, -, -, h⟩) | ⟨q, hq, hid, -⟩
    · cases h
    · rw [hdistinct.errored r hr] at h
      cases h
    · cases hst : rep.status <;> rw [hst] at h <;> cases h
    · by_contra hlt
      have htake : p ∈ prepared.take log.reports.length :=
        List.mem_of_getElem? ((List.getElem?_take_of_lt (Nat.lt_of_not_le hlt)).trans hp)
      have hnodup := (List.nodup_append.mp hdistinct.nodup).2.1
      rw [← List.take_append_drop log.reports.length prepared, List.map_append] at hnodup
      exact (List.nodup_append.mp hnodup).2.2 _ (List.mem_map_of_mem htake) _
        (List.mem_map_of_mem hq) hid.symm
  · have hdrop : p ∈ prepared.drop log.reports.length := by
      have hget : (prepared.drop log.reports.length)[j - log.reports.length]? = some p := by
        rw [List.getElem?_drop, Nat.add_sub_cancel' hle, hp]
      exact List.mem_of_getElem? hget
    rw [hsources]
    simp only [List.mem_append, List.mem_map]
    exact Or.inr ⟨p, hdrop, rfl⟩
  · subst hlast
    rfl
  · subst hlast
    have hworst := overallStatus_isWorst log.run.results
    rw [hlog.results, List.map_append, List.map_append, List.map_map, List.map_map] at hworst
    show IsWorst (overallStatus log.run.results) _
    rw [hlog.results]
    exact hworst

end Truthful

/-! ## The steps of a run -/

variable (calls prepared opts log) in
/-- **What `publish` does.** It makes no call, for one of its reasons, or one
with the coverage of the moment; the final call leaves its outcome. -/
theorem publishLogged_cases (last : Bool) :
    (publishLogged calls prepared opts last log = log ∧
      (calls.emit = none ∨ opts.dryRun = true ∨ log.run.hasCommittedLeg = false)) ∨
    (opts.dryRun = false ∧ (log.run.hasCommittedLeg = true ∨ prepared = []) ∧
      ∃ answers, calls.emit = some answers ∧
        (publishLogged calls prepared opts last log).run.results = log.run.results ∧
        (publishLogged calls prepared opts last log).run.hasCommittedLeg =
          log.run.hasCommittedLeg ∧
        (publishLogged calls prepared opts last log).leaseHeld = log.leaseHeld ∧
        (publishLogged calls prepared opts last log).reports = log.reports ∧
        (publishLogged calls prepared opts last log).emits = log.emits ++
          [{ coverage := coverageOf prepared opts (!last) log.run
             finished := log.reports.length
             last
             leaseHeld := log.leaseHeld
             failed := answers log.run.published.length }] ∧
        (publishLogged calls prepared opts last log).run.emitError =
          (answers log.run.published.length).map fun message =>
            "contract emit failed: " ++ message) := by
  unfold publishLogged publish
  cases hemit : calls.emit with
  | none =>
    left
    simp
  | some answers =>
    by_cases hskip : opts.dryRun = true ∨ (¬log.run.hasCommittedLeg = true ∧
        (prepared ≠ [] ∨ overallStatus log.run.results = .error))
    · left
      simp only [if_pos hskip, List.drop_length, List.map_nil, List.append_nil, true_and]
      rcases hskip with hdry | ⟨hnot, -⟩
      · exact Or.inr (Or.inl hdry)
      · exact Or.inr (Or.inr (by simpa using hnot))
    · right
      obtain ⟨hdry, hrest⟩ := not_or.mp hskip
      simp only [if_neg hskip]
      refine ⟨by simpa using hdry, ?_, answers, rfl, ?_⟩
      · by_contra hno
        obtain ⟨hnot, hne⟩ := not_or.mp hno
        exact hrest ⟨hnot, Or.inl hne⟩
      · cases hanswer : answers log.run.published.length with
        | none => simp [hanswer]
        | some message => simp [hanswer]

/-- A report names the source it is of. -/
theorem sourceId_of_runSync {faults : ℕ → Option (Fault (Store P))} {store : Store P}
    {source : Source P} {prevWatermark : Option String} {syncOpts : SyncOptions} {env : RunEnv}
    {rep : SyncReport}
    (h : (runSync faults store source prevWatermark syncOpts env).1 = .ok rep) :
    rep.sourceId = source.descriptor.sourceId := by
  -- a recorded failure names its source
  have hfailed : ∀ msg s, s.db = ⟨store, none⟩ →
      (Session.recordFailedRun faults source syncOpts env msg s).1 = .ok rep →
      rep.sourceId = source.descriptor.sourceId := by
    intro msg s hs hret
    have hreturn := Session.recordFailedRun_returns hs hret
    have hrep := congrArg Prod.snd hreturn
    dsimp only at hrep
    rw [← hrep]
    unfold recordFailedRun
    cases syncOpts.dryRun <;> rfl
  unfold runSync at h
  cases hf : (Session.fetched faults store source prevWatermark syncOpts env).1 with
  | error msg =>
    rw [Session.syncSource_unfetched hf] at h
    exact hfailed msg _ Session.fetched_db h
  | ok result =>
    cases hn : normalizeRecords source result.records with
    | error msg =>
      rw [Session.syncSource_crashed hf hn] at h
      exact hfailed _ _ Session.fetched_db h
    | ok bundles =>
      rcases Bool.eq_false_or_eq_true syncOpts.dryRun with hd | hd
      · rw [Session.syncSource_dry hf hn hd] at h
        obtain rfl := Except.ok.inj h
        rfl
      · obtain ⟨hcommit, hfail⟩ := Session.syncSource_reaches ⟨hf, hn, hd⟩
        by_cases hq : Session.Quiet faults
            (Session.fetched faults store source prevWatermark syncOpts env).2.statements
            (Session.runStatements syncOpts result bundles + 2)
        · obtain ⟨s, hrun, -⟩ := hcommit hq
          rw [hrun] at h
          obtain rfl := Except.ok.inj h
          rfl
        · obtain ⟨counts, msg, s, hrun, -⟩ := hfail hq
          rw [hrun] at h
          obtain rfl := Except.ok.inj h
          rfl

theorem sourceId_of_runSyncLeg {call : LegCalls P} {store : Store P} {p : PreparedSource P}
    {rep : SyncReport} (h : (runSyncLeg opts call store p).1 = .ok rep) :
    rep.sourceId.val = p.config.sourceId := by
  unfold runSyncLeg at h
  dsimp only at h
  split at h
  · cases h
  · cases h
  · rw [sourceId_of_runSync h, p.built]

theorem logged_store (hlog : Logged prepared skipped errored opts log) (store : Store P) :
    Logged prepared skipped errored opts { log with run := { log.run with store } } :=
  ⟨hlog.results, hlog.legs, hlog.committed, hlog.leaseHeld, hlog.emits⟩

/-- An emit stays right as more legs finish. -/
theorem RightEmit.mono {reports : List SyncReport} {e : EmitCall}
    (h : RightEmit prepared skipped errored opts reports e) (rep : SyncReport) :
    RightEmit prepared skipped errored opts (reports ++ [rep]) e := by
  have htake : (reports ++ [rep]).take e.finished = reports.take e.finished :=
    List.take_append_of_le_length h.finished
  refine ⟨?_, htake ▸ h.truthful, h.written, h.leaseHeld, htake ▸ h.committed⟩
  rw [List.length_append]
  exact Nat.le_add_right_of_le h.finished

/-- A leg has its report. -/
theorem logged_afterReport (hlog : Logged prepared skipped errored opts log) {store : Store P}
    {p : PreparedSource P} {rep : SyncReport} (hp : prepared[log.reports.length]? = some p)
    (hid : rep.sourceId.val = p.config.sourceId) :
    Logged prepared skipped errored opts (afterReport log store rep) where
  results := by
    show log.run.results ++ [resultOfReport rep] = _
    rw [hlog.results, List.append_assoc, afterReport, List.map_append]
    rfl
  legs := by
    show (log.reports ++ [rep]).map _ = ((prepared.take (log.reports ++ [rep]).length).map _)
    rw [List.length_append, List.length_singleton, List.take_add_one, hp,
      List.map_append, List.map_append, hlog.legs]
    exact congrArg (_ ++ [·]) hid
  committed := by
    show (log.run.hasCommittedLeg || decide (rep.status ≠ .error)) = (log.reports ++ [rep]).any _
    rw [hlog.committed, List.any_append]
    simp
  leaseHeld := hlog.leaseHeld
  emits e he := (hlog.emits e he).mono rep

variable (calls) in
/-- A checkpoint. -/
theorem logged_publishLogged (hdistinct : DistinctSources prepared skipped errored)
    (hlog : Logged prepared skipped errored opts log) (last : Bool) :
    Logged prepared skipped errored opts (publishLogged calls prepared opts last log) := by
  rcases publishLogged_cases calls prepared opts log last with
    ⟨heq, -⟩ | ⟨hdry, hsome, answers, -, hresults, hcommitted, hlease, hreports, hemits, -⟩
  · rw [heq]
    exact hlog
  · refine ⟨?_, ?_, ?_, ?_, ?_⟩
    · rw [hresults, hreports, hlog.results]
    · rw [hreports, hlog.legs]
    · rw [hcommitted, hreports, hlog.committed]
    · rw [hlease]
      exact hlog.leaseHeld
    · rw [hreports, hemits]
      intro e he
      rcases List.mem_append.mp he with he | he
      · exact hlog.emits e he
      · rw [List.mem_singleton.mp he]
        refine ⟨Nat.le_refl _, ?_, hdry, hlog.leaseHeld hdry, fun hne => ?_⟩
        · rw [List.take_length]
          exact truthful_coverageOf hdistinct hlog last
        · rw [List.take_length]
          have hany := hsome.resolve_right hne
          rw [hlog.committed] at hany
          obtain ⟨rep, hrep, hstatus⟩ := List.any_eq_true.mp hany
          exact ⟨rep, hrep, of_decide_eq_true hstatus⟩

variable (calls prepared opts log) in
/-- What a leg leaves: it threw before its report, or its report is in the
log and its checkpoint passed. -/
theorem runLegLogged_cases (p : PreparedSource P) (k : ℕ) :
    (∃ message store, runLegLogged calls prepared opts (p, k) log =
      (.error message, { log with run := { log.run with store } })) ∨
    (∃ r rep store, rep.sourceId.val = p.config.sourceId ∧
      runLegLogged calls prepared opts (p, k) log =
        (r, if k < prepared.length - 1 then
          publishLogged calls prepared opts false (afterReport log store rep)
        else afterReport log store rep)) := by
  unfold runLegLogged
  cases hleg : runSyncLeg opts (calls.leg k) log.run.store p with
  | mk r store =>
    cases r with
    | error message => exact Or.inl ⟨message, store, rfl⟩
    | ok rep =>
      have hid : rep.sourceId.val = p.config.sourceId :=
        sourceId_of_runSyncLeg (congrArg Prod.fst hleg)
      exact Or.inr ⟨_, rep, store, hid, rfl⟩

/-- The emits so far are of checkpoints between two legs. -/
def Midway (prepared : List (PreparedSource P)) (log : RunLog P) : Prop :=
  ∀ e ∈ log.emits, e.last = false ∧ e.finished < prepared.length

theorem midway_publishLogged (hmid : Midway prepared log)
    (hlt : log.reports.length < prepared.length) :
    Midway prepared (publishLogged calls prepared opts false log) := by
  rcases publishLogged_cases calls prepared opts log false with
    ⟨heq, -⟩ | ⟨-, -, answers, -, -, -, -, -, hemits, -⟩
  · rw [heq]
    exact hmid
  · intro e he
    rw [hemits] at he
    rcases List.mem_append.mp he with he | he
    · exact hmid e he
    · rw [List.mem_singleton.mp he]
      exact ⟨rfl, hlt⟩

theorem length_reports_le (hlog : Logged prepared skipped errored opts log) :
    log.reports.length ≤ prepared.length := by
  have hlen := congrArg List.length hlog.legs
  rw [List.length_map, List.length_map, List.length_take] at hlen
  omega

variable (calls) in
/-- **The legs keep the log**, from wherever they start. -/
theorem runLegs_logged (hdistinct : DistinctSources prepared skipped errored)
    {rest : List (PreparedSource P)} (hrest : prepared.drop log.reports.length = rest)
    (hlog : Logged prepared skipped errored opts log) (hmid : Midway prepared log) :
    Logged prepared skipped errored opts
        (runLegs calls prepared opts (rest.zipIdx log.reports.length) log).2 ∧
      Midway prepared (runLegs calls prepared opts (rest.zipIdx log.reports.length) log).2 ∧
      ((runLegs calls prepared opts (rest.zipIdx log.reports.length) log).1 = .ok () →
        (runLegs calls prepared opts (rest.zipIdx log.reports.length) log).2.reports.length =
          prepared.length) := by
  induction rest generalizing log with
  | nil =>
    refine ⟨hlog, hmid, fun _ => ?_⟩
    have hle := length_reports_le hlog
    have hge := List.drop_eq_nil_iff.mp hrest
    exact Nat.le_antisymm hle hge
  | cons p rest ih =>
    have hp : prepared[log.reports.length]? = some p := by
      have hget : (prepared.drop log.reports.length)[0]? = prepared[log.reports.length]? :=
        List.getElem?_drop
      rw [hrest] at hget
      exact hget.symm
    have hnext : prepared.drop (log.reports.length + 1) = rest := by
      rw [← List.drop_drop, hrest]
      rfl
    rw [List.zipIdx_cons, runLegs]
    -- the leg threw before it reported, or its report is added and published
    rcases runLegLogged_cases calls prepared opts log p log.reports.length with ⟨message, store, heq⟩ | ⟨r, rep, store, hid, heq⟩
    · rw [heq]
      exact ⟨logged_store hlog store, hmid, fun h => by cases h⟩
    · rw [heq]
      have hreport : Logged prepared skipped errored opts (afterReport log store rep) :=
        logged_afterReport hlog hp hid
      have hlength : (afterReport log store rep).reports.length = log.reports.length + 1 :=
        List.length_append
      obtain ⟨after, hafter⟩ : ∃ after, after =
          if log.reports.length < prepared.length - 1 then
            publishLogged calls prepared opts false (afterReport log store rep)
          else afterReport log store rep := ⟨_, rfl⟩
      rw [← hafter]
      have hkeeps : Logged prepared skipped errored opts after ∧ Midway prepared after ∧
          after.reports.length = log.reports.length + 1 := by
        rw [hafter]
        by_cases hlt : log.reports.length < prepared.length - 1
        · rw [if_pos hlt]
          refine ⟨logged_publishLogged calls hdistinct hreport false,
            midway_publishLogged hmid ?_, hlength⟩
          rw [hlength]
          omega
        · rw [if_neg hlt]
          exact ⟨hreport, hmid, hlength⟩
      obtain ⟨hlog', hmid', hlen'⟩ := hkeeps
      cases r with
      | error message => exact ⟨hlog', hmid', fun h => by cases h⟩
      | ok u =>
        dsimp only
        rw [← hlen'] at hnext ⊢
        exact ih hnext hlog' hmid'

/-! ## What a run publishes -/

/-- What holds of the emits of a run, of its result and of its lease. -/
structure RunCoverage (calls : RunCalls P) (prepared : List (PreparedSource P))
    (skipped : List String) (errored : List SourceRunResult) (opts : SyncRunOptions)
    (result : Except String SyncRunResult) (log : RunLog P) : Prop where
  emits : ∀ e ∈ log.emits, RightEmit prepared skipped errored opts log.reports e
  early : ∀ e ∈ log.emits, e.last = false → e.finished < prepared.length
  last : ∀ e ∈ log.emits, e.last = true →
    e.finished = prepared.length ∧ log.emits.getLast? = some e ∧ ∃ r, result = .ok r
  unleased : calls.acquireWriterLease ≠ .ok true → log.emits = []
  dryRun : opts.dryRun = true → log.emits = []
  /-- A committed leg is published in the end, or the run says so. -/
  published : ∀ r, result = .ok r → opts.dryRun = false → calls.emit.isSome = true →
    (∃ rep ∈ log.reports, rep.status ≠ .error) →
    r.status = .error ∨ ∃ e ∈ log.emits, e.failed = none ∧
      ∀ i rep, log.reports[i]? = some rep → rep.status ≠ .error → i < e.finished
  released : log.leaseHeld = false

variable (calls prepared opts log) in
theorem leaseHeld_runLegs (legs : List (PreparedSource P × ℕ)) :
    (runLegs calls prepared opts legs log).2.leaseHeld = log.leaseHeld := by
  induction legs generalizing log with
  | nil => rfl
  | cons leg legs ih =>
    obtain ⟨p, k⟩ := leg
    rw [runLegs]
    rcases runLegLogged_cases calls prepared opts log p k with ⟨message, store, heq⟩ | ⟨r, rep, store, -, heq⟩
    · rw [heq]
    · rw [heq]
      have hkeep : (if k < prepared.length - 1 then
          publishLogged calls prepared opts false (afterReport log store rep)
        else afterReport log store rep).leaseHeld = log.leaseHeld := by
        split <;> rfl
      cases r with
      | error message => exact hkeep
      | ok u => exact (ih _).trans hkeep

theorem leaseHeld_runBody : (runBody calls prepared opts log).2.leaseHeld = log.leaseHeld := by
  have hlegs := leaseHeld_runLegs calls prepared opts log prepared.zipIdx
  unfold runBody
  cases hrun : runLegs calls prepared opts prepared.zipIdx log with
  | mk r legs =>
    rw [hrun] at hlegs
    cases r with
    | error message => exact hlegs
    | ok u => exact hlegs

variable (calls) in
/-- **The emits of a run's body**, from an empty log. -/
theorem runBody_coverage (hdistinct : DistinctSources prepared skipped errored)
    (hlog : Logged prepared skipped errored opts log) (hreports : log.reports = [])
    (hemits : log.emits = []) :
    (∀ e ∈ (runBody calls prepared opts log).2.emits,
      RightEmit prepared skipped errored opts (runBody calls prepared opts log).2.reports e) ∧
    (∀ e ∈ (runBody calls prepared opts log).2.emits, e.last = false →
      e.finished < prepared.length) ∧
    (∀ e ∈ (runBody calls prepared opts log).2.emits, e.last = true →
      e.finished = prepared.length ∧ (runBody calls prepared opts log).2.emits.getLast? = some e ∧
        ∃ r, (runBody calls prepared opts log).1 = .ok r) ∧
    (∀ r, (runBody calls prepared opts log).1 = .ok r → opts.dryRun = false →
      calls.emit.isSome = true →
      (∃ rep ∈ (runBody calls prepared opts log).2.reports, rep.status ≠ .error) →
      r.status = .error ∨ ∃ e ∈ (runBody calls prepared opts log).2.emits, e.failed = none ∧
        ∀ i rep, (runBody calls prepared opts log).2.reports[i]? = some rep →
          rep.status ≠ .error → i < e.finished) := by
  have hmid : Midway prepared log := by
    intro e he
    rw [hemits] at he
    cases he
  have hrest : prepared.drop log.reports.length = prepared := by
    rw [hreports]
    rfl
  have hkeeps := runLegs_logged calls hdistinct hrest hlog hmid
  rw [hreports, List.length_nil] at hkeeps
  unfold runBody
  cases hrun : runLegs calls prepared opts prepared.zipIdx log with
  | mk r legs =>
    rw [hrun] at hkeeps
    obtain ⟨hlegs, hmidlegs, hall⟩ := hkeeps
    cases r with
    | error message =>
      -- a leg threw: the run gives no result and emits no last time
      refine ⟨hlegs.emits, fun e he _ => (hmidlegs e he).2, fun e he hlast => ?_, fun r hr => ?_⟩
      · rw [(hmidlegs e he).1] at hlast
        cases hlast
      · cases hr
    | ok u =>
      have hlength : legs.reports.length = prepared.length := hall rfl
      have hfinal := logged_publishLogged calls hdistinct hlegs true
      dsimp only
      -- the last emit is skipped, or made over all the legs
      rcases publishLogged_cases calls prepared opts legs true with
        ⟨heq, hnone⟩ | ⟨-, -, answers, hanswers, -, -, -, hsame, hmade, herror⟩
      · rw [heq]
        refine ⟨hlegs.emits, fun e he _ => (hmidlegs e he).2, fun e he hlast => ?_,
          fun r hr hdry hemit hcommitted => ?_⟩
        · rw [(hmidlegs e he).1] at hlast
          cases hlast
        · exfalso
          rcases hnone with hnone | hnone | hnone
          · rw [hnone] at hemit
            cases hemit
          · rw [hdry] at hnone
            cases hnone
          · obtain ⟨rep, hrep, hstatus⟩ := hcommitted
            rw [hlegs.committed] at hnone
            exact List.any_eq_false.mp hnone rep hrep (decide_eq_true hstatus)
      · refine ⟨hfinal.emits, fun e he hearly => ?_, fun e he hlast => ?_,
          fun r hr hdry hemit hcommitted => ?_⟩
        · rw [hmade] at he
          rcases List.mem_append.mp he with he | he
          · exact (hmidlegs e he).2
          · rw [List.mem_singleton.mp he] at hearly
            cases hearly
        · rw [hmade] at he ⊢
          rcases List.mem_append.mp he with he | he
          · rw [(hmidlegs e he).1] at hlast
            cases hlast
          · rw [List.mem_singleton.mp he]
            exact ⟨hlength, List.getLast?_concat, _, rfl⟩
        · obtain rfl := Except.ok.inj hr
          cases hanswer : answers legs.run.published.length with
          | some message =>
            left
            rw [hanswer] at herror
            simp [runResult, herror]
          | none =>
            right
            rw [hmade, hsame]
            refine ⟨_, List.mem_append_right _ List.mem_cons_self, hanswer, fun i rep hi _ => ?_⟩
            exact (List.getElem?_eq_some_iff.mp hi).1

theorem logged_runStart (store : Store P) (skipped : List String) (errored : List SourceRunResult)
    (held : Bool) (hheld : opts.dryRun = false → held = true) :
    Logged prepared skipped errored opts
      { runStart store skipped errored with leaseHeld := held } where
  results := (List.append_nil _).symm
  legs := rfl
  committed := rfl
  leaseHeld := hheld
  emits e he := by cases he

/-! ## A run in which nothing throws -/

/-- The calls of a run of `executeSyncRun`: the lease answers, nothing
throws. -/
def quietCalls (leaseFree : Bool) (emit : Option EmitOutcomes) : RunCalls P :=
  { acquireWriterLease := .ok leaseFree
    leg := fun _ => { watermark := none, started := none, statements := fun _ => none, finished := none }
    emit }

/-- Without a failing statement a sync is `syncSource`. -/
theorem runSync_quiet (store : Store P) (source : Source P) (prevWatermark : Option String)
    (syncOpts : SyncOptions) {env : RunEnv} (henv : env.txError = none) :
    runSync (fun _ => none) store source prevWatermark syncOpts env =
      (.ok (syncSource store source prevWatermark syncOpts env).2,
        (syncSource store source prevWatermark syncOpts env).1) := by
  have hquiet : ∀ start n, Session.Quiet (fun _ => none : ℕ → Option (Fault (Store P))) start n :=
    fun start n i _ _ => rfl
  have hread : (Session.fetched (fun _ => none) store source prevWatermark syncOpts env).1 =
      fetchWithRefresh store source prevWatermark syncOpts env.startedAt := by
    rcases Session.fetchWithRefresh_run store source prevWatermark syncOpts env.startedAt with
      h | ⟨fault, h, -⟩
    · exact h
    · cases h
  -- a recorded failure commits its bookkeeping
  have hfailed : ∀ msg s, s.db = ⟨store, none⟩ →
      Prod.map id (fun s : SessionState (Store P) SweepCounts => s.db.committed)
          (Session.recordFailedRun (fun _ => none) source syncOpts env msg s) =
        (.ok (recordFailedRun store source syncOpts env msg).2,
          (recordFailedRun store source syncOpts env msg).1) := by
    intro msg s hs
    rw [(Session.autocommits_recordFailedRun store source syncOpts env msg s hs).1 (hquiet _ _)]
    rfl
  unfold runSync
  cases hf : (Session.fetched (fun _ => none) store source prevWatermark syncOpts env).1 with
  | error msg =>
    rw [Session.syncSource_unfetched hf, hfailed msg _ Session.fetched_db]
    unfold syncSource
    rw [← hread, hf]
  | ok result =>
    cases hn : normalizeRecords source result.records with
    | error msg =>
      rw [Session.syncSource_crashed hf hn, hfailed _ _ Session.fetched_db]
      unfold syncSource
      rw [← hread, hf]
      simp only [hn]
    | ok bundles =>
      rcases Bool.eq_false_or_eq_true syncOpts.dryRun with hd | hd
      · rw [Session.syncSource_dry hf hn hd]
        unfold syncSource
        rw [← hread, hf]
        simp only [hn, hd, if_true]
        rw [Prod.map_apply, Session.fetched_db]
        rfl
      · obtain ⟨s, hrun, hdb⟩ := (Session.syncSource_reaches ⟨hf, hn, hd⟩).1 (hquiet _ _)
        rw [hrun]
        unfold syncSource
        rw [← hread, hf]
        simp only [hn, hd, Bool.false_eq_true, if_false, henv]
        rw [Prod.map_apply, hdb]
        unfold Session.fetchedReport Session.runCounts Session.sweepCounts sweptCounts
        cases sweeps syncOpts result <;> simp [henv]

section Quiet

variable {leaseFree : Bool} {emit : Option EmitOutcomes}

theorem runSyncLeg_quiet {p : PreparedSource P} (henv : p.env.txError = none) (store : Store P)
    (k : ℕ) :
    runSyncLeg opts ((quietCalls leaseFree emit : RunCalls P).leg k) store p =
      (.ok (syncLeg opts store p).2, (syncLeg opts store p).1) := by
  have hnone : (if opts.mode = .full then none else none : Option String) = none := by
    split <;> rfl
  unfold runSyncLeg
  dsimp only [quietCalls]
  rw [hnone]
  exact runSync_quiet store p.source _ _ henv

/-- The legs of a run in which nothing throws. -/
theorem runLegs_quiet (legs : List (PreparedSource P)) (k : ℕ)
    (henv : ∀ p ∈ legs, p.env.txError = none) :
    (runLegs (quietCalls leaseFree emit) prepared opts (legs.zipIdx k) log).1 = .ok () ∧
      (runLegs (quietCalls leaseFree emit) prepared opts (legs.zipIdx k) log).2.run =
        (legs.zipIdx k).foldl (runLeg prepared opts emit) log.run := by
  induction legs generalizing k log with
  | nil => exact ⟨rfl, rfl⟩
  | cons p legs ih =>
    have hleg : runSyncLeg opts ((quietCalls leaseFree emit : RunCalls P).leg k) log.run.store p =
        (.ok (syncLeg opts log.run.store p).2, (syncLeg opts log.run.store p).1) :=
      runSyncLeg_quiet (henv p List.mem_cons_self) log.run.store k
    have hstep : ∃ after, runLegLogged (quietCalls leaseFree emit) prepared opts (p, k) log =
        (.ok (), after) ∧ after.run = runLeg prepared opts emit log.run (p, k) := by
      unfold runLegLogged
      rw [hleg]
      refine ⟨_, rfl, ?_⟩
      unfold runLeg
      dsimp only
      split <;> rfl
    obtain ⟨after, hafter, hrun⟩ := hstep
    rw [List.zipIdx_cons, runLegs, hafter, List.foldl_cons, ← hrun]
    exact ih (k + 1) fun q hq => henv q (List.mem_cons_of_mem _ hq)

theorem runBody_quiet (henv : ∀ p ∈ prepared, p.env.txError = none) :
    (runBody (quietCalls leaseFree emit) prepared opts log).1 =
        .ok (runResult (prepared.zipIdx.foldl (runLeg prepared opts emit) log.run)
          (publish prepared opts emit false
            (prepared.zipIdx.foldl (runLeg prepared opts emit) log.run))) ∧
      (runBody (quietCalls leaseFree emit) prepared opts log).2.run =
        publish prepared opts emit false
          (prepared.zipIdx.foldl (runLeg prepared opts emit) log.run) := by
  have hlegs : (runLegs (quietCalls leaseFree emit) prepared opts prepared.zipIdx log).1 = .ok () ∧
      (runLegs (quietCalls leaseFree emit) prepared opts prepared.zipIdx log).2.run =
        prepared.zipIdx.foldl (runLeg prepared opts emit) log.run := runLegs_quiet prepared 0 henv
  unfold runBody
  cases hrun : runLegs (quietCalls leaseFree emit) prepared opts prepared.zipIdx log with
  | mk r legs =>
    rw [hrun] at hlegs
    obtain ⟨hok, hstate⟩ := hlegs
    dsimp only at hok hstate
    subst hok
    rw [← hstate]
    exact ⟨rfl, rfl⟩

/-- **A run in which nothing throws is `executeSyncRun`.** -/
theorem executeRun_quiet (store : Store P) (skipped : List String)
    (errored : List SourceRunResult) (henv : ∀ p ∈ prepared, p.env.txError = none) :
    (executeRun (quietCalls leaseFree emit) prepared opts store skipped errored).1 =
        .ok (executeSyncRun leaseFree store prepared skipped opts emit errored).2 ∧
      (executeRun (quietCalls leaseFree emit) prepared opts store skipped errored).2.run =
        (executeSyncRun leaseFree store prepared skipped opts emit errored).1 := by
  unfold executeRun executeSyncRun
  cases hdry : opts.dryRun with
  | true =>
    rw [if_pos rfl, if_neg (fun h => h.1 rfl)]
    exact runBody_quiet henv
  | false =>
    rw [if_neg Bool.false_ne_true]
    cases leaseFree with
    | false =>
      rw [if_pos ⟨Bool.false_ne_true, Bool.false_ne_true⟩]
      exact ⟨rfl, rfl⟩
    | true =>
      rw [if_neg (fun h => h.2 rfl)]
      exact runBody_quiet henv

end Quiet

/-- **Published coverage is true**, whatever is answered, fails or throws:
each record lists every source once with its status of the moment; nothing
is published in a dry run, without the lease or over failed legs alone; a
committed leg is published in the end or the run returns an error; and the
lease is given back. -/
theorem executeRun_coverage (calls : RunCalls P) (opts : SyncRunOptions) (store : Store P)
    (hdistinct : DistinctSources prepared skipped errored) :
    RunCoverage calls prepared skipped errored opts
      (executeRun calls prepared opts store skipped errored).1
      (executeRun calls prepared opts store skipped errored).2 := by
  have hquiet : ∀ result : Except String SyncRunResult,
      RunCoverage calls prepared skipped errored opts result (runStart store skipped errored) := by
    refine fun result => ⟨fun e he => ?_, fun e he => ?_, fun e he => ?_, fun _ => rfl,
      fun _ => rfl, fun r _ _ _ hcommitted => ?_, rfl⟩
    · cases he
    · cases he
    · cases he
    · obtain ⟨rep, hrep, -⟩ := hcommitted
      cases hrep
  cases hdry : opts.dryRun with
  | true =>
    have hlog : Logged prepared skipped errored opts (runStart store skipped errored) :=
      logged_runStart store skipped errored false fun h => by rw [hdry] at h; cases h
    obtain ⟨hright, hearly, hlast, hpublished⟩ :=
      runBody_coverage calls hdistinct hlog rfl rfl
    have hnone : (runBody calls prepared opts (runStart store skipped errored)).2.emits = [] := by
      refine List.eq_nil_iff_forall_not_mem.mpr fun e he => ?_
      have hwritten := (hright e he).written
      rw [hdry] at hwritten
      cases hwritten
    unfold executeRun
    rw [hdry, if_pos rfl]
    exact ⟨hright, hearly, hlast, fun _ => hnone, fun _ => hnone, hpublished, leaseHeld_runBody⟩
  | false =>
    unfold executeRun
    rw [hdry, if_neg Bool.false_ne_true]
    cases hlease : calls.acquireWriterLease with
    | error message => exact hquiet _
    | ok free =>
      cases free with
      | false => exact hquiet _
      | true =>
        have hlog : Logged prepared skipped errored opts
            { runStart store skipped errored with leaseHeld := true } :=
          logged_runStart store skipped errored true fun _ => rfl
        obtain ⟨hright, hearly, hlast, hpublished⟩ :=
          runBody_coverage calls hdistinct hlog rfl rfl
        refine ⟨hright, hearly, hlast, fun h => absurd hlease h, fun h => ?_, hpublished, rfl⟩
        rw [hdry] at h
        cases h

end

/-! ### A run that only syncs -/

namespace SyncOnly

theorem github_built : (⟨"github:github.com", noBarGithub⟩ : SourceId).val =
    (SharedSource.config "org/app").sourceId := rfl

/-- One source. -/
def prepared : List (PreparedSource Unit) :=
  [SharedSource.leg github_built [] "2026-06-01T08:00:00.000Z"]

/-- A source whose token could not be minted. -/
def errored : List SourceRunResult :=
  [{ skippedResult "github:ghe.example.com" with status := .error, error := some "mint failed" }]

/-- A full run of every source. -/
def opts : SyncRunOptions := { mode := .full, dryRun := false, sourceId := none }

/-- The run whose calls all come off. -/
def run (errored : List SourceRunResult) (emit : Option EmitOutcomes) :
    Except String SyncRunResult × RunLog Unit :=
  executeRun (quietCalls true emit) prepared opts (Store.empty .sqlite) ["gitlab:gitlab.com"] errored

theorem distinct_errored : DistinctSources prepared ["gitlab:gitlab.com"] errored :=
  ⟨by decide, fun r hr => by rw [List.mem_singleton.mp hr]⟩

theorem distinct_skipped : DistinctSources prepared ["gitlab:gitlab.com"] [] :=
  ⟨by decide, fun r hr => by cases hr⟩

end SyncOnly

open SyncOnly in
/-- A run with a committed leg, a skipped source and one in error. -/
theorem executeRun_coverage_errored :
    RunCoverage (quietCalls true (some fun _ => none)) prepared ["gitlab:gitlab.com"] errored opts
      (run errored (some fun _ => none)).1 (run errored (some fun _ => none)).2 :=
  executeRun_coverage (quietCalls true (some fun _ => none)) opts (Store.empty .sqlite)
    distinct_errored

open SyncOnly in
/-- A run that is given nothing to emit commits its leg, publishes nothing
and returns ok. -/
theorem not_published_syncOnly :
    ¬ ∀ (P : Type) (calls : RunCalls P) (prepared : List (PreparedSource P))
      (skipped : List String) (errored : List SourceRunResult) (opts : SyncRunOptions)
      (store : Store P), DistinctSources prepared skipped errored →
      ∀ r, (executeRun calls prepared opts store skipped errored).1 = .ok r →
        opts.dryRun = false →
        (∃ rep ∈ (executeRun calls prepared opts store skipped errored).2.reports,
          rep.status ≠ .error) →
        r.status = .error ∨
          ∃ e ∈ (executeRun calls prepared opts store skipped errored).2.emits, e.failed = none := by
  intro h
  have hreports : (run [] none).2.reports.map (·.status) = [.ok] := by decide +kernel
  have hemits : (run [] none).2.emits.length = 0 := by decide +kernel
  have hstatus : ((run [] none).1.map (·.status)) = .ok .ok := by decide +kernel
  cases hrun : (run [] none).1 with
  | error message =>
    rw [hrun] at hstatus
    cases hstatus
  | ok r =>
    rw [hrun] at hstatus
    have hok : r.status = .ok := Except.ok.inj hstatus
    obtain ⟨rep, hrep, hrepok⟩ : ∃ rep ∈ (run [] none).2.reports, rep.status = .ok := by
      have hmem : RunStatus.ok ∈ (run [] none).2.reports.map (·.status) := by
        rw [hreports]
        exact List.mem_cons_self
      exact List.mem_map.mp hmem
    rcases h Unit _ prepared ["gitlab:gitlab.com"] [] opts (Store.empty .sqlite) distinct_skipped r
      hrun rfl ⟨rep, hrep, by rw [hrepok]; decide⟩ with herror | ⟨e, he, -⟩
    · rw [hok] at herror
      cases herror
    · have hmem : e ∈ (run [] none).2.emits := he
      rw [List.length_eq_zero_iff.mp hemits] at hmem
      cases hmem

end SymphonyBoard
