import SymphonyBoard.Common.Run
import SymphonyBoard.SyncEngine.Runner
/-!
# The run slot of the daemon

`SyncController` of `src/cli/sync-daemon.ts`: starts, manual or scheduled,
the progress reports of the runs and their ends, in any order. A run is
known by its number, which stands for its status object: a report that
comes in after the end still has the object, and the guard is whether that
object is the active one.

What a run reports of `executeSyncRun` follows from the states between its
legs (`progressReports`); a run in which every source failed emits nothing
and reports nothing emitted (`allFailed_not_published`).
-/

namespace SymphonyBoard

/-- Who starts a run. -/
inductive RunTrigger
  | manual
  | scheduled
deriving DecidableEq, Repr

/-- What a run is asked for. -/
structure SyncRequest where
  mode : SyncMode
  dryRun : Bool
  sourceId : Option String

/-- The daemon's status of a run; `RunStatus` in the source. -/
structure ControlRun where
  runId : String
  trigger : RunTrigger
  mode : SyncMode
  dryRun : Bool
  sourceScope : Option String
  status : LegStatus
  startedAt : String
  finishedAt : Option String
  emitted : Bool
  totals : Option SyncRunTotals
  sources : List SourceRunResult
  activeSourceId : Option String
  error : Option String

/-- What a run reports while it is going. -/
structure SyncRunProgress where
  sources : List SourceRunResult
  activeSourceId : Option String
  emitted : Option Bool

/-- The controller, every status it has made, by number, and the runs whose
executor has not come back. -/
structure SyncController where
  active : Option ℕ
  last : Option ℕ
  runs : List ControlRun
  pending : List ℕ

/-- No run yet. -/
def SyncController.initial : SyncController := ⟨none, none, [], []⟩

/-- What comes in: a start with the time it is at, a progress report of a
run, and the end of a run's executor, with a result or an error. -/
inductive ControlEvent
  | start (req : SyncRequest) (trigger : RunTrigger) (now : String)
  | report (run : ℕ) (p : SyncRunProgress)
  | settle (run : ℕ) (outcome : Except String SyncRunResult) (now : String)

/-- A status as a run starts with. -/
def ControlRun.started (runId : String) (req : SyncRequest) (trigger : RunTrigger)
    (now : String) : ControlRun :=
  { runId, trigger, mode := req.mode, dryRun := req.dryRun, sourceScope := req.sourceId
    status := .running, startedAt := now, finishedAt := none, emitted := false, totals := none
    sources := [], activeSourceId := none, error := none }

/-- Live progress onto a status. -/
def ControlRun.progress (p : SyncRunProgress) (run : ControlRun) : ControlRun :=
  { run with
    sources := p.sources
    activeSourceId := p.activeSourceId
    emitted := p.emitted.getD run.emitted }

/-- The end of a run: what its executor came back with, then the `finally`
block. -/
def ControlRun.finish (outcome : Except String SyncRunResult) (now : String) (run : ControlRun) :
    ControlRun :=
  let run :=
    match outcome with
    | .ok result =>
      { run with
        status := result.status, totals := some result.totals, sources := result.sources
        emitted := result.emitted, error := result.error }
    | .error message => { run with status := .error, error := some message }
  { run with activeSourceId := none, finishedAt := some now }

/-- The run an event is about; a start is about none that is there yet. -/
def ControlEvent.run? : ControlEvent → Option ℕ
  | .start _ _ _ => none
  | .report run _ => some run
  | .settle run _ _ => some run

namespace SyncController

section

variable (makeRunId : ℕ → String → String)

/-- One event. A start finds the slot taken or takes it; a report is dropped
unless its run is the active one; an executor comes back once. -/
def step (c : SyncController) : ControlEvent → SyncController
  | .start req trigger now =>
    match c.active with
    | some _ => c
    | none =>
      let run := c.runs.length
      { c with
        active := some run
        runs := c.runs ++ [.started (makeRunId (run + 1) now) req trigger now]
        pending := run :: c.pending }
  | .report run p =>
    if c.active = some run then { c with runs := c.runs.modify run (.progress p) } else c
  | .settle run outcome now =>
    if run ∈ c.pending then
      { active := none
        last := some run
        runs := c.runs.modify run (.finish outcome now)
        pending := c.pending.erase run }
    else c

/-- What `start` answers: accepted or not, and the run that has the slot. -/
def startOutcome (c : SyncController) : Bool × ℕ :=
  match c.active with
  | some run => (false, run)
  | none => (true, c.runs.length)

/-- The runs that have not ended are those whose executor is out, and at
most one: the one that has the slot. -/
structure OneSlot (c : SyncController) : Prop where
  pending : c.pending = c.active.toList
  known : ∀ run ∈ c.active, run < c.runs.length
  unfinished : ∀ run (h : run < c.runs.length),
    (c.runs[run]).finishedAt = none ↔ c.active = some run

variable {makeRunId : ℕ → String → String} {c : SyncController}

theorem oneSlot_initial : OneSlot initial := by
  refine ⟨rfl, fun run h => ?_, fun run h => absurd h (Nat.not_lt_zero run)⟩
  cases h

theorem oneSlot_step (c : SyncController) (e : ControlEvent) (h : OneSlot c) :
    OneSlot (step makeRunId c e) := by
  cases e with
  | start req trigger now =>
    rw [step]
    cases hactive : c.active with
    | some run => exact h
    | none =>
      have hpending : c.pending = [] := by
        rw [h.pending, hactive]
        rfl
      refine ⟨by simp [hpending], fun run hrun => ?_, fun run hrun => ?_⟩
      · obtain rfl : c.runs.length = run := Option.some.inj hrun
        simp
      · simp only [List.length_append, List.length_singleton] at hrun
        rcases Nat.lt_or_ge run c.runs.length with hlt | hge
        · -- no run is unfinished, and the new one has another number
          have hold := h.unfinished run hlt
          rw [hactive] at hold
          simp only [List.getElem_append_left hlt, hold, Option.some.injEq]
          exact iff_of_false (by simp) (by omega)
        · obtain rfl : run = c.runs.length := by omega
          simp [ControlRun.started]
  | report run p =>
    rw [step]
    split
    · refine ⟨h.pending, fun run' hrun' => ?_, fun run' hrun' => ?_⟩
      · rw [List.length_modify]
        exact h.known run' hrun'
      · simp only [List.length_modify] at hrun'
        rw [← h.unfinished run' hrun', List.getElem_modify]
        split
        · simp [ControlRun.progress]
        · rfl
    · exact h
  | settle run outcome now =>
    rw [step]
    split
    · rename_i hmem
      have hactive : c.active = some run := by
        rw [h.pending] at hmem
        exact Option.mem_toList.mp hmem
      refine ⟨?_, fun run' hrun' => ?_, fun run' hrun' => ?_⟩
      · rw [h.pending, hactive]
        simp
      · cases hrun'
      · simp only [List.length_modify] at hrun'
        rw [List.getElem_modify]
        refine iff_of_false ?_ (by simp)
        split
        · simp [ControlRun.finish]
        · rename_i hne
          rw [h.unfinished run' hrun', hactive, Option.some.injEq]
          exact hne
    · exact h

/-! ## What an event changes -/

/-- **An event changes no run but its own.** -/
theorem runs_step_of_ne {e : ControlEvent} {run : ℕ} (h : run < c.runs.length)
    (hne : e.run? ≠ some run) : (step makeRunId c e).runs[run]? = c.runs[run]? := by
  cases e with
  | start req trigger now =>
    rw [step]
    cases c.active with
    | some _ => rfl
    | none => exact List.getElem?_append_left h
  | report run' p =>
    have hother : run' ≠ run := fun heq => hne (congrArg some heq)
    rw [step]
    split
    · exact List.getElem?_modify_ne _ _ hother
    · rfl
  | settle run' outcome now =>
    have hother : run' ≠ run := fun heq => hne (congrArg some heq)
    rw [step]
    split
    · exact List.getElem?_modify_ne _ _ hother
    · rfl

/-- **A finished run stays as it is**, whatever comes in of it. -/
theorem finished_step {e : ControlEvent} {run : ℕ} {r : ControlRun} (hc : OneSlot c)
    (h : c.runs[run]? = some r) (hfinished : r.finishedAt ≠ none) :
    (step makeRunId c e).runs[run]? = some r := by
  obtain ⟨hlt, hr⟩ := List.getElem?_eq_some_iff.mp h
  have hidle : c.active ≠ some run := fun hactive =>
    hfinished (hr ▸ (hc.unfinished run hlt).mpr hactive)
  by_cases hne : e.run? = some run
  · cases e with
    | start req trigger now => cases hne
    | report run' p =>
      obtain rfl : run' = run := Option.some.inj hne
      rw [step, if_neg hidle]
      exact h
    | settle run' outcome now =>
      obtain rfl : run' = run := Option.some.inj hne
      have hback : run' ∉ c.pending := by
        rw [hc.pending, Option.mem_toList]
        exact hidle
      rw [step, if_neg hback]
      exact h
  · rw [runs_step_of_ne hlt hne]
    exact h

/-- A start leaves the slot with the run that its answer names, and makes
one only when it is accepted. -/
theorem start_step (c : SyncController) (req : SyncRequest) (trigger : RunTrigger) (now : String) :
    (step makeRunId c (.start req trigger now)).active = some (startOutcome c).2 ∧
      (step makeRunId c (.start req trigger now)).runs.length =
        c.runs.length + if (startOutcome c).1 then 1 else 0 := by
  rw [step, startOutcome]
  cases hactive : c.active with
  | some run => simp [hactive]
  | none => simp

/-- A finished run stays as it is over any further events. -/
theorem finished_foldl (events : List ControlEvent) {run : ℕ} {r : ControlRun} (hc : OneSlot c)
    (h : c.runs[run]? = some r) (hfinished : r.finishedAt ≠ none) :
    (events.foldl (step makeRunId) c).runs[run]? = some r := by
  induction events generalizing c with
  | nil => exact h
  | cons e events ih =>
    exact ih (oneSlot_step c e hc) (finished_step hc h hfinished)

/-! ## What a run's status says of its emits -/

/-- What comes in says of this run that it emitted nothing. -/
def SaysNoEmit (run : ℕ) : ControlEvent → Prop
  | .report run' p => run' = run → p.emitted ≠ some true
  | .settle run' (.ok result) _ => run' = run → result.emitted = false
  | _ => True

theorem emitted_step {e : ControlEvent} {run : ℕ} (he : SaysNoEmit run e)
    (h : ∀ r ∈ c.runs[run]?, r.emitted = false) :
    ∀ r ∈ (step makeRunId c e).runs[run]?, r.emitted = false := by
  rcases Nat.lt_or_ge run c.runs.length with hlt | hge
  · by_cases hne : e.run? = some run
    · have hold : (c.runs[run]).emitted = false := h _ (List.getElem?_eq_getElem hlt)
      -- only a report of the run or its settling can change it
      cases e with
      | start req trigger now => cases hne
      | report run' p =>
        obtain rfl : run' = run := Option.some.inj hne
        have hp : p.emitted ≠ some true := he rfl
        rw [step]
        split
        · intro r hr
          rw [List.getElem?_modify_eq, List.getElem?_eq_getElem hlt] at hr
          obtain rfl := Option.some.inj hr
          show p.emitted.getD _ = false
          match hemitted : p.emitted, hp with
          | none, _ => exact hold
          | some false, _ => rfl
          | some true, hp => exact absurd rfl hp
        · exact h
      | settle run' outcome now =>
        obtain rfl : run' = run := Option.some.inj hne
        rw [step]
        split
        · intro r hr
          rw [List.getElem?_modify_eq, List.getElem?_eq_getElem hlt] at hr
          obtain rfl := Option.some.inj hr
          match outcome, he with
          | .ok result, he => exact he rfl
          | .error message, _ => exact hold
        · exact h
    · rw [runs_step_of_ne hlt hne]
      exact h
  · -- the run is not there yet, and a new one starts with nothing emitted
    have hgone (f : ControlRun → ControlRun) (run' : ℕ) : (c.runs.modify run' f)[run]? = none :=
      List.getElem?_eq_none (by rwa [List.length_modify])
    cases e with
    | start req trigger now =>
      rw [step]
      cases c.active with
      | some _ => exact h
      | none =>
        intro r hr
        obtain rfl : r = ControlRun.started (makeRunId (c.runs.length + 1) now) req trigger now := by
          rw [Option.mem_def, List.getElem?_append_right hge] at hr
          exact (List.mem_singleton.mp (List.mem_of_getElem? hr))
        rfl
    | report run' p =>
      rw [step]
      split
      · simp only [hgone, Option.mem_def, reduceCtorEq, false_imp_iff, implies_true]
      · exact h
    | settle run' outcome now =>
      rw [step]
      split
      · simp only [hgone, Option.mem_def, reduceCtorEq, false_imp_iff, implies_true]
      · exact h

end

end SyncController

/-! ## What a run reports -/

section Reports

variable {P : Type} (prepared : List (PreparedSource P)) (opts : SyncRunOptions)
  (emit : Option EmitOutcomes)

/-- A run before its first leg. -/
def RunState.start (store : Store P) (skipped : List String) (errored : List SourceRunResult) :
    RunState P :=
  { store, results := skipped.map skippedResult ++ errored, emitted := false,
    emitError := none, hasCommittedLeg := false, published := [] }

/-- The reports of the legs from here on: the source in flight before each,
none after. -/
def legReports : List (PreparedSource P × ℕ) → RunState P → List SyncRunProgress
  | [], _ => []
  | leg :: legs, st =>
    let next := runLeg prepared opts emit st leg
    ⟨st.results, some leg.1.config.sourceId, some st.emitted⟩ ::
      ⟨next.results, none, some next.emitted⟩ :: legReports legs next

/-- What `executeSyncRun` hands to `onProgress`. -/
def progressReports (leaseFree : Bool) (store : Store P) (skipped : List String)
    (errored : List SourceRunResult) : List SyncRunProgress :=
  if ¬opts.dryRun ∧ ¬leaseFree then []
  else legReports prepared opts emit prepared.zipIdx (.start store skipped errored)

/-- Every source failed: one did, and those that did not were skipped. -/
def AllFailed (sources : List SourceRunResult) : Prop :=
  (∃ s ∈ sources, s.status = .error) ∧ ∀ s ∈ sources, s.status = .error ∨ s.status = .skipped

/-- Some leg has data: a result that is neither an error nor skipped stands
for a committed leg, and without one nothing was emitted. -/
structure Accounted (st : RunState P) : Prop where
  leg : st.hasCommittedLeg = true →
    ∃ s ∈ st.results, s.status ≠ .error ∧ s.status ≠ .skipped
  quiet : st.hasCommittedLeg = false → st.emitted = false ∧ st.published = []

variable {prepared opts emit}

theorem accounted_start (store : Store P) (skipped : List String)
    (errored : List SourceRunResult) : Accounted (.start store skipped errored) :=
  ⟨fun h => Bool.noConfusion h, fun _ => ⟨rfl, rfl⟩⟩

/-- A checkpoint emits nothing before a leg has data, when the run has legs
or an error. -/
theorem publish_of_quiet {running : Bool} {st : RunState P} (h : st.hasCommittedLeg = false)
    (hlegs : prepared ≠ [] ∨ overallStatus st.results = .error) :
    publish prepared opts emit running st = st := by
  unfold publish
  split
  · rfl
  · rw [if_pos (.inr ⟨by simp [h], hlegs⟩)]

theorem publish_results (running : Bool) (st : RunState P) :
    (publish prepared opts emit running st).results = st.results ∧
      (publish prepared opts emit running st).hasCommittedLeg = st.hasCommittedLeg := by
  unfold publish
  split
  · exact ⟨rfl, rfl⟩
  · split
    · exact ⟨rfl, rfl⟩
    · simp only
      split <;> exact ⟨rfl, rfl⟩

/-- A leg adds its result, and counts as committed unless it is an error. -/
theorem runLeg_results (st : RunState P) (leg : PreparedSource P × ℕ) :
    (runLeg prepared opts emit st leg).results =
        st.results ++ [resultOfReport (syncLeg opts st.store leg.1).2] ∧
      (runLeg prepared opts emit st leg).hasCommittedLeg =
        (st.hasCommittedLeg || (syncLeg opts st.store leg.1).2.status ≠ .error) := by
  unfold runLeg
  simp only
  split
  · exact publish_results _ _
  · exact ⟨rfl, rfl⟩

theorem ofRun_ne (s : RunStatus) (h : s ≠ .error) :
    LegStatus.ofRun s ≠ .error ∧ LegStatus.ofRun s ≠ .skipped := by
  cases s <;> simp_all [LegStatus.ofRun]

theorem accounted_runLeg (hlegs : prepared ≠ []) {st : RunState P} (h : Accounted st)
    (leg : PreparedSource P × ℕ) : Accounted (runLeg prepared opts emit st leg) := by
  obtain ⟨hresults, hcommitted⟩ := @runLeg_results P prepared opts emit st leg
  refine ⟨fun hleg => ?_, fun hleg => ?_⟩
  · rw [hcommitted, Bool.or_eq_true, decide_eq_true_eq] at hleg
    rw [hresults]
    rcases hleg with hbefore | hnow
    · obtain ⟨s, hs, hstatus⟩ := h.leg hbefore
      exact ⟨s, List.mem_append_left _ hs, hstatus⟩
    · exact ⟨_, List.mem_append_right _ (List.mem_singleton.mpr rfl), ofRun_ne _ hnow⟩
  · have hquiet : st.hasCommittedLeg = false := by
      rw [hcommitted, Bool.or_eq_false_iff] at hleg
      exact hleg.1
    rw [hcommitted] at hleg
    obtain ⟨hemitted, hpublished⟩ := h.quiet hquiet
    unfold runLeg
    simp only
    split
    · rw [publish_of_quiet hleg (.inl hlegs)]
      exact ⟨hemitted, hpublished⟩
    · exact ⟨hemitted, hpublished⟩

/-- The results of a run only grow. -/
theorem results_grow (legs : List (PreparedSource P × ℕ)) (st : RunState P) :
    st.results <+: (legs.foldl (runLeg prepared opts emit) st).results := by
  induction legs generalizing st with
  | nil => exact List.prefix_rfl
  | cons leg legs ih =>
    refine List.IsPrefix.trans ?_ (ih _)
    rw [(runLeg_results st leg).1]
    exact List.prefix_append _ _

/-- Where every source fails in the end, no leg on the way is committed. -/
theorem quiet_of_allFailed {legs : List (PreparedSource P × ℕ)} {st : RunState P}
    (hst : Accounted st)
    (h : AllFailed (legs.foldl (runLeg prepared opts emit) st).results) :
    st.hasCommittedLeg = false := by
  by_contra hcommitted
  obtain ⟨s, hs, herror, hskipped⟩ := hst.leg (Bool.of_not_eq_false hcommitted)
  have hfinal := h.2 s ((results_grow legs st).subset hs)
  exact hfinal.elim herror hskipped

theorem legReports_quiet (hlegs : prepared ≠ []) (legs : List (PreparedSource P × ℕ))
    {st : RunState P} (hst : Accounted st)
    (h : AllFailed (legs.foldl (runLeg prepared opts emit) st).results) :
    (∀ p ∈ legReports prepared opts emit legs st, p.emitted = some false) ∧
      Accounted (legs.foldl (runLeg prepared opts emit) st) := by
  induction legs generalizing st with
  | nil => exact ⟨fun p hp => absurd hp List.not_mem_nil, hst⟩
  | cons leg legs ih =>
    have hnext : Accounted (runLeg prepared opts emit st leg) := accounted_runLeg hlegs hst leg
    obtain ⟨hrest, hend⟩ := ih hnext h
    refine ⟨fun p hp => ?_, hend⟩
    rcases List.mem_cons.mp hp with rfl | hp
    · exact congrArg some (hst.quiet (quiet_of_allFailed hst h)).1
    · rcases List.mem_cons.mp hp with rfl | hp
      · exact congrArg some (hnext.quiet (quiet_of_allFailed hnext h)).1
      · exact hrest p hp

theorem overallStatus_of_allFailed {sources : List SourceRunResult} (h : AllFailed sources) :
    overallStatus sources = .error := by
  have hany : (sources.any fun s => s.status = .error) = true := by
    obtain ⟨s, hs, herror⟩ := h.1
    exact List.any_eq_true.mpr ⟨s, hs, decide_eq_true herror⟩
  rw [overallStatus, if_pos hany]

/-- A run that goes ahead: its legs, then the last checkpoint. -/
theorem executeSyncRun_of_lease {leaseFree : Bool} (store : Store P) (skipped : List String)
    (errored : List SourceRunResult) (h : ¬(¬opts.dryRun ∧ ¬leaseFree)) :
    let final := publish prepared opts emit false
      (prepared.zipIdx.foldl (runLeg prepared opts emit) (.start store skipped errored))
    (executeSyncRun leaseFree store prepared skipped opts emit errored).1 = final ∧
      (executeSyncRun leaseFree store prepared skipped opts emit errored).2.sources =
        final.results ∧
      (executeSyncRun leaseFree store prepared skipped opts emit errored).2.emitted =
        final.emitted := by
  rw [executeSyncRun, if_neg h]
  exact ⟨rfl, rfl, rfl⟩

/-- **A run in which every source failed emits nothing**, and says so in each
of its reports and in its result. -/
theorem allFailed_not_published {leaseFree : Bool} {store : Store P} {skipped : List String}
    {errored : List SourceRunResult}
    (h : AllFailed (executeSyncRun leaseFree store prepared skipped opts emit errored).2.sources) :
    (executeSyncRun leaseFree store prepared skipped opts emit errored).1.published = [] ∧
      (executeSyncRun leaseFree store prepared skipped opts emit errored).2.emitted = false ∧
      ∀ p ∈ progressReports prepared opts emit leaseFree store skipped errored,
        p.emitted = some false := by
  by_cases hlease : ¬opts.dryRun ∧ ¬leaseFree
  · rw [progressReports, executeSyncRun, if_pos hlease, if_pos hlease]
    exact ⟨rfl, rfl, fun p hp => absurd hp List.not_mem_nil⟩
  · obtain ⟨hfinal, hsources, hemitted⟩ :=
      @executeSyncRun_of_lease P prepared opts emit leaseFree store skipped errored hlease
    rw [hsources, (publish_results _ _).1] at h
    have hstart := accounted_start (P := P) store skipped errored
    have hquiet := quiet_of_allFailed hstart h
    rw [hfinal, hemitted, progressReports, if_neg hlease]
    by_cases hlegs : prepared = []
    · subst hlegs
      rw [List.zipIdx_nil, List.foldl_nil] at h ⊢
      rw [publish_of_quiet hquiet (.inr (overallStatus_of_allFailed h))]
      exact ⟨rfl, rfl, fun p hp => absurd hp List.not_mem_nil⟩
    · obtain ⟨hreports, hend⟩ := legReports_quiet hlegs _ hstart h
      have hidle := @quiet_of_allFailed P prepared opts emit [] _ hend h
      rw [publish_of_quiet hidle (.inl hlegs)]
      exact ⟨(hend.quiet hidle).2, (hend.quiet hidle).1, hreports⟩

end Reports

/-- Of this run comes in only what its executor makes of it: reports from
among these, and an end with this result or with an error. -/
def ComesFrom (run : ℕ) (reports : List SyncRunProgress) (result : SyncRunResult) :
    ControlEvent → Prop
  | .start _ _ _ => True
  | .report run' p => run' = run → p ∈ reports
  | .settle run' outcome _ => run' = run → ∀ r, outcome = .ok r → r = result

theorem SyncController.saysNoEmit_of_comesFrom {run : ℕ} {reports : List SyncRunProgress}
    {result : SyncRunResult} (hreports : ∀ p ∈ reports, p.emitted = some false)
    (hresult : result.emitted = false) {e : ControlEvent} (he : ComesFrom run reports result e) :
    SaysNoEmit run e := by
  match e, he with
  | .start _ _ _, _ => trivial
  | .report run' p, he =>
    intro hrun
    rw [hreports p (he hrun)]
    exact fun h => Bool.noConfusion (Option.some.inj h)
  | .settle run' (.ok r) now, he =>
    intro hrun
    rw [he hrun r rfl]
    exact hresult
  | .settle run' (.error message) now, _ => trivial

/-- **One run at a time, and a finished run is final.** Whatever order
starts, reports and ends come in: at most one run is unfinished, and it has
the slot; a finished run never changes again; an event changes no run but
its own; and a run in which every source failed publishes nothing, and its
status never says it did. -/
theorem SyncController.exclusive_final (makeRunId : ℕ → String → String)
    (events : List ControlEvent) :
    Always (step makeRunId) OneSlot initial events ∧
    (∀ before after, events = before ++ after →
      ∀ (run : ℕ) (r : ControlRun), (before.foldl (step makeRunId) initial).runs[run]? = some r →
        r.finishedAt ≠ none → (events.foldl (step makeRunId) initial).runs[run]? = some r) ∧
    (∀ before e after, events = before ++ e :: after →
      ∀ run < (before.foldl (step makeRunId) initial).runs.length, e.run? ≠ some run →
        (step makeRunId (before.foldl (step makeRunId) initial) e).runs[run]? =
          (before.foldl (step makeRunId) initial).runs[run]?) ∧
    ∀ {P : Type} (prepared : List (PreparedSource P)) (opts : SyncRunOptions)
      (emit : Option EmitOutcomes) (leaseFree : Bool) (store : Store P) (skipped : List String)
      (errored : List SourceRunResult),
      let (final, result) := executeSyncRun leaseFree store prepared skipped opts emit errored
      let reports := progressReports prepared opts emit leaseFree store skipped errored
      AllFailed result.sources → final.published = [] ∧
        ∀ run, (∀ e ∈ events, ComesFrom run reports result e) →
          Always (step makeRunId) (fun c => ∀ r ∈ c.runs[run]?, r.emitted = false)
            initial events := by
  refine ⟨always_of_step oneSlot_step events oneSlot_initial, ?_, ?_, ?_⟩
  · rintro before after rfl run r hr hfinished
    have hslot : OneSlot (before.foldl (step makeRunId) initial) :=
      (always_of_step oneSlot_step before oneSlot_initial).last
    rw [List.foldl_append]
    exact finished_foldl after hslot hr hfinished
  · intro before e after _ run hrun hne
    exact runs_step_of_ne hrun hne
  · intro P prepared opts emit leaseFree store skipped errored hfailed
    obtain ⟨hpublished, hresult, hreports⟩ := allFailed_not_published hfailed
    refine ⟨hpublished, fun run hevents => ?_⟩
    have hsteps : EachStep (step makeRunId) (fun _ e => SaysNoEmit run e) initial events :=
      eachStep_of_forall fun e he => saysNoEmit_of_comesFrom hreports hresult (hevents e he)
    refine always_of_eachStep (fun c e hc he => emitted_step he hc) ?_ hsteps
    intro r hr
    cases hr

/-! ### A run in which both providers are down -/

namespace BothDown

/-- A source whose fetch fails. -/
def failing (sourceId : SourceId) (kind host : String) : Source Unit :=
  { descriptor := { sourceId, kind, host, displayName := none }
    normalizerVersion := "1"
    fetch := fun _ => .error "HTTP 502"
    fetchRefresh := none
    normalize := fun _ => .ok none }

theorem failing_own (sourceId : SourceId) (kind host : String) :
    OwnRows (failing sourceId kind host) where
  item r b i hb := by cases hb
  edge r b e hb := by cases hb
  reviewThread r b t hb := by cases hb

/-- A leg of a failing source. -/
def leg (sourceId : SourceId) (kind host : String) : PreparedSource Unit :=
  { config :=
      { sourceId := sourceId.val, kind, host, enabled := none
        pool := { tokenEnv := some "TOKEN", fallbackTokenEnvs := none, githubApp := none }
        tokenPools := none, authPools := none, authPolicy := none, restUrl := none, projects := [] }
    source := failing sourceId kind host
    env :=
      { startedAt := "2026-06-01T08:00:00.000Z", sweepAt := "2026-06-01T08:00:01.000Z"
        finishedAt := "2026-06-01T08:00:02.000Z", txError := none }
    built := rfl
    own := failing_own sourceId kind host }

/-- A leg for each provider. -/
def prepared : List (PreparedSource Unit) :=
  [leg ⟨"github:github.com", noBarGithub⟩ "github" "github.com",
    leg ⟨"gitlab:gitlab.com", noBarGitlab⟩ "gitlab" "gitlab.com"]

/-- An incremental run that writes. -/
def opts : SyncRunOptions := { mode := .incremental, dryRun := false, sourceId := none }

/-- Every emit succeeds. -/
def emit : Option EmitOutcomes := some fun _ => none

/-- The run, with a third source that is skipped. -/
def executed : RunState Unit × SyncRunResult :=
  executeSyncRun true (Store.empty .sqlite) prepared ["gitlab:git.example.com"] opts emit []

/-- What the run reports. -/
def reports : List SyncRunProgress :=
  progressReports prepared opts emit true (Store.empty .sqlite) ["gitlab:git.example.com"] []

/-- The request of both starts. -/
def req : SyncRequest := { mode := .incremental, dryRun := false, sourceId := none }

/-- The run is started by hand; the scheduler finds the slot taken; and its
reports come in once more after its end, when the next run has the slot. -/
def events : List ControlEvent :=
  [.start req .manual "2026-06-01T08:00:00.000Z",
      .start req .scheduled "2026-06-01T08:00:01.000Z"] ++
    reports.map (.report 0) ++
    [.settle 0 (.ok executed.2) "2026-06-01T08:00:05.000Z",
      .start req .scheduled "2026-06-01T08:10:00.000Z"] ++
    reports.map (.report 0)

/-- A run's id, from its number and its time. -/
def makeRunId (n : ℕ) (now : String) : String := now ++ "-" ++ toString n

theorem allFailed_executed : AllFailed executed.2.sources := by
  unfold AllFailed
  decide +kernel

theorem events_comeFrom : ∀ e ∈ events, ComesFrom 0 reports executed.2 e := by
  intro e he
  simp only [events, List.mem_append, List.mem_cons, List.mem_map, List.not_mem_nil,
    or_false] at he
  rcases he with (((rfl | rfl) | ⟨p, hp, rfl⟩) | (rfl | rfl)) | ⟨p, hp, rfl⟩
  · trivial
  · trivial
  · exact fun _ => hp
  · exact fun _ r hr => (Except.ok.inj hr).symm
  · trivial
  · exact fun _ => hp

end BothDown

open BothDown SyncController in
/-- **The same for one run in which both providers are down.** It reports
four times and ends in error, and nothing is published. -/
theorem SyncController.exclusive_final_bothDown :
    executed.1.published = [] ∧
      Always (step makeRunId) (fun c => ∀ r ∈ c.runs[0]?, r.emitted = false) initial events ∧
      (events.foldl (step makeRunId) initial).runs.map (fun r => (r.status, r.emitted)) =
        [(.error, false), (.running, false)] ∧
      reports.length = 4 := by
  obtain ⟨hpublished, hquiet⟩ := (exclusive_final makeRunId events).2.2.2 prepared opts emit true
    (Store.empty .sqlite) ["gitlab:git.example.com"] [] allFailed_executed
  exact ⟨hpublished, hquiet 0 events_comeFrom, by decide +kernel, by decide +kernel⟩

end SymphonyBoard
