import SymphonyBoard.Common.WorkerPool
import SymphonyBoard.Db.ActivityRange
/-!
# Reading the files of commits

`fetchCommitFileRecords` and `normalizeCommitFiles` of
`src/sources/commit-files.ts`. The workers of `mapWithConcurrency` share
the reason to stop, the number of commits the provider answered and the
commits set aside; a schedule says in which order the reads come back.

`fetchCommitFileRecords_spec` is what every schedule makes of every list of
candidates: whose record is returned, and when a failure is one of them.
What a provider read returns is a parameter; of it the sync keeps the
files, whether the list was cut off and whether the commit is a merge.
-/

namespace SymphonyBoard

/-! ## The reads -/

/-- A commit to read the files of. -/
structure CommitFilesCandidate where
  externalId : String
  projectPath : String
  sha : String
deriving DecidableEq, Inhabited

/-- The files of a commit, as the provider gives them. -/
structure CommitFilesRead where
  files : List CanonicalCommitFile
  truncated : Bool
  merge : Option Bool

/-- What a failed request throws. -/
structure ReadFailure where
  status : Option ℕ
  rateLimit : Bool
  message : String

/-- A read without a request is `none`: the path names no repository. -/
abbrev CommitFilesOutcome := Except ReadFailure (Option CommitFilesRead)

/-- A full plain-hex oid, SHA-1 or SHA-256. -/
def fullCommitSha (sha : String) : Bool :=
  (sha.toList.length = 40 || sha.toList.length = 64) && sha.toList.all isHexDigit

/-- The statuses of a commit that is not there. -/
def goneStatuses : List ℕ := [404, 410, 422]

/-- The provider says the commit is not there to read. -/
def ReadFailure.gone (e : ReadFailure) : Bool := e.status.any fun status => goneStatuses.contains status

/-- A failure that is about the token, not about the commit asked for. -/
def ReadFailure.sourceWide (e : ReadFailure) : Bool :=
  e.status = some 401 || e.status = some 429 || e.rateLimit

/-- `UNANSWERED_FAILURE_LIMIT` -/
def unansweredFailureLimit : ℕ := 8

/-! ## The records -/

/-- The payload of a record. -/
structure StoredCommitFiles where
  activity : String
  project : String
  sha : String
  state : CommitFilesState
  truncated : Bool
  files : List CanonicalCommitFile

/-- The record of a commit's files. -/
abbrev CommitFilesRecord := RawRecord StoredCommitFiles

/-- `commitFilesRecord`: the record of a candidate. -/
def commitFilesRecord (candidate : CommitFilesCandidate) (apiVersion now : String)
    (state : CommitFilesState) (read : Option CommitFilesRead) : CommitFilesRecord :=
  { entityKind := .commitFiles
    externalId := "commit_files:" ++ candidate.externalId
    apiVersion := some apiVersion
    fetchedAt := now
    payload :=
      { activity := candidate.externalId
        project := candidate.projectPath
        sha := candidate.sha
        state
        truncated := state = .ok && read.any (·.truncated)
        files := if state = .ok then (read.map (·.files)).getD [] else [] } }

/-- Null for a record that names no commit activity or has no sha. -/
def normalizeCommitFiles (sourceId : SourceId) (raw : CommitFilesRecord) :
    Option CanonicalCommitFiles :=
  let p := raw.payload
  let sha := trim p.sha
  if p.activity = "" ∨ sha = "" then none
  else
    some
      { sourceId
        externalId := p.activity
        projectPath := nonEmpty (some p.project)
        sha
        state := p.state
        truncated := p.state = .ok && p.truncated
        files := if p.state = .ok then p.files.filter fun file => file.path ≠ "" else [] }

/-! ## The pass over the candidates -/

/-- A read that failed, by its candidate. -/
structure FailedRead where
  index : ℕ
  message : String

/-- What the workers share. -/
structure FetchState where
  stopped : Option String
  answered : ℕ
  failed : List FailedRead

/-- A pass over candidates, with what each read comes to. -/
structure CommitFilesFetch where
  candidates : List CommitFilesCandidate
  allowed : String → Bool
  /-- What the read of the candidate at a position comes to. -/
  read : ℕ → CommitFilesOutcome
  apiVersion : String
  concurrency : ℤ
  now : String

/-- What a pass returns: its records, and why it stopped. -/
structure CommitFilesFetchResult where
  records : List CommitFilesRecord
  stopped : Option String

/-- How many workers `mapWithConcurrency` starts. -/
def mapWorkers (limit : ℤ) (items : ℕ) : ℕ := max 1 (min limit items).toNat

namespace CommitFilesFetch

variable (opts : CommitFilesFetch)

/-- The candidate at a place. -/
def candidate (i : ℕ) : CommitFilesCandidate := opts.candidates.getD i default

/-- The record of a candidate without files. -/
def unavailable (i : ℕ) : CommitFilesRecord :=
  commitFilesRecord (opts.candidate i) opts.apiVersion opts.now .unavailable none

/-- A commit of another project, or one without a full oid, is not asked for. -/
def withheld (i : ℕ) : Bool :=
  !opts.allowed (opts.candidate i).projectPath || !fullCommitSha (opts.candidate i).sha

/-- Before its request, a candidate is withheld, or skipped by a stopped pass. -/
def onTake (i : ℕ) (s : FetchState) : Option (FetchState × Option CommitFilesRecord) :=
  if opts.withheld i then some (s, some (opts.unavailable i))
  else if s.stopped.isSome then some (s, none)
  else none

/-- What a read comes to, once it comes back. -/
def onSettle (i : ℕ) (s : FetchState) : FetchState × Option CommitFilesRecord :=
  match opts.read i with
  | .ok none => (s, some (opts.unavailable i))
  | .ok (some read) =>
    ({ s with answered := s.answered + 1 },
      some (commitFilesRecord (opts.candidate i) opts.apiVersion opts.now
        (if read.merge = some true then .merge else .ok) (some read)))
  | .error e =>
    if e.gone then ({ s with answered := s.answered + 1 }, some (opts.unavailable i))
    else if e.sourceWide then ({ s with stopped := s.stopped.or (some e.message) }, none)
    else
      let failed := s.failed ++ [⟨i, e.message⟩]
      let stopped :=
        if s.answered = 0 ∧ unansweredFailureLimit ≤ failed.length then
          s.stopped.or (some e.message)
        else s.stopped
      ({ s with failed, stopped }, none)

/-- A candidate, from when it is taken to when its read comes back. -/
def task : PoolTask FetchState (Option CommitFilesRecord) := ⟨opts.onTake, opts.onSettle⟩

/-- How many workers a pass has. -/
def workers : ℕ := mapWorkers opts.concurrency opts.candidates.length

/-- Nothing read yet. -/
def start : Pool FetchState (Option CommitFilesRecord) := Pool.start ⟨none, 0, []⟩

/-- What is returned once every worker is done. -/
def result (p : Pool FetchState (Option CommitFilesRecord)) : CommitFilesFetchResult :=
  let records := (p.results opts.candidates.length).filterMap id
  if 0 < p.shared.answered then
    { records := records ++ p.shared.failed.map fun f => opts.unavailable f.index
      stopped := p.shared.stopped }
  else { records, stopped := p.shared.stopped.or (p.shared.failed.head?.map (·.message)) }

end CommitFilesFetch

/-- The pass under a schedule; nothing where the schedule is not one. -/
def fetchCommitFileRecords (opts : CommitFilesFetch) (schedule : List PoolEvent) :
    Option CommitFilesFetchResult :=
  (Pool.run opts.task opts.candidates.length opts.workers CommitFilesFetch.start schedule).bind
    fun p => if p.Finished opts.candidates.length then some (opts.result p) else none

/-! ## What comes of a candidate -/

namespace CommitFilesFetch

variable (opts : CommitFilesFetch)

/-- The record of an answer about the candidate, however the pass goes. -/
def answerOf (i : ℕ) : Option CommitFilesRecord :=
  if opts.withheld i then some (opts.unavailable i)
  else
    match opts.read i with
    | .ok none => some (opts.unavailable i)
    | .ok (some read) =>
      some (commitFilesRecord (opts.candidate i) opts.apiVersion opts.now
        (if read.merge = some true then .merge else .ok) (some read))
    | .error e => if e.gone then some (opts.unavailable i) else none

/-- Asking for the candidate fails, for a reason of its own or for one that
concerns the whole source. -/
def Fails (i : ℕ) : Prop := opts.answerOf i = none

/-- The provider answers a request for the candidate. -/
def Answers (i : ℕ) : Prop :=
  opts.withheld i = false ∧ ((∃ read, opts.read i = .ok (some read)) ∨
    ∃ e, opts.read i = .error e ∧ e.gone = true)

/-- The record a candidate has if it has one. -/
def recordOf (i : ℕ) : CommitFilesRecord := (opts.answerOf i).getD (opts.unavailable i)

variable {opts} {i : ℕ} {s s' : FetchState} {r : Option CommitFilesRecord}

theorem onTake_cases (h : opts.task.onTake i s = some (s', r)) :
    s' = s ∧ ((opts.withheld i = true ∧ r = some (opts.unavailable i)) ∨
      (opts.withheld i = false ∧ s.stopped ≠ none ∧ r = none)) := by
  simp only [task, onTake] at h
  cases hw : opts.withheld i with
  | true =>
    rw [hw, if_pos rfl] at h
    cases h
    exact ⟨rfl, Or.inl ⟨rfl, rfl⟩⟩
  | false =>
    rw [hw, if_neg Bool.false_ne_true] at h
    cases hs : s.stopped with
    | none =>
      rw [hs] at h
      cases h
    | some msg =>
      rw [hs] at h
      cases h
      exact ⟨rfl, Or.inr ⟨rfl, by simp, rfl⟩⟩

theorem withheld_of_onTake (h : opts.task.onTake i s = none) : opts.withheld i = false := by
  simp only [task, onTake] at h
  cases hw : opts.withheld i with
  | true =>
    rw [hw, if_pos rfl] at h
    cases h
  | false => rfl

/-- **What a read comes to.** The candidate is answered, or its request
fails: then the pass has a reason to stop, or the candidate is set aside. -/
theorem onSettle_cases (hw : opts.withheld i = false) :
    (∃ rec, (opts.task.onSettle i s).2 = some rec ∧ opts.answerOf i = some rec ∧
      (opts.task.onSettle i s).1.stopped = s.stopped ∧
      (opts.task.onSettle i s).1.failed = s.failed ∧
      ((opts.task.onSettle i s).1.answered = s.answered ∨ opts.Answers i)) ∨
    ((opts.task.onSettle i s).2 = none ∧ opts.Fails i ∧
      (opts.task.onSettle i s).1.answered = s.answered ∧
      (((opts.task.onSettle i s).1.stopped ≠ none ∧
          (opts.task.onSettle i s).1.failed = s.failed) ∨
        ((s.stopped ≠ none → (opts.task.onSettle i s).1.stopped ≠ none) ∧
          ∃ message, (opts.task.onSettle i s).1.failed = s.failed ++ [⟨i, message⟩]))) := by
  have hasked : ¬ opts.withheld i = true := by simp [hw]
  simp only [task, onSettle, Fails, answerOf, if_neg hasked]
  cases hread : opts.read i with
  | ok read =>
    cases read with
    | none => exact Or.inl ⟨_, rfl, rfl, rfl, rfl, Or.inl rfl⟩
    | some read => exact Or.inl ⟨_, rfl, rfl, rfl, rfl, Or.inr ⟨hw, Or.inl ⟨read, hread⟩⟩⟩
  | error e =>
    dsimp only
    by_cases hgone : e.gone = true
    · rw [if_pos hgone, if_pos hgone]
      exact Or.inl ⟨_, rfl, rfl, rfl, rfl, Or.inr ⟨hw, Or.inr ⟨e, hread, hgone⟩⟩⟩
    · rw [if_neg hgone, if_neg hgone]
      refine Or.inr ?_
      by_cases hwide : e.sourceWide = true
      · rw [if_pos hwide]
        refine ⟨rfl, rfl, rfl, Or.inl ⟨?_, rfl⟩⟩
        cases s.stopped <;> simp
      · rw [if_neg hwide]
        refine ⟨rfl, rfl, rfl, Or.inr ⟨fun hs => ?_, e.message, rfl⟩⟩
        dsimp only
        split
        · cases hstop : s.stopped with
          | none => exact absurd hstop hs
          | some msg => simp
        · exact hs

theorem onSettle_snd (hw : opts.withheld i = false) :
    (opts.task.onSettle i s).2 = opts.answerOf i := by
  rcases onSettle_cases (s := s) hw with ⟨rec, hr, hanswer, -⟩ | ⟨hr, hfails, -⟩
  · rw [hr, hanswer]
  · rw [hr, hfails]

/-! ## What holds while the workers run -/

/-- Every commit set aside has failed and ended, once; the count of answers
has an answer behind it; and as long as the pass is not stopped, whatever
ended without a record is set aside. -/
structure Tallied (opts : CommitFilesFetch)
    (p : Pool FetchState (Option CommitFilesRecord)) : Prop where
  waiting : p.Waiting opts.task
  accounted : p.Accounted opts.candidates.length
  failed : ∀ f ∈ p.shared.failed, (f.index, none) ∈ p.ended ∧ opts.Fails f.index
  nodup : (p.shared.failed.map (·.index)).Nodup
  answered : 0 < p.shared.answered → ∃ i rec, (i, some rec) ∈ p.ended ∧ opts.Answers i
  aside : p.shared.stopped = none → ∀ i, (i, none) ∈ p.ended → ∃ f ∈ p.shared.failed, f.index = i

theorem tallied_start : opts.Tallied start where
  waiting i hi := by cases hi
  accounted := Pool.accounted_start _ _
  failed f hf := by cases hf
  nodup := List.nodup_nil
  answered h := absurd h (Nat.lt_irrefl 0)
  aside _ i hi := by cases hi

variable {p p' : Pool FetchState (Option CommitFilesRecord)} {e : PoolEvent}

theorem tallied_step (hp : opts.Tallied p)
    (h : Pool.step opts.task opts.candidates.length opts.workers p e = some p') :
    opts.Tallied p' := by
  have hwaiting := Pool.waiting_step hp.waiting h
  have haccounted := Pool.accounted_step hp.accounted h
  have hended : ∀ {x}, x ∈ p.ended → x ∈ p'.ended := fun hx => Pool.mem_ended_step h hx
  rcases Pool.step_cases h with ⟨shared, r, -, -, htake, rfl⟩ | ⟨-, -, -, -, rfl⟩ | ⟨i, hi, -, rfl⟩
  · obtain ⟨rfl, hcase⟩ := onTake_cases htake
    refine ⟨hwaiting, haccounted, fun f hf => ⟨hended (hp.failed f hf).1, (hp.failed f hf).2⟩,
      hp.nodup, fun hpos => ?_, fun hstop j hj => ?_⟩
    · obtain ⟨j, rec, hj, hanswers⟩ := hp.answered hpos
      exact ⟨j, rec, hended hj, hanswers⟩
    · rcases List.mem_append.mp hj with hj | hj
      · exact hp.aside hstop j hj
      · cases List.mem_singleton.mp hj
        rcases hcase with ⟨-, hr⟩ | ⟨-, hskip, -⟩
        · cases hr
        · exact absurd hstop hskip
  · exact ⟨hwaiting, haccounted, hp.failed, hp.nodup, hp.answered, hp.aside⟩
  · obtain ⟨s, hnone⟩ := hp.waiting i hi
    -- an item in flight has not ended, so it is not set aside already
    have hfresh : i ∉ p.shared.failed.map (·.index) := by
      intro hmem
      obtain ⟨f, hf, rfl⟩ := List.mem_map.mp hmem
      have hdup : (p.inFlight ++ p.ended.map Prod.fst).Nodup :=
        hp.accounted.1.nodup_iff.mpr List.nodup_range
      exact (List.nodup_append.mp hdup).2.2 f.index hi f.index
        (List.mem_map_of_mem (hp.failed f hf).1) rfl
    rcases onSettle_cases (s := p.shared) (withheld_of_onTake hnone) with
      ⟨rec, hr, -, hstop, hfailed, hcount⟩ | ⟨hr, hfails, hcount, hcase⟩
    · refine ⟨hwaiting, haccounted, ?_, ?_, fun hpos => ?_, fun hnot j hj => ?_⟩
      · rw [hfailed]
        exact fun f hf => ⟨hended (hp.failed f hf).1, (hp.failed f hf).2⟩
      · rw [hfailed]
        exact hp.nodup
      · rcases hcount with hcount | hanswers
        · obtain ⟨j, rec', hj, hanswers⟩ := hp.answered (hcount ▸ hpos)
          exact ⟨j, rec', hended hj, hanswers⟩
        · refine ⟨i, rec, List.mem_append_right _ ?_, hanswers⟩
          rw [hr]
          exact List.mem_cons_self
      · rw [hfailed]
        rcases List.mem_append.mp hj with hj | hj
        · exact hp.aside (hstop ▸ hnot) j hj
        · rw [hr] at hj
          cases List.mem_singleton.mp hj
    · have hlast : (i, none) ∈ p.ended ++ [(i, (opts.task.onSettle i p.shared).2)] := by
        rw [hr]
        exact List.mem_append_right _ List.mem_cons_self
      have hanswered : 0 < (opts.task.onSettle i p.shared).1.answered →
          ∃ j rec, (j, some rec) ∈ p.ended ++ [(i, (opts.task.onSettle i p.shared).2)] ∧
            opts.Answers j := by
        intro hpos
        obtain ⟨j, rec, hj, hanswers⟩ := hp.answered (hcount ▸ hpos)
        exact ⟨j, rec, hended hj, hanswers⟩
      rcases hcase with ⟨hstop, hfailed⟩ | ⟨hmono, message, hfailed⟩
      · refine ⟨hwaiting, haccounted, ?_, ?_, hanswered, fun hnot => absurd hnot hstop⟩
        · rw [hfailed]
          exact fun f hf => ⟨hended (hp.failed f hf).1, (hp.failed f hf).2⟩
        · rw [hfailed]
          exact hp.nodup
      · refine ⟨hwaiting, haccounted, ?_, ?_, hanswered, fun hnot j hj => ?_⟩
        · rw [hfailed]
          intro f hf
          rcases List.mem_append.mp hf with hf | hf
          · exact ⟨hended (hp.failed f hf).1, (hp.failed f hf).2⟩
          · rw [List.mem_singleton.mp hf]
            exact ⟨hlast, hfails⟩
        · rw [hfailed, List.map_append]
          refine List.nodup_append.mpr ⟨hp.nodup, List.nodup_singleton _, ?_⟩
          intro a ha b hb hab
          have hai : a = i := hab.trans (List.mem_singleton.mp hb)
          exact hfresh (hai ▸ ha)
        · rw [hfailed]
          rcases List.mem_append.mp hj with hj | hj
          · have hstopped : p.shared.stopped = none := by
              by_contra hne
              exact hmono hne hnot
            obtain ⟨f, hf, hfi⟩ := hp.aside hstopped j hj
            exact ⟨f, List.mem_append_left _ hf, hfi⟩
          · have hji : j = i := (Prod.mk.inj (List.mem_singleton.mp hj)).1
            exact ⟨_, List.mem_append_right _ List.mem_cons_self, hji.symm⟩

theorem tallied_run {schedule : List PoolEvent}
    (h : Pool.run opts.task opts.candidates.length opts.workers start schedule = some p) :
    opts.Tallied p :=
  Pool.induction opts.Tallied tallied_start (fun _ _ _ hp hstep => tallied_step hp hstep) h

/-! ## What the pass returns -/

/-- The candidates at `recorded` have their record, each one and once; a
record is of a candidate that was withheld or whose read came back; a
failure is recorded where another candidate was answered, and everything
where the pass did not stop. -/
structure Recorded (opts : CommitFilesFetch) (schedule : List PoolEvent)
    (result : CommitFilesFetchResult) (recorded : List ℕ) : Prop where
  records : result.records = recorded.map opts.recordOf
  nodup : recorded.Nodup
  lt : ∀ i ∈ recorded, i < opts.candidates.length
  all : result.stopped = none → recorded.Perm (List.range opts.candidates.length)
  answered : ∀ i ∈ recorded, opts.Fails i → ∃ j ∈ recorded, j ≠ i ∧ opts.Answers j
  asked : ∀ i ∈ recorded, opts.withheld i = true ∨ .settle i ∈ schedule
  kept : ∀ i < opts.candidates.length, (opts.withheld i = true ∨ .settle i ∈ schedule) →
    ¬ opts.Fails i → i ∈ recorded

theorem not_fails_of_answers (h : opts.Answers i) : ¬ opts.Fails i := by
  obtain ⟨hw, ⟨read, hread⟩ | ⟨e, hread, hgone⟩⟩ := h
  · simp [Fails, answerOf, hw, hread]
  · simp [Fails, answerOf, hw, hread, hgone]

/-- The candidates that ended with a record. -/
def settledWith (opts : CommitFilesFetch) (p : Pool FetchState (Option CommitFilesRecord)) :
    List ℕ :=
  (List.range opts.candidates.length).filter fun i => (p.ended.lookup i).join.isSome

variable {schedule : List PoolEvent}

/-- What comes of a candidate is its answer, or the stopped pass skipped it. -/
theorem ended_eq_answerOf
    (h : Pool.run opts.task opts.candidates.length opts.workers start schedule = some p)
    (hi : (i, r) ∈ p.ended) :
    ((opts.withheld i = true ∨ .settle i ∈ schedule) ∧ r = opts.answerOf i) ∨
      (opts.withheld i = false ∧ r = none) := by
  have hwait : (start : Pool FetchState (Option CommitFilesRecord)).Waiting opts.task :=
    fun j hj => by cases hj
  rcases Pool.ended_cases hwait h hi with hnil | ⟨s, s', htake⟩ | ⟨hsettle, ⟨s, hnone⟩, s', hr⟩
  · cases hnil
  · obtain ⟨-, ⟨hw, rfl⟩ | ⟨hw, -, rfl⟩⟩ := onTake_cases htake
    · refine Or.inl ⟨Or.inl hw, ?_⟩
      rw [answerOf, if_pos hw]
    · exact Or.inr ⟨hw, rfl⟩
  · exact Or.inl ⟨Or.inr hsettle, hr ▸ onSettle_snd (withheld_of_onTake hnone)⟩

theorem mem_settledWith_iff
    (h : Pool.run opts.task opts.candidates.length opts.workers start schedule = some p) :
    i ∈ settledWith opts p ↔ i < opts.candidates.length ∧ ∃ rec, (i, some rec) ∈ p.ended := by
  rw [settledWith, List.mem_filter, List.mem_range]
  refine and_congr_right fun hlt => ⟨fun hsome => ?_, fun ⟨rec, hrec⟩ => ?_⟩
  · obtain ⟨rec, hrec⟩ := Option.isSome_iff_exists.mp hsome
    exact ⟨rec, Pool.mem_ended_of_lookup (Option.join_eq_some_iff.mp hrec)⟩
  · cases hlook : p.ended.lookup i with
    | none =>
      have hno := List.lookup_eq_none_iff.mp hlook (i, some rec) hrec
      simp at hno
    | some r' =>
      rw [Pool.ended_unique h (Pool.mem_ended_of_lookup hlook) hrec]
      rfl

/-- The records in the order of the candidates. -/
theorem results_filterMap
    (h : Pool.run opts.task opts.candidates.length opts.workers start schedule = some p) :
    (p.results opts.candidates.length).filterMap id = (settledWith opts p).map opts.recordOf := by
  rw [Pool.results, List.filterMap_filterMap, settledWith, ← List.filterMap_eq_map,
    List.filterMap_filter]
  refine List.filterMap_congr fun i hi => ?_
  cases hlook : p.ended.lookup i with
  | none => rfl
  | some r =>
    cases r with
    | none => rfl
    | some rec =>
      rcases ended_eq_answerOf h (Pool.mem_ended_of_lookup hlook) with ⟨-, hanswer⟩ | ⟨-, hnone⟩
      · show some rec = some (opts.recordOf i)
        rw [recordOf, ← hanswer]
        rfl
      · cases hnone

/-- A commit is set aside when its read comes back. -/
theorem settled_of_failed (hp : p.Waiting opts.task)
    (hrun : Pool.run opts.task opts.candidates.length opts.workers p schedule = some p')
    {f : FailedRead} (hf : f ∈ p'.shared.failed) :
    f ∈ p.shared.failed ∨ .settle f.index ∈ schedule := by
  induction schedule generalizing p with
  | nil =>
    obtain rfl := Option.some.inj hrun
    exact Or.inl hf
  | cons e es ih =>
    obtain ⟨q, hq, hrest⟩ := Option.bind_eq_some_iff.mp hrun
    rcases ih (Pool.waiting_step hp hq) hrest with hmem | hsettle
    · rcases Pool.step_cases hq with
        ⟨shared, r, -, -, htake, rfl⟩ | ⟨-, -, -, -, rfl⟩ | ⟨i, hi, rfl, rfl⟩
      · obtain ⟨rfl, -⟩ := onTake_cases htake
        exact Or.inl hmem
      · exact Or.inl hmem
      · obtain ⟨s, hnone⟩ := hp i hi
        rcases onSettle_cases (s := p.shared) (withheld_of_onTake hnone) with
          ⟨-, -, -, -, hfailed, -⟩ | ⟨-, -, -, ⟨-, hfailed⟩ | ⟨-, message, hfailed⟩⟩
        · exact Or.inl (hfailed ▸ hmem)
        · exact Or.inl (hfailed ▸ hmem)
        · rcases List.mem_append.mp (hfailed ▸ hmem) with hmem | hmem
          · exact Or.inl hmem
          · rw [List.mem_singleton.mp hmem]
            exact Or.inr List.mem_cons_self
    · exact Or.inr (List.mem_cons_of_mem _ hsettle)

/-- A commit set aside has no record of its own. -/
theorem nodup_recorded
    (hrun : Pool.run opts.task opts.candidates.length opts.workers start schedule = some p) :
    (settledWith opts p ++ p.shared.failed.map (·.index)).Nodup := by
  have hp := tallied_run hrun
  refine List.nodup_append.mpr ⟨List.nodup_range.filter _, hp.nodup, ?_⟩
  intro i hi j hj hij
  obtain ⟨f, hf, hfj⟩ := List.mem_map.mp hj
  obtain ⟨-, rec, hrec⟩ := (mem_settledWith_iff hrun).mp hi
  rw [hij, ← hfj] at hrec
  cases Pool.ended_unique hrun hrec (hp.failed f hf).1

theorem lt_of_mem_recorded
    (hrun : Pool.run opts.task opts.candidates.length opts.workers start schedule = some p)
    (hi : i ∈ settledWith opts p ++ p.shared.failed.map (·.index)) :
    i < opts.candidates.length := by
  have hp := tallied_run hrun
  rcases List.mem_append.mp hi with hi | hi
  · exact ((mem_settledWith_iff hrun).mp hi).1
  · obtain ⟨f, hf, rfl⟩ := List.mem_map.mp hi
    exact Pool.lt_of_mem_ended hp.accounted (hp.failed f hf).1

section Finished

variable (hrun : Pool.run opts.task opts.candidates.length opts.workers start schedule = some p)
  (hfinished : p.Finished opts.candidates.length)

include hrun hfinished

theorem ended_none_of_notMem (hi : i < opts.candidates.length) (hnot : i ∉ settledWith opts p) :
    (i, none) ∈ p.ended := by
  obtain ⟨r, hr⟩ := Pool.exists_lookup hrun hfinished hi
  have hmem := Pool.mem_ended_of_lookup hr
  cases r with
  | none => exact hmem
  | some rec => exact absurd ((mem_settledWith_iff hrun).mpr ⟨hi, rec, hmem⟩) hnot

/-- A candidate that was withheld, or asked for with success, has a record. -/
theorem mem_settledWith_of_asked (hi : i < opts.candidates.length)
    (hasked : opts.withheld i = true ∨ .settle i ∈ schedule) (hans : ¬ opts.Fails i) :
    i ∈ settledWith opts p := by
  by_contra hnot
  have hnone := ended_none_of_notMem hrun hfinished hi hnot
  cases hw : opts.withheld i with
  | true =>
    rcases ended_eq_answerOf hrun hnone with ⟨-, heq⟩ | ⟨hnw, -⟩
    · exact hans heq.symm
    · rw [hw] at hnw
      cases hnw
  | false =>
    have hsettle : PoolEvent.settle i ∈ schedule := by
      rcases hasked with hasked | hasked
      · rw [hw] at hasked
        cases hasked
      · exact hasked
    obtain ⟨s, hs⟩ := Pool.ended_of_settle hrun hsettle
    rw [onSettle_snd hw] at hs
    exact hans (Pool.ended_unique hrun hs hnone)

/-- With the commits set aside, every candidate of a pass that has not
stopped. -/
theorem perm_range_of_not_stopped (hstop : p.shared.stopped = none) :
    (settledWith opts p ++ p.shared.failed.map (·.index)).Perm
      (List.range opts.candidates.length) := by
  refine (List.perm_ext_iff_of_nodup (nodup_recorded hrun) List.nodup_range).mpr fun i => ?_
  constructor
  · intro hi
    exact List.mem_range.mpr (lt_of_mem_recorded hrun hi)
  · intro hi
    by_cases hmem : i ∈ settledWith opts p
    · exact List.mem_append_left _ hmem
    · have hnone := ended_none_of_notMem hrun hfinished (List.mem_range.mp hi) hmem
      obtain ⟨f, hf, hfi⟩ := (tallied_run hrun).aside hstop i hnone
      exact List.mem_append_right _ (List.mem_map.mpr ⟨f, hf, hfi⟩)

end Finished

/-- A candidate with a record of its own has not failed, and was asked for. -/
theorem answered_of_mem_settledWith
    (hrun : Pool.run opts.task opts.candidates.length opts.workers start schedule = some p)
    (hi : i ∈ settledWith opts p) :
    ¬ opts.Fails i ∧ (opts.withheld i = true ∨ .settle i ∈ schedule) := by
  obtain ⟨-, rec, hrec⟩ := (mem_settledWith_iff hrun).mp hi
  rcases ended_eq_answerOf hrun hrec with ⟨hasked, heq⟩ | ⟨-, hnone⟩
  · refine ⟨fun hfails => ?_, hasked⟩
    rw [hfails] at heq
    cases heq
  · cases hnone

/-- The pass after an answer: the commits set aside are recorded too. -/
theorem recorded_of_answered
    (hrun : Pool.run opts.task opts.candidates.length opts.workers start schedule = some p)
    (hfinished : p.Finished opts.candidates.length) (hpos : 0 < p.shared.answered) :
    Recorded opts schedule (opts.result p)
      (settledWith opts p ++ p.shared.failed.map (·.index)) := by
  have hp := tallied_run hrun
  have hresult : opts.result p =
      { records := (p.results opts.candidates.length).filterMap id ++
          p.shared.failed.map fun f => opts.unavailable f.index
        stopped := p.shared.stopped } := by
    unfold result
    rw [if_pos hpos]
  rw [hresult]
  refine ⟨?_, nodup_recorded hrun, fun i hi => lt_of_mem_recorded hrun hi,
    fun hstop => perm_range_of_not_stopped hrun hfinished hstop, fun i hi hfails => ?_,
    fun i hi => ?_, fun i hi hasked hans => ?_⟩
  · rw [results_filterMap hrun, List.map_append, List.map_map]
    refine congrArg (_ ++ ·) (List.map_congr_left fun f hf => ?_)
    have hfails : opts.answerOf f.index = none := (hp.failed f hf).2
    simp [recordOf, hfails]
  · obtain ⟨j, rec, hj, hanswers⟩ := hp.answered hpos
    have hmem : j ∈ settledWith opts p :=
      (mem_settledWith_iff hrun).mpr ⟨Pool.lt_of_mem_ended hp.accounted hj, rec, hj⟩
    refine ⟨j, List.mem_append_left _ hmem, fun hji => ?_, hanswers⟩
    exact not_fails_of_answers hanswers (hji ▸ hfails)
  · rcases List.mem_append.mp hi with hi | hi
    · exact (answered_of_mem_settledWith hrun hi).2
    · obtain ⟨f, hf, rfl⟩ := List.mem_map.mp hi
      have hwait : (start : Pool FetchState (Option CommitFilesRecord)).Waiting opts.task :=
        fun j hj => by cases hj
      rcases settled_of_failed hwait hrun hf with hnil | hsettle
      · cases hnil
      · exact Or.inr hsettle
  · exact List.mem_append_left _ (mem_settledWith_of_asked hrun hfinished hi hasked hans)

/-- The pass without an answer: the commits set aside stay in the queue. -/
theorem recorded_of_unanswered
    (hrun : Pool.run opts.task opts.candidates.length opts.workers start schedule = some p)
    (hfinished : p.Finished opts.candidates.length) (hzero : ¬ 0 < p.shared.answered) :
    Recorded opts schedule (opts.result p) (settledWith opts p) := by
  have hresult : opts.result p =
      { records := (p.results opts.candidates.length).filterMap id
        stopped := p.shared.stopped.or (p.shared.failed.head?.map (·.message)) } := by
    unfold result
    rw [if_neg hzero]
  rw [hresult]
  refine ⟨results_filterMap hrun, List.nodup_range.filter _,
    fun i hi => ((mem_settledWith_iff hrun).mp hi).1, fun hstop => ?_, fun i hi hfails => ?_,
    fun i hi => (answered_of_mem_settledWith hrun hi).2,
    fun i hi hasked hans => mem_settledWith_of_asked hrun hfinished hi hasked hans⟩
  · obtain ⟨hnone, hhead⟩ := Option.or_eq_none_iff.mp hstop
    have hfailed : p.shared.failed = [] := by
      rw [Option.map_eq_none_iff] at hhead
      exact List.head?_eq_none_iff.mp hhead
    have hperm := perm_range_of_not_stopped hrun hfinished hnone
    rw [hfailed, List.map_nil, List.append_nil] at hperm
    exact hperm
  · exact absurd hfails (answered_of_mem_settledWith hrun hi).1

/-- **What the pass returns**, whatever the schedule. -/
theorem fetchCommitFileRecords_spec {result : CommitFilesFetchResult}
    (h : fetchCommitFileRecords opts schedule = some result) :
    ∃ recorded, Recorded opts schedule result recorded := by
  obtain ⟨p, hrun, hend⟩ := Option.bind_eq_some_iff.mp h
  by_cases hfinished : p.Finished opts.candidates.length
  · rw [if_pos hfinished] at hend
    obtain rfl := Option.some.inj hend
    by_cases hpos : 0 < p.shared.answered
    · exact ⟨_, recorded_of_answered hrun hfinished hpos⟩
    · exact ⟨_, recorded_of_unanswered hrun hfinished hpos⟩
  · rw [if_neg hfinished] at hend
    cases hend

theorem recordOf_activity (opts : CommitFilesFetch) (i : ℕ) :
    (opts.recordOf i).payload.activity = (opts.candidate i).externalId ∧
      (opts.recordOf i).payload.sha = (opts.candidate i).sha := by
  unfold recordOf answerOf
  by_cases hw : opts.withheld i = true
  · rw [if_pos hw]
    exact ⟨rfl, rfl⟩
  · rw [if_neg hw]
    cases opts.read i with
    | ok read => cases read <;> exact ⟨rfl, rfl⟩
    | error e =>
      dsimp only
      by_cases hgone : e.gone = true
      · rw [if_pos hgone]
        exact ⟨rfl, rfl⟩
      · rw [if_neg hgone]
        exact ⟨rfl, rfl⟩

/-- A pass that has started has had at most two events for each
candidate. -/
theorem length_started_le {started : List PoolEvent}
    (hrun : Pool.run opts.task opts.candidates.length opts.workers start started = some p) :
    started.length ≤ 2 * opts.candidates.length := by
  simpa [Pool.remaining, start, Pool.start] using Pool.length_le_remaining hrun

/-- **A pass that has started can be finished.** -/
theorem exists_fetchCommitFileRecords {started : List PoolEvent}
    (hrun : Pool.run opts.task opts.candidates.length opts.workers start started = some p) :
    ∃ rest result, fetchCommitFileRecords opts (started ++ rest) = some result := by
  have hworkers : 0 < opts.workers := Nat.lt_of_lt_of_le Nat.one_pos (Nat.le_max_left _ _)
  have hacc : p.Accounted opts.candidates.length :=
    Pool.induction (·.Accounted opts.candidates.length) (Pool.accounted_start _ _)
      (fun _ _ _ hp h => Pool.accounted_step hp h) hrun
  obtain ⟨rest, p', hrest, hfinished⟩ :
      ∃ es p', Pool.run opts.task opts.candidates.length opts.workers p es = some p' ∧
        p'.Finished opts.candidates.length := Pool.exists_finished hworkers hacc
  refine ⟨rest, opts.result p', ?_⟩
  rw [fetchCommitFileRecords, Pool.run_append hrun, hrest]
  exact if_pos hfinished

end CommitFilesFetch

/-- A normalized record is of the commit it names. -/
theorem normalizeCommitFiles_eq_some {sourceId : SourceId} {raw : CommitFilesRecord}
    {files : CanonicalCommitFiles} (h : normalizeCommitFiles sourceId raw = some files) :
    files.sourceId = sourceId ∧ files.externalId = raw.payload.activity := by
  simp only [normalizeCommitFiles] at h
  by_cases hnull : raw.payload.activity = "" ∨ trim raw.payload.sha = ""
  · rw [if_pos hnull] at h
    cases h
  · rw [if_neg hnull] at h
    obtain rfl := Option.some.inj h
    exact ⟨rfl, rfl⟩

theorem exists_normalizeCommitFiles (sourceId : SourceId) {raw : CommitFilesRecord}
    (hactivity : raw.payload.activity ≠ "") (hsha : trim raw.payload.sha ≠ "") :
    ∃ files, normalizeCommitFiles sourceId raw = some files :=
  ⟨_, if_neg (not_or.mpr ⟨hactivity, hsha⟩)⟩

end SymphonyBoard
