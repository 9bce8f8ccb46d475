import SymphonyBoard.Sources.CommitFiles
/-!
# The commit file queue

`enrichCommitFiles` of `src/sync-engine.ts` over
`listCommitFileCandidates` of `src/db/sqlite.ts`. The store is the queue:
a commit waits while it has no row of its own, newest first, at most so
many a pass.

`commitFiles_progress` says what one pass records and that no commit holds
up the others: as long as every pass answers one of them, each is attempted
after as many passes as there are commits without an answer.
-/

namespace SymphonyBoard

/-- What `parseCommitDetails` leaves of a commit's details. -/
structure CommitDetails where
  sha : Option String
  merge : Bool
deriving DecidableEq

/-- A commit activity. Its external id is made by `stableActivityId`. -/
structure CommitActivity where
  endpoint : ItemEndpoint
  named : endpoint.externalId ≠ ""
  projectPath : Option String
  occurredAt : String
  details : Option CommitDetails
deriving DecidableEq

/-- The commit activities of the store, in the order of their row ids. -/
structure CommitTable where
  rows : List CommitActivity
  unique : (rows.map (·.endpoint)).Nodup

/-- The two tables the pass writes. -/
structure CommitFilesStore where
  raw : OrdMap ItemEndpoint CommitFilesRecord
  commitFiles : OrdMap ItemEndpoint CommitFilesRow

/-- What a source brings to the pass. -/
structure CommitFilesSource where
  sourceId : SourceId
  fetchesCommitFiles : Bool
  allowed : String → Bool
  apiVersion : String
  concurrency : ℤ

/-- One sync's pass: its options, and what the provider and the clock do. -/
structure FilePass where
  startedAt : String
  now : String
  limit : ℤ
  lookbackMs : ℤ
  dryRun : Bool
  read : ℕ → CommitFilesOutcome
  schedule : List PoolEvent

/-- What a pass reports. -/
structure EnrichResult where
  written : ℕ
  error : Option String
deriving DecidableEq

/-! ## The queue -/

/-- How far a pass looks back. -/
def FilePass.since (pass : FilePass) : Except String String :=
  match dateParseAll pass.startedAt with
  | none => .error "Invalid time value"
  | some ms => .ok (isoString (ms - pass.lookbackMs))

/-- The time bounds of the query, on one row. -/
def ActivityRangeBounds.keepsSince (b : ActivityRangeBounds) (occurredAt : String) : Bool :=
  decide (b.coarseFrom ≤ occurredAt) && juliandayLe b.fromIso occurredAt

/-- The commits that wait, newest first. -/
def listCommitFileCandidates (commits : CommitTable) (commitFiles : OrdMap ItemEndpoint CommitFilesRow)
    (sourceId : SourceId) (sinceIso : String) (limit : ℤ) : Except String (List CommitActivity) :=
  if limit.toNat = 0 then .ok []
  else do
    let bounds ← activityRangeBounds ⟨sinceIso, sinceIso⟩
    return (newestFirst (·.occurredAt) (commits.rows.filter fun a =>
      decide (a.endpoint.sourceId = sourceId) && a.projectPath.isSome &&
        (commitFiles.get? a.endpoint).isNone && bounds.keepsSince a.occurredAt)).take limit.toNat

/-! ## The pass -/

namespace CommitActivity

/-- The sha of a commit, trimmed. -/
def sha (row : CommitActivity) : String := trim ((row.details.bind (·.sha)).getD "")

/-- The answer that needs no request: a merge, or a row with no usable sha. -/
def direct (row : CommitActivity) : Option CommitFilesState :=
  if row.details.any (·.merge) then some .merge
  else if row.sha = "" then some .unavailable
  else none

/-- The row of a commit that needs no request. -/
def directFiles (row : CommitActivity) : Option CanonicalCommitFiles :=
  row.direct.map fun state =>
    { sourceId := row.endpoint.sourceId
      externalId := row.endpoint.externalId
      projectPath := row.projectPath
      sha := row.sha
      state
      truncated := false
      files := [] }

/-- What the source is asked for a commit. -/
def candidate (row : CommitActivity) : CommitFilesCandidate :=
  { externalId := row.endpoint.externalId
    projectPath := row.projectPath.getD ""
    sha := row.sha }

end CommitActivity

/-- The rows of a batch the source is asked for. -/
def askedRows (rows : List CommitActivity) : List CommitActivity :=
  rows.filter fun row => row.direct.isNone

/-- What a pass hands to the source. -/
def FilePass.fetch (pass : FilePass) (source : CommitFilesSource) (rows : List CommitActivity) :
    CommitFilesFetch :=
  { candidates := (askedRows rows).map (·.candidate)
    allowed := source.allowed
    read := pass.read
    apiVersion := source.apiVersion
    concurrency := source.concurrency
    now := pass.now }

/-- What the source returns; nothing is asked for when no commit needs a request. -/
def FilePass.fetched (pass : FilePass) (source : CommitFilesSource) (rows : List CommitActivity) :
    Option CommitFilesFetchResult :=
  if askedRows rows = [] then some ⟨[], none⟩
  else fetchCommitFileRecords (pass.fetch source rows) pass.schedule

/-- The transaction at the end of a pass. -/
def CommitFilesStore.write (store : CommitFilesStore) (sourceId : SourceId)
    (records : List CommitFilesRecord) (files : List CanonicalCommitFiles) (now : String) :
    CommitFilesStore :=
  { raw := records.foldl (fun m r => m.set ⟨sourceId, r.externalId⟩ r) store.raw
    commitFiles :=
      files.foldl (fun m f => m.set ⟨f.sourceId, f.externalId⟩ ⟨f, now⟩) store.commitFiles }

/-- What a pass writes for its batch. -/
def enrichRows (source : CommitFilesSource) (store : CommitFilesStore) (pass : FilePass)
    (rows : List CommitActivity) (fetched : CommitFilesFetchResult) :
    CommitFilesStore × EnrichResult :=
  let direct := rows.filterMap (·.directFiles)
  let normalized := fetched.records.filterMap (normalizeCommitFiles source.sourceId)
  (store.write source.sourceId fetched.records (direct ++ normalized) pass.now,
    ⟨direct.length + normalized.length, fetched.stopped⟩)

section Pass

variable (commits : CommitTable) (source : CommitFilesSource)

/-- The batch of a pass: what the store returns for its time and limit. -/
def batch (store : CommitFilesStore) (pass : FilePass) : Except String (List CommitActivity) := do
  let since ← pass.since
  listCommitFileCandidates commits store.commitFiles source.sourceId since pass.limit

/-- The pass has nothing to do for this source. -/
def idle (pass : FilePass) : Bool :=
  decide (pass.limit ≤ 0) || pass.dryRun || !source.fetchesCommitFiles

/-- One pass; nothing where its schedule is not one. -/
def enrichCommitFiles (store : CommitFilesStore) (pass : FilePass) :
    Option (CommitFilesStore × EnrichResult) :=
  if idle source pass then some (store, ⟨0, none⟩)
  else
    match batch commits source store pass with
    | .error message => some (store, ⟨0, some message⟩)
    | .ok rows =>
      if rows = [] then some (store, ⟨0, none⟩)
      else (pass.fetched source rows).map (enrichRows source store pass rows)

/-- The store after some passes, one sync after the other. -/
def enrichPasses : CommitFilesStore → List FilePass → Option CommitFilesStore
  | store, [] => some store
  | store, pass :: passes =>
    (enrichCommitFiles commits source store pass).bind fun r => enrichPasses r.1 passes

end Pass

/-! ## What a pass records -/

section Attempts

variable (commits : CommitTable) (source : CommitFilesSource)

/-- The commit lies in the time the pass looks back to. -/
def InWindow (pass : FilePass) (row : CommitActivity) : Prop :=
  ∃ since bounds, pass.since = .ok since ∧ activityRangeBounds ⟨since, since⟩ = .ok bounds ∧
    bounds.keepsSince row.occurredAt = true

/-- The commit waits for its files. -/
structure Waits (store : CommitFilesStore) (pass : FilePass) (row : CommitActivity) : Prop where
  mem : row ∈ commits.rows
  sourceId : row.endpoint.sourceId = source.sourceId
  projectPath : row.projectPath.isSome = true
  unanswered : store.commitFiles.get? row.endpoint = none
  inWindow : InWindow pass row

/-- The source is asked for the commit: its project or its sha rules a
request out, or the request comes back. -/
def AskedFor (pass : FilePass) (rows : List CommitActivity) (row : CommitActivity) (i : ℕ) : Prop :=
  (askedRows rows)[i]? = some row ∧
    ((pass.fetch source rows).withheld i = true ∨ .settle i ∈ pass.schedule)

/-- The commit is in the batch of the pass, and gets an answer without a
request or is asked for. -/
def Attempted (store : CommitFilesStore) (pass : FilePass) (row : CommitActivity) : Prop :=
  idle source pass = false ∧ ∃ rows, batch commits source store pass = .ok rows ∧ row ∈ rows ∧
    (row.direct.isSome = true ∨ ∃ i, AskedFor source pass rows row i)

/-- The same, and the answer is not a failure. -/
def AnsweredIn (store : CommitFilesStore) (pass : FilePass) (row : CommitActivity) : Prop :=
  idle source pass = false ∧ ∃ rows, batch commits source store pass = .ok rows ∧ row ∈ rows ∧
    (row.direct.isSome = true ∨
      ∃ i, AskedFor source pass rows row i ∧ ¬ (pass.fetch source rows).Fails i)

variable {commits source} {store store' : CommitFilesStore} {pass : FilePass}
variable {rows : List CommitActivity} {row : CommitActivity}

theorem waits_of_mem_batch (h : batch commits source store pass = .ok rows) (hrow : row ∈ rows) :
    Waits commits source store pass row := by
  unfold batch at h
  cases hs : pass.since with
  | error message =>
    rw [hs] at h
    cases h
  | ok since =>
    rw [hs] at h
    have hlist : listCommitFileCandidates commits store.commitFiles source.sourceId since
        pass.limit = .ok rows := h
    unfold listCommitFileCandidates at hlist
    by_cases hzero : pass.limit.toNat = 0
    · rw [if_pos hzero] at hlist
      rw [← Except.ok.inj hlist] at hrow
      cases hrow
    · rw [if_neg hzero] at hlist
      cases hb : activityRangeBounds ⟨since, since⟩ with
      | error message =>
        rw [hb] at hlist
        cases hlist
      | ok bounds =>
        rw [hb] at hlist
        rw [← Except.ok.inj hlist] at hrow
        have hkept := (newestFirst_perm _ _).subset (List.mem_of_mem_take hrow)
        simp only [List.mem_filter, Bool.and_eq_true, decide_eq_true_eq,
          Option.isNone_iff_eq_none] at hkept
        obtain ⟨hmem, ⟨⟨hsource, hpath⟩, hnone⟩, hsince⟩ := hkept
        exact ⟨hmem, hsource, hpath, hnone, since, bounds, hs, hb, hsince⟩

theorem recorded_of_fetched {result : CommitFilesFetchResult}
    (h : pass.fetched source rows = some result) :
    ∃ recorded, CommitFilesFetch.Recorded (pass.fetch source rows) pass.schedule result
      recorded := by
  unfold FilePass.fetched at h
  by_cases hnil : askedRows rows = []
  · rw [if_pos hnil] at h
    obtain rfl := Option.some.inj h
    have hlen : (pass.fetch source rows).candidates.length = 0 := by
      rw [FilePass.fetch, hnil]
      rfl
    refine ⟨[], rfl, List.nodup_nil, fun i hi => (by cases hi), fun _ => ?_,
      fun i hi => (by cases hi), fun i hi => (by cases hi), fun i hi => ?_⟩
    · rw [hlen]
      exact List.Perm.refl _
    · rw [hlen] at hi
      exact absurd hi (Nat.not_lt_zero i)
  · rw [if_neg hnil] at h
    exact CommitFilesFetch.fetchCommitFileRecords_spec h

theorem candidate_fetch {i : ℕ} (h : (askedRows rows)[i]? = some row) :
    (pass.fetch source rows).candidate i = row.candidate := by
  simp [CommitFilesFetch.candidate, FilePass.fetch, List.getD_eq_getElem?_getD, h]

theorem mem_of_askedRows {i : ℕ} (h : (askedRows rows)[i]? = some row) :
    row ∈ rows ∧ row.direct = none := by
  obtain ⟨hmem, hdirect⟩ := List.mem_filter.mp (List.mem_of_getElem? h)
  exact ⟨hmem, Option.isNone_iff_eq_none.mp hdirect⟩

/-- **What a pass does to the store.** Nothing, or it writes what its batch
came to. -/
theorem enrichCommitFiles_cases {result : EnrichResult}
    (h : enrichCommitFiles commits source store pass = some (store', result)) :
    store' = store ∨ ∃ rows fetched, idle source pass = false ∧
      batch commits source store pass = .ok rows ∧ pass.fetched source rows = some fetched ∧
      store' = (enrichRows source store pass rows fetched).1 := by
  unfold enrichCommitFiles at h
  cases hidle : idle source pass with
  | true =>
    rw [hidle, if_pos rfl] at h
    exact Or.inl (Prod.mk.inj (Option.some.inj h)).1.symm
  | false =>
    rw [hidle, if_neg Bool.false_ne_true] at h
    cases hb : batch commits source store pass with
    | error message =>
      rw [hb] at h
      exact Or.inl (Prod.mk.inj (Option.some.inj h)).1.symm
    | ok rows =>
      rw [hb] at h
      dsimp only at h
      by_cases hnil : rows = []
      · rw [if_pos hnil] at h
        exact Or.inl (Prod.mk.inj (Option.some.inj h)).1.symm
      · rw [if_neg hnil] at h
        obtain ⟨fetched, hfetched, heq⟩ := Option.map_eq_some_iff.mp h
        exact Or.inr ⟨rows, fetched, rfl, rfl, hfetched, (congrArg Prod.fst heq).symm⟩

/-- A pass with an answer to write writes. -/
theorem enrichCommitFiles_of_mem {result : EnrichResult}
    (h : enrichCommitFiles commits source store pass = some (store', result))
    (hidle : idle source pass = false) (hb : batch commits source store pass = .ok rows)
    (hrow : row ∈ rows) :
    ∃ fetched, pass.fetched source rows = some fetched ∧
      store' = (enrichRows source store pass rows fetched).1 := by
  unfold enrichCommitFiles at h
  rw [hidle, if_neg Bool.false_ne_true, hb] at h
  dsimp only at h
  rw [if_neg (List.ne_nil_of_mem hrow)] at h
  obtain ⟨fetched, hfetched, heq⟩ := Option.map_eq_some_iff.mp h
  exact ⟨fetched, hfetched, (congrArg Prod.fst heq).symm⟩

theorem directFiles_key {files : CanonicalCommitFiles} (h : row.directFiles = some files) :
    (⟨files.sourceId, files.externalId⟩ : ItemEndpoint) = row.endpoint := by
  obtain ⟨state, -, rfl⟩ := Option.map_eq_some_iff.mp h
  rfl

/-- An answer stays. -/
theorem answered_mono {result : EnrichResult}
    (h : enrichCommitFiles commits source store pass = some (store', result)) {k : ItemEndpoint}
    (hk : store.commitFiles.get? k ≠ none) : store'.commitFiles.get? k ≠ none := by
  rcases enrichCommitFiles_cases h with rfl | ⟨rows, fetched, -, -, -, rfl⟩
  · exact hk
  · intro hnone
    simp only [enrichRows, CommitFilesStore.write, OrdMap.get?_foldl_set] at hnone
    exact hk (Option.or_eq_none_iff.mp hnone).2

/-- Commits are told apart by their keys. -/
theorem eq_of_endpoint {row' : CommitActivity} (hrow : row ∈ commits.rows)
    (hrow' : row' ∈ commits.rows) (h : row.endpoint = row'.endpoint) : row = row' :=
  List.inj_on_of_nodup_map commits.unique hrow hrow' h

/-- **A commit that has its answer after a pass was attempted in it.** -/
theorem attempted_of_answered {result : EnrichResult}
    (h : enrichCommitFiles commits source store pass = some (store', result))
    (hrow : row ∈ commits.rows) (hbefore : store.commitFiles.get? row.endpoint = none)
    (hafter : store'.commitFiles.get? row.endpoint ≠ none) :
    Attempted commits source store pass row := by
  rcases enrichCommitFiles_cases h with rfl | ⟨rows, fetched, hidle, hb, hfetched, rfl⟩
  · exact absurd hbefore hafter
  · obtain ⟨v, hv⟩ := Option.ne_none_iff_exists'.mp hafter
    have hnew := (OrdMap.get?_foldl_set_eq_some hv).resolve_right (by rw [hbefore]; simp)
    obtain ⟨files, hfiles, hkey, -⟩ := hnew
    rcases List.mem_append.mp hfiles with hdirect | hnormalized
    · obtain ⟨row', hrow', hfiles'⟩ := List.mem_filterMap.mp hdirect
      have heq : row' = row :=
        eq_of_endpoint (waits_of_mem_batch hb hrow').mem hrow ((directFiles_key hfiles').symm.trans hkey)
      subst heq
      obtain ⟨state, hstate, -⟩ := Option.map_eq_some_iff.mp hfiles'
      exact ⟨hidle, rows, hb, hrow', Or.inl (by rw [hstate]; rfl)⟩
    · obtain ⟨raw, hraw, hfiles'⟩ := List.mem_filterMap.mp hnormalized
      obtain ⟨recorded, hrec⟩ := recorded_of_fetched hfetched
      rw [hrec.records] at hraw
      obtain ⟨i, hi, rfl⟩ := List.mem_map.mp hraw
      obtain ⟨row', hget⟩ : ∃ row', (askedRows rows)[i]? = some row' := by
        have hlt := hrec.lt i hi
        rw [FilePass.fetch, List.length_map] at hlt
        exact ⟨_, List.getElem?_eq_getElem hlt⟩
      have hrow' := (mem_of_askedRows hget).1
      have hwaits := waits_of_mem_batch hb hrow'
      obtain ⟨hsource, hexternal⟩ := normalizeCommitFiles_eq_some hfiles'
      rw [(CommitFilesFetch.recordOf_activity _ i).1, candidate_fetch hget] at hexternal
      have heq : row' = row := by
        refine eq_of_endpoint hwaits.mem hrow (Eq.trans ?_ hkey)
        rw [hsource, hexternal, ← hwaits.sourceId]
        rfl
      subst heq
      exact ⟨hidle, rows, hb, hrow', Or.inr ⟨i, hget, hrec.asked i hi⟩⟩

/-- **An answered commit has its row after the pass.** -/
theorem answered_of_answeredIn {result : EnrichResult}
    (h : enrichCommitFiles commits source store pass = some (store', result))
    (hans : AnsweredIn commits source store pass row) :
    store'.commitFiles.get? row.endpoint ≠ none := by
  -- rcases hcase with hdirect |the row needs no call, or its call was answered and recorded
  obtain ⟨hidle, rows, hb, hrow, hcase⟩ := hans
  obtain ⟨fetched, hfetched, rfl⟩ := enrichCommitFiles_of_mem h hidle hb hrow
  have hwaits := waits_of_mem_batch hb hrow
  obtain ⟨files, hmem, hkey⟩ : ∃ files ∈ rows.filterMap (·.directFiles) ++
      fetched.records.filterMap (normalizeCommitFiles source.sourceId),
      (⟨files.sourceId, files.externalId⟩ : ItemEndpoint) = row.endpoint := by
    rcases hcase with hdirect | ⟨i, ⟨hget, hasked⟩, hans⟩
    · obtain ⟨state, hstate⟩ := Option.isSome_iff_exists.mp hdirect
      have hfiles : row.directFiles = some _ := congrArg (Option.map _) hstate
      exact ⟨_, List.mem_append_left _ (List.mem_filterMap.mpr ⟨row, hrow, hfiles⟩),
        directFiles_key hfiles⟩
    · obtain ⟨recorded, hrec⟩ := recorded_of_fetched hfetched
      have hlt : i < (pass.fetch source rows).candidates.length := by
        rw [FilePass.fetch, List.length_map]
        exact (List.getElem?_eq_some_iff.mp hget).1
      have hi := hrec.kept i hlt hasked hans
      have hactivity := CommitFilesFetch.recordOf_activity (pass.fetch source rows) i
      rw [candidate_fetch hget] at hactivity
      have hdirect := (mem_of_askedRows hget).2
      -- a row without a commit was answered directly, so this one names one
      have hsha : row.sha ≠ "" := by
        intro hempty
        unfold CommitActivity.direct at hdirect
        rw [if_pos hempty] at hdirect
        split at hdirect <;> cases hdirect
      have hnamed : ((pass.fetch source rows).recordOf i).payload.activity ≠ "" := by
        rw [hactivity.1]
        exact row.named
      have hkept : trim ((pass.fetch source rows).recordOf i).payload.sha ≠ "" := by
        rw [hactivity.2]
        exact (trim_trim _).trans_ne hsha
      obtain ⟨files, hfiles⟩ := exists_normalizeCommitFiles source.sourceId hnamed hkept
      obtain ⟨hsource, hexternal⟩ := normalizeCommitFiles_eq_some hfiles
      refine ⟨files, List.mem_append_right _ (List.mem_filterMap.mpr ⟨_, ?_, hfiles⟩), ?_⟩
      · rw [hrec.records]
        exact List.mem_map_of_mem hi
      · rw [hsource, hexternal, hactivity.1, ← hwaits.sourceId]
        rfl
  intro hnone
  simp only [enrichRows, CommitFilesStore.write, OrdMap.get?_foldl_set] at hnone
  have hempty := Option.map_eq_none_iff.mp (Option.or_eq_none_iff.mp hnone).1
  exact absurd (decide_eq_true hkey)
    (List.filter_eq_nil_iff.mp (List.getLast?_eq_none_iff.mp hempty) files hmem)

end Attempts

/-! ## No commit holds up the others -/

section Runs

variable (commits : CommitTable) (source : CommitFilesSource)

/-- The commits other than one that have no answer yet. -/
def unansweredBut (stuck : ItemEndpoint) (store : CommitFilesStore) : List CommitActivity :=
  commits.rows.filter fun row =>
    decide (row.endpoint ≠ stuck) && (store.commitFiles.get? row.endpoint).isNone

/-- In every pass at which a commit other than `stuck` waits, one of the
batch is answered. -/
def AnswersAnother (stuck : ItemEndpoint) : CommitFilesStore → List FilePass → Prop
  | _, [] => True
  | store, pass :: passes =>
    ((∃ row, row.endpoint ≠ stuck ∧ Waits commits source store pass row) →
      ∃ row, row.endpoint ≠ stuck ∧ AnsweredIn commits source store pass row) ∧
    ∀ r, enrichCommitFiles commits source store pass = some r → AnswersAnother stuck r.1 passes

/-- One of the passes attempts the commit. -/
def AttemptedDuring (row : CommitActivity) : CommitFilesStore → List FilePass → Prop
  | _, [] => False
  | store, pass :: passes =>
    Attempted commits source store pass row ∨
      ∃ r, enrichCommitFiles commits source store pass = some r ∧ AttemptedDuring row r.1 passes

variable {commits source} {store store' : CommitFilesStore} {pass : FilePass}
variable {stuck : ItemEndpoint} {row : CommitActivity}

theorem mem_unansweredBut :
    row ∈ unansweredBut commits stuck store ↔
      row ∈ commits.rows ∧ row.endpoint ≠ stuck ∧
        store.commitFiles.get? row.endpoint = none := by
  simp [unansweredBut, Option.isNone_iff_eq_none]

/-- A pass that answers another commit leaves fewer without an answer. -/
theorem length_unansweredBut_lt {result : EnrichResult}
    (h : enrichCommitFiles commits source store pass = some (store', result))
    (hrow : row.endpoint ≠ stuck) (hans : AnsweredIn commits source store pass row) :
    (unansweredBut commits stuck store').length < (unansweredBut commits stuck store).length := by
  have hsub : unansweredBut commits stuck store' =
      (unansweredBut commits stuck store).filter fun row =>
        (store'.commitFiles.get? row.endpoint).isNone := by
    unfold unansweredBut
    rw [List.filter_filter]
    refine List.filter_congr fun r _ => ?_
    rw [Bool.eq_iff_iff]
    simp only [Bool.and_eq_true, decide_eq_true_eq, Option.isNone_iff_eq_none]
    constructor
    · rintro ⟨hne, hnone⟩
      refine ⟨hnone, hne, ?_⟩
      by_contra hsome
      exact answered_mono h hsome hnone
    · rintro ⟨hnone, hne, -⟩
      exact ⟨hne, hnone⟩
  obtain ⟨-, rows, hb, hmem, -⟩ := id hans
  have hwaits := waits_of_mem_batch hb hmem
  rw [hsub]
  refine List.length_filter_lt_length_iff_exists.mpr
    ⟨row, mem_unansweredBut.mpr ⟨hwaits.mem, hrow, hwaits.unanswered⟩, ?_⟩
  rw [Option.isNone_iff_eq_none]
  exact answered_of_answeredIn h hans

/-- **No commit keeps another waiting.** A commit that stays in the window
is attempted after as many passes as there are commits without an answer. -/
theorem attemptedDuring {passes : List FilePass}
    (hrun : (enrichPasses commits source store passes).isSome = true)
    (hothers : AnswersAnother commits source stuck store passes)
    (hlong : (unansweredBut commits stuck store).length ≤ passes.length)
    (hrow : row ∈ commits.rows) (hsource : row.endpoint.sourceId = source.sourceId)
    (hpath : row.projectPath.isSome = true) (hne : row.endpoint ≠ stuck)
    (hnone : store.commitFiles.get? row.endpoint = none)
    (hwindow : ∀ pass ∈ passes, InWindow pass row) :
    AttemptedDuring commits source row store passes := by
  induction passes generalizing store with
  | nil =>
    have hpos := List.length_pos_of_mem (mem_unansweredBut.mpr ⟨hrow, hne, hnone⟩)
    exact absurd hlong (Nat.not_le_of_lt hpos)
  | cons pass passes ih =>
    obtain ⟨store'', hstore''⟩ := Option.isSome_iff_exists.mp hrun
    obtain ⟨⟨store', result⟩, hstep, hrest⟩ := Option.bind_eq_some_iff.mp hstore''
    have hwaits : Waits commits source store pass row :=
      ⟨hrow, hsource, hpath, hnone, hwindow pass List.mem_cons_self⟩
    obtain ⟨other, hother, hans⟩ := hothers.1 ⟨row, hne, hwaits⟩
    by_cases hafter : store'.commitFiles.get? row.endpoint = none
    · have hless := length_unansweredBut_lt hstep hother hans
      have hshort : (unansweredBut commits stuck store').length ≤ passes.length := by
        rw [List.length_cons] at hlong
        omega
      exact Or.inr ⟨(store', result), hstep,
        ih (Option.isSome_iff_exists.mpr ⟨store'', hrest⟩) (hothers.2 _ hstep) hshort hafter
          fun p hp => hwindow p (List.mem_cons_of_mem _ hp)⟩
    · exact Or.inl (attempted_of_answered hstep hrow hnone hafter)

end Runs

/-- **The queue makes progress and records nothing twice.** Whatever the
schedule, a pass over candidates comes to an end, and returns one record
each for some of them, for all of them if it did not stop, and for a failed
one only beside an answered one. And over the syncs of a fixed set of commits, as long as
every batch has an answer besides the one of `stuck`, each other commit in
the window is attempted. -/
theorem commitFiles_progress :
    (∀ (opts : CommitFilesFetch) (schedule : List PoolEvent) (result : CommitFilesFetchResult),
      fetchCommitFileRecords opts schedule = some result →
        ∃ recorded, CommitFilesFetch.Recorded opts schedule result recorded) ∧
    (∀ (opts : CommitFilesFetch) (started : List PoolEvent)
      (p : Pool FetchState (Option CommitFilesRecord)),
      Pool.run opts.task opts.candidates.length opts.workers CommitFilesFetch.start started =
          some p →
        started.length ≤ 2 * opts.candidates.length ∧
          ∃ rest result, fetchCommitFileRecords opts (started ++ rest) = some result) ∧
    (∀ (commits : CommitTable) (source : CommitFilesSource) (stuck : ItemEndpoint)
      (store : CommitFilesStore) (passes : List FilePass),
      (enrichPasses commits source store passes).isSome = true →
      AnswersAnother commits source stuck store passes →
      (unansweredBut commits stuck store).length ≤ passes.length →
      ∀ row ∈ commits.rows, row.endpoint.sourceId = source.sourceId →
        row.projectPath.isSome = true → row.endpoint ≠ stuck →
        store.commitFiles.get? row.endpoint = none → (∀ pass ∈ passes, InWindow pass row) →
        AttemptedDuring commits source row store passes) :=
  ⟨fun _ _ _ h => CommitFilesFetch.fetchCommitFileRecords_spec h,
    fun _ _ _ h =>
      ⟨CommitFilesFetch.length_started_le h, CommitFilesFetch.exists_fetchCommitFileRecords h⟩,
    fun _ _ _ _ _ hrun hothers hlong _ hrow hsource hpath hne hnone hwindow =>
      attemptedDuring hrun hothers hlong hrow hsource hpath hne hnone hwindow⟩

/-! ### Three commits, the newest unreadable -/

namespace UnreadableHead

/-- A source of one repository. -/
def source : CommitFilesSource :=
  { sourceId := ⟨"github:github.com", noBarGithub⟩
    fetchesCommitFiles := true
    allowed := fun path => path = "acme/app"
    apiVersion := "2022-11-28.rest"
    concurrency := 4 }

/-- A commit of that repository. -/
def commit (externalId : String) (named : externalId ≠ "") (occurredAt sha : String) :
    CommitActivity :=
  { endpoint := ⟨source.sourceId, externalId⟩
    named
    projectPath := some "acme/app"
    occurredAt
    details := some ⟨some sha, false⟩ }

/-- The commit only the second pass gets to. -/
def oldest : CommitActivity :=
  commit "commit:a" (by decide) "2026-02-28T10:00:00Z" "de9f2c7fd25e1b3afad3e85a0bd17d9b100db4b3"

/-- The commit the first pass reads. -/
def older : CommitActivity :=
  commit "commit:b" (by decide) "2026-03-01T10:00:00Z" "a94a8fe5ccb19ba61c4c0873d391e987982fbbd3"

/-- The commit that fails. -/
def newest : CommitActivity :=
  commit "commit:c" (by decide) "2026-03-02T10:00:00Z" "2fd4e1c67a2d28fced849ee1bb76e7391b93eb12"

/-- The three commits, the oldest first. -/
def commits : CommitTable := ⟨[oldest, older, newest], by decide⟩

/-- No commit has its files yet. -/
def store : CommitFilesStore := ⟨.empty, .empty⟩

/-- A pass for the two newest commits that wait. -/
def passOf (read : ℕ → CommitFilesOutcome) (schedule : List PoolEvent) : FilePass :=
  { startedAt := "2026-03-03T00:00:00.000Z"
    now := "2026-03-03T00:00:05.000Z"
    limit := 2
    lookbackMs := 31536000000
    dryRun := false
    read
    schedule }

/-- An answer without files. -/
def readable : CommitFilesOutcome := .ok (some ⟨[], false, some false⟩)

/-- The provider fails on the newest commit and reads the one before it. -/
def first : FilePass :=
  passOf (fun i => if i = 0 then .error ⟨some 500, false, "GET failed"⟩ else readable)
    [.take, .take, .settle 1, .settle 0]

/-- The next sync's pass gets to the oldest. -/
def next : FilePass := passOf (fun _ => readable) [.take, .settle 0]

/-- The time the passes look back to. -/
def bounds : ActivityRangeBounds :=
  { coarseFrom := "2025-03-01T00:00:00.000Z"
    coarseTo := "2025-03-05T00:00:00.000Z"
    fromIso := "2025-03-03T00:00:00.000Z"
    toIso := "2025-03-03T00:00:00.000Z" }

/-- The commits that wait for their files. -/
def waiting (s : CommitFilesStore) : List CommitActivity :=
  commits.rows.filter fun a =>
    decide (a.endpoint.sourceId = source.sourceId) && a.projectPath.isSome &&
      (s.commitFiles.get? a.endpoint).isNone && bounds.keepsSince a.occurredAt

/-- Both passes look back a year. -/
theorem times :
    (passOf (fun _ => readable) []).since = .ok bounds.fromIso ∧
      activityRangeBounds ⟨bounds.fromIso, bounds.fromIso⟩ = .ok bounds ∧
      bounds.keepsSince oldest.occurredAt = true := by
  decide +kernel

theorem since_passOf (read : ℕ → CommitFilesOutcome) (schedule : List PoolEvent) :
    (passOf read schedule).since = .ok bounds.fromIso := by
  have hsince : (passOf read schedule).since = (passOf (fun _ => readable) []).since := by
    simp only [FilePass.since, passOf]
  exact hsince.trans times.1

/-- The batch of a pass, from the commits that wait. -/
theorem batch_passOf (s : CommitFilesStore) (read : ℕ → CommitFilesOutcome)
    (schedule : List PoolEvent) :
    batch commits source s (passOf read schedule) =
      .ok ((newestFirst (·.occurredAt) (waiting s)).take 2) := by
  rw [batch, since_passOf]
  show listCommitFileCandidates commits s.commitFiles source.sourceId bounds.fromIso 2 = _
  rw [listCommitFileCandidates, if_neg (by decide), times.2.1]
  rfl

/-- What the first pass meets: all three commits wait, its calls settle, and
the second of its batch is asked for and answered. -/
theorem first_meets :
    waiting store = [oldest, older, newest] ∧
      newestFirst (·.occurredAt) [oldest, older, newest] = [newest, older, oldest] ∧
      (first.fetched source [newest, older]).isSome = true ∧
      (askedRows [newest, older])[1]? = some older ∧
      ((first.fetch source [newest, older]).answerOf 1).isSome = true :=
  ⟨by decide +kernel, newestFirst_of_pairwise (by decide +kernel), by decide +kernel,
    by decide +kernel, by decide +kernel⟩

theorem batch_first : batch commits source store first = .ok [newest, older] := by
  obtain ⟨hwaiting, hsorted, -⟩ := first_meets
  rw [first, batch_passOf, hwaiting, hsorted]
  rfl

/-- What the first pass is answered. -/
def fetched : CommitFilesFetchResult := (first.fetched source [newest, older]).getD ⟨[], none⟩

theorem fetched_first : first.fetched source [newest, older] = some fetched := by
  have hsome := first_meets.2.2.1
  rw [fetched, Option.getD_eq_iff.mpr (Or.inl (Option.some_get hsome).symm), Option.some_get]

/-- The store after the first pass. -/
def afterFirst : CommitFilesStore := (enrichRows source store first [newest, older] fetched).1

theorem enrichCommitFiles_first : enrichCommitFiles commits source store first =
    some (enrichRows source store first [newest, older] fetched) := by
  rw [enrichCommitFiles, show idle source first = false from rfl, if_neg Bool.false_ne_true,
    batch_first]
  dsimp only
  rw [if_neg (List.cons_ne_nil _ _), fetched_first]
  rfl

/-- What the next pass meets: the newest commit, which was written off, no
longer waits, and the oldest is asked for and answered. -/
theorem next_meets :
    waiting afterFirst = [oldest] ∧ (next.fetched source [oldest]).isSome = true ∧
      (askedRows [oldest])[0]? = some oldest ∧
      ((next.fetch source [oldest]).answerOf 0).isSome = true :=
  ⟨by decide +kernel, by decide +kernel, by decide +kernel, by decide +kernel⟩

theorem batch_next : batch commits source afterFirst next = .ok [oldest] := by
  have hsorted : newestFirst (·.occurredAt) [oldest] = [oldest] :=
    newestFirst_of_pairwise (List.pairwise_singleton _ _)
  rw [next, batch_passOf, next_meets.1, hsorted]
  rfl

theorem enrichPasses_two : (enrichPasses commits source store [first, next]).isSome = true := by
  have hfetched := next_meets.2.1
  obtain ⟨fetchedNext, hfetched⟩ := Option.isSome_iff_exists.mp hfetched
  have hstep : enrichCommitFiles commits source afterFirst next =
      some (enrichRows source afterFirst next [oldest] fetchedNext) := by
    rw [enrichCommitFiles, show idle source next = false from rfl, if_neg Bool.false_ne_true,
      batch_next]
    dsimp only
    rw [if_neg (List.cons_ne_nil _ _), hfetched]
    rfl
  rw [enrichPasses, enrichCommitFiles_first]
  show (enrichPasses commits source afterFirst [next]).isSome = true
  rw [enrichPasses, hstep]
  rfl

/-- An asked commit whose answer is not a failure. -/
theorem not_fails_of_isSome {opts : CommitFilesFetch} {i : ℕ}
    (h : (opts.answerOf i).isSome = true) : ¬ opts.Fails i := by
  intro hfails
  rw [show opts.answerOf i = none from hfails] at h
  cases h

theorem answeredIn_older : AnsweredIn commits source store first older := by
  obtain ⟨-, -, -, hasked, hanswer⟩ := first_meets
  exact ⟨rfl, _, batch_first, by decide,
    Or.inr ⟨1, ⟨hasked, Or.inr (by decide)⟩, not_fails_of_isSome hanswer⟩⟩

theorem answeredIn_oldest : AnsweredIn commits source afterFirst next oldest := by
  obtain ⟨-, -, hasked, hanswer⟩ := next_meets
  exact ⟨rfl, _, batch_next, by decide,
    Or.inr ⟨0, ⟨hasked, Or.inr (by decide)⟩, not_fails_of_isSome hanswer⟩⟩

/-- Each pass answers a commit besides the newest. -/
theorem answersAnother : AnswersAnother commits source newest.endpoint store [first, next] := by
  refine ⟨fun _ => ⟨older, by decide, answeredIn_older⟩, fun r hr => ?_⟩
  obtain rfl := Option.some.inj (enrichCommitFiles_first.symm.trans hr)
  exact ⟨fun _ => ⟨oldest, by decide, answeredIn_oldest⟩, fun _ _ => trivial⟩

end UnreadableHead

open UnreadableHead in
/-- The pass that the newest commit fails in can be finished, and the oldest
commit, which is not in its batch, is attempted in the next. -/
theorem commitFiles_progress_unreadableHead :
    (∃ recorded, CommitFilesFetch.Recorded (first.fetch source [newest, older]) first.schedule
      fetched recorded) ∧
    (∃ rest result, fetchCommitFileRecords (first.fetch source [newest, older])
      ([.take] ++ rest) = some result) ∧
    AttemptedDuring commits source oldest store [first, next] := by
  refine ⟨commitFiles_progress.1 _ _ _ fetched_first,
    (commitFiles_progress.2.1 _ [.take] _ rfl).2,
    commitFiles_progress.2.2 commits source newest.endpoint store [first, next] enrichPasses_two
      answersAnother (by decide) oldest (by decide) rfl rfl (by decide) rfl fun pass hpass => ?_⟩
  rcases List.mem_pair.mp hpass with rfl | rfl
  · exact ⟨_, _, since_passOf _ _, times.2.1, times.2.2⟩
  · exact ⟨_, _, since_passOf _ _, times.2.1, times.2.2⟩

end SymphonyBoard
