import SymphonyBoard.Common.Compare
import SymphonyBoard.Common.Keyed
import SymphonyBoard.Common.Markup
import SymphonyBoard.Contract.Types
import SymphonyBoard.Db.ActivityRange
import SymphonyBoard.Shared.Text
/-!
# The files and directories changed most

`buildCommitFileStats` of `src/contract/commit-files.ts`: the emitted
commits with their file rows, tallied by repository, and in each by file
and by directory. The producer keeps the first twenty files and the first
twelve directories of a repository.

The tallies are maps that grow commit by commit. `repoTally_entries` says
what they come to: every path the commits of the repository touched, with
the tally of its touches.
-/

namespace SymphonyBoard

/-! ## Commits and their files -/

/-- An activity, with what its details say of a commit. -/
structure FileStatActivity extends ActivityDTO where
  merge : Bool
  detailsSha : Option String
deriving DecidableEq

/-- A changed file, with its lines. -/
structure StoredFile where
  path : String
  additions : ℕ
  deletions : ℕ
deriving DecidableEq

/-- What a row's files are read back as. -/
def storedFiles (files : List CanonicalCommitFile) : List StoredFile :=
  (files.filter (·.path ≠ "")).map fun f => ⟨f.path, f.additions, f.deletions⟩

/-- The first two segments of a path, or fewer when it is shallower. -/
def commitFileDirectory (path : String) : String :=
  let parts := ((path.toList.splitOn '/').filter (· ≠ [])).map String.ofList
  let dirs := parts.take (min 2 (parts.length - 1))
  if dirs = [] then "./" else String.intercalate "/" dirs ++ "/"

/-- `COMMIT_FILE_TOP_FILES` -/
def commitFileTopFiles : ℕ := 20

/-- `COMMIT_FILE_TOP_DIRS` -/
def commitFileTopDirs : ℕ := 12

/-- `COMMIT_FILE_SHA_LIMIT` -/
def commitFileShaLimit : ℕ := 100

/-- How many characters of a sha are kept. -/
def shaPrefix : ℕ := 12

/-! ## Tallies -/

/-- One commit's touch of a path. -/
structure Touch where
  additions : ℕ
  deletions : ℕ
  author : Option String
  sha : Option String
deriving DecidableEq

/-- What is counted for one path. -/
@[ext]
structure Tally where
  commits : ℕ
  additions : ℕ
  deletions : ℕ
  authors : List String
  shas : List String
deriving DecidableEq

/-- Nothing counted. -/
def emptyTally : Tally := ⟨0, 0, 0, [], []⟩

/-- `Set.add`. -/
def addAuthor (authors : List String) (author : String) : List String :=
  if author ∈ authors then authors else authors ++ [author]

/-- One more sha, while there is room. -/
def addSha (shas : List String) (sha : String) : List String :=
  if shas.length < commitFileShaLimit then shas ++ [sha] else shas

/-- A commit that touches the path. -/
def addCommit (tally : Tally) (t : Touch) : Tally :=
  { commits := tally.commits + 1
    additions := tally.additions + t.additions
    deletions := tally.deletions + t.deletions
    authors := (nonEmpty t.author).elim tally.authors (addAuthor tally.authors)
    shas := (nonEmpty t.sha).elim tally.shas (addSha tally.shas) }

/-- The counts by path. -/
abbrev Tallies := OrdMap String Tally

/-- A touch of a path in its tally, which is made if there is none. -/
def addTouch (tallies : Tallies) (touched : String × Touch) : Tallies :=
  tallies.upsert touched.1 fun old => addCommit (old.getD emptyTally) touched.2

/-- A repository's commits, and its counts by file and by directory. -/
structure RepoTally where
  sourceId : SourceId
  projectPath : String
  commits : ℕ
  scanned : ℕ
  truncated : ℕ
  files : Tallies
  dirs : Tallies

/-- A row of the top files or directories. -/
structure CommitFileStatEntry where
  path : String
  commits : ℕ
  additions : ℕ
  deletions : ℕ
  authors : ℕ
  shas : List String
deriving DecidableEq

/-- The statistics of a repository. -/
structure RepoCommitFileStats where
  sourceId : SourceId
  projectPath : String
  commits : ℕ
  scanned : ℕ
  truncated : ℕ
  files : ℕ
  topFiles : List CommitFileStatEntry
  topDirs : List CommitFileStatEntry
deriving DecidableEq

/-- `<` on JavaScript strings: by code units. -/
def unitOrder : String → String → Ordering :=
  on (compare : List ℕ → List ℕ → Ordering) fun s => (utf16 s).map (·.toNat)

instance transCmp_unitOrder : Std.TransCmp unitOrder := by
  unfold unitOrder
  infer_instance

theorem eq_of_unitOrder {a b : String} (h : unitOrder a b = .eq) : a = b := by
  have hunits : (utf16 a).map (·.toNat) = (utf16 b).map (·.toNat) := Std.LawfulEqCmp.eq_of_compare h
  exact utf16_injective (List.map_injective_iff.mpr (fun _ _ h => UInt16.toNat_inj.mp h) hunits)

/-- Most commits first, then most lines changed. -/
def countOrder {α : Type} (commits lines : α → ℕ) : α → α → Ordering :=
  compareLex (on (fun a b : ℕ => compare b a) commits) (on (fun a b : ℕ => compare b a) lines)

/-- The producer's order: then by path. -/
def topOrder : CommitFileStatEntry → CommitFileStatEntry → Ordering :=
  compareLex (countOrder (·.commits) fun e => e.additions + e.deletions) (on unitOrder (·.path))

/-- The row of a path. -/
def entryOf (b : String × Tally) : CommitFileStatEntry :=
  ⟨b.1, b.2.commits, b.2.additions, b.2.deletions, b.2.authors.length, b.2.shas⟩

/-- Sorted, and cut off. -/
def top (tallies : Tallies) (limit : ℕ) : List CommitFileStatEntry :=
  (sortBy topOrder (tallies.entries.map entryOf)).take limit

section

variable (actorKeys : Ref → Option String) (rows : List CommitFilesRow)

/-- The row of a commit: of several, the last one with a file list. -/
def rowsByRef : OrdMap Ref CommitFilesRow :=
  OrdMap.index (fun row => refOf row.files.sourceId row.files.externalId)
    (rows.filter (·.files.state = .ok))

/-- The key an activity's author is looked up by. -/
def FileStatActivity.ref (activity : FileStatActivity) : Ref :=
  refOf activity.sourceId activity.externalId

/-- The repository of a commit that counts: a merge commit does not. -/
def FileStatActivity.repo (activity : FileStatActivity) : Option String :=
  if activity.kind = "commit" ∧ ¬activity.merge then nonEmpty activity.projectPath else none

/-- The author: the identity's key, or the raw name. -/
def authorOf (activity : FileStatActivity) : Option String :=
  (actorKeys activity.ref).or (nonEmpty (activity.actor.map trim))

/-- The start of the commit's sha, if it has one. -/
def shaOf (activity : FileStatActivity) (row : CommitFilesRow) : Option String :=
  (nonEmpty (some (activity.detailsSha.getD row.files.sha))).map fun sha =>
    String.ofList (sha.toList.take shaPrefix)

/-- A path listed twice in one commit is one touch of that file. -/
def CommitFilesRow.listing (row : CommitFilesRow) : List StoredFile :=
  firstOfEach (·.path) (storedFiles row.files.files)

/-- The files a commit touches. -/
def fileTouches (author sha : Option String) (files : List StoredFile) : List (String × Touch) :=
  files.map fun f => (f.path, ⟨f.additions, f.deletions, author, sha⟩)

/-- A directory counts a commit once, however many of its files it
touched. -/
def dirTotals (files : List StoredFile) : OrdMap String (ℕ × ℕ) :=
  files.foldl
    (fun totals f =>
      totals.upsert (commitFileDirectory f.path) fun old =>
        let (additions, deletions) := old.getD (0, 0)
        (additions + f.additions, deletions + f.deletions))
    .empty

/-- The directories a commit touches, each once. -/
def dirTouches (author sha : Option String) (files : List StoredFile) : List (String × Touch) :=
  (dirTotals files).entries.map fun b => (b.1, ⟨b.2.1, b.2.2, author, sha⟩)

/-- One commit into the tally of its repository. -/
def addActivity (activity : FileStatActivity) (repo : RepoTally) : RepoTally :=
  let repo := { repo with commits := repo.commits + 1 }
  match (rowsByRef rows).get? activity.ref with
  | none => repo
  | some row =>
    let author := authorOf actorKeys activity
    let sha := shaOf activity row
    { repo with
      scanned := repo.scanned + 1
      truncated := if row.files.truncated then repo.truncated + 1 else repo.truncated
      files := (fileTouches author sha row.listing).foldl addTouch repo.files
      dirs := (dirTouches author sha row.listing).foldl addTouch repo.dirs }

/-- A repository before its first commit. -/
def newRepoTally (activity : FileStatActivity) (projectPath : String) : RepoTally :=
  ⟨activity.sourceId, projectPath, 0, 0, 0, .empty, .empty⟩

/-- The commits that count, with their repositories. -/
def repoCommits (activities : List FileStatActivity) : List (String × FileStatActivity) :=
  activities.filterMap fun a => a.repo.map fun projectPath => (projectPath, a)

/-- The key of a commit's repository. -/
def repoKey (commit : String × FileStatActivity) : Ref := refOf commit.2.sourceId commit.1

/-- The repositories, in the order their commits come. -/
def repoTallies (activities : List FileStatActivity) : OrdMap Ref RepoTally :=
  (repoCommits activities).foldl
    (fun repos commit =>
      repos.upsert (repoKey commit) fun old =>
        addActivity actorKeys rows commit.2 (old.getD (newRepoTally commit.2 commit.1)))
    .empty

/-- By source, then by path. -/
def repoOrder (localeCompare : String → String → Ordering) : RepoTally → RepoTally → Ordering :=
  compareLex (on localeCompare (·.sourceId.val)) (on localeCompare (·.projectPath))

/-- What is published of a repository. -/
def repoStats (repo : RepoTally) : RepoCommitFileStats :=
  { sourceId := repo.sourceId
    projectPath := repo.projectPath
    commits := repo.commits
    scanned := repo.scanned
    truncated := repo.truncated
    files := repo.files.entries.length
    topFiles := top repo.files commitFileTopFiles
    topDirs := top repo.dirs commitFileTopDirs }

/-- The statistics of all repositories, ordered. -/
def buildCommitFileStats (localeCompare : String → String → Ordering)
    (activities : List FileStatActivity) : List RepoCommitFileStats :=
  (sortBy (repoOrder localeCompare) (repoTallies actorKeys rows activities).values).map repoStats

/-! ## The counts, one path at a time -/

/-- What is counted: files, or the directories they roll up to. -/
inductive HotKind
  | files
  | dirs
deriving DecidableEq, Repr

/-- The path of a file, or its directory. -/
def HotKind.pathOf : HotKind → StoredFile → String
  | files, f => f.path
  | dirs, f => commitFileDirectory f.path

/-- The row of a commit, looked for. -/
def rowOf (ref : Ref) : Option CommitFilesRow :=
  (rows.filter fun row =>
    row.files.state = .ok && refOf row.files.sourceId row.files.externalId = ref).getLast?

/-- How a commit touched a path: the lines of its files there, the first
listing of each. -/
def touchOf (kind : HotKind) (path : String) (activity : FileStatActivity) : Option Touch :=
  (rowOf rows activity.ref).bind fun row =>
    let files := row.listing.filter fun f => kind.pathOf f = path
    if files = [] then none
    else
      some ⟨(files.map (·.additions)).sum, (files.map (·.deletions)).sum,
        authorOf actorKeys activity, shaOf activity row⟩

/-- The paths of a commit, each once. -/
def pathsOf (kind : HotKind) (activity : FileStatActivity) : List String :=
  (rowOf rows activity.ref).elim [] fun row => firstOfEach id (row.listing.map kind.pathOf)

/-- The paths of some commits, each once. -/
def touchedPaths (kind : HotKind) (commits : List FileStatActivity) : List String :=
  firstOfEach id (commits.flatMap (pathsOf rows kind))

/-- The count of touches. -/
def tallyOf (touches : List Touch) : Tally :=
  { commits := touches.length
    additions := (touches.map (·.additions)).sum
    deletions := (touches.map (·.deletions)).sum
    authors := firstOfEach id (touches.filterMap fun t => nonEmpty t.author)
    shas := (touches.filterMap fun t => nonEmpty t.sha).take commitFileShaLimit }

/-- A path counted over some commits. -/
def countPath (kind : HotKind) (commits : List FileStatActivity) (path : String) : Tally :=
  tallyOf (commits.filterMap (touchOf actorKeys rows kind path))

/-! ## The tallies come to the counts -/

theorem addAuthor_distinct (authors : List String) (author : String) :
    addAuthor (firstOfEach id authors) author = firstOfEach id (authors ++ [author]) := by
  have hmem : author ∈ firstOfEach id authors ↔ id author ∈ authors.map id := by
    have h := @mem_map_firstOfEach _ _ _ id authors author
    rwa [List.map_id] at h
  rw [addAuthor, firstOfEach_concat]
  simp only [hmem]

theorem addSha_take (shas : List String) (sha : String) :
    addSha (shas.take commitFileShaLimit) sha = (shas ++ [sha]).take commitFileShaLimit := by
  rw [addSha, List.length_take]
  by_cases hshort : shas.length < commitFileShaLimit
  · rw [if_pos (by omega), List.take_of_length_le hshort.le, List.take_of_length_le]
    rw [List.length_append]
    exact hshort
  · rw [if_neg (by omega), List.take_append_of_le_length (by omega)]

theorem foldl_addCommit (touches : List Touch) :
    touches.foldl addCommit emptyTally = tallyOf touches := by
  induction touches using List.reverseRecOn with
  | nil => rfl
  | append_singleton touches t ih =>
    have hauthors : (addCommit (tallyOf touches) t).authors =
        (tallyOf (touches ++ [t])).authors := by
      rw [addCommit, tallyOf, tallyOf, List.filterMap_append]
      cases hauthor : nonEmpty t.author with
      | none => simp [hauthor]
      | some author => simp [hauthor, addAuthor_distinct]
    have hshas : (addCommit (tallyOf touches) t).shas = (tallyOf (touches ++ [t])).shas := by
      rw [addCommit, tallyOf, tallyOf, List.filterMap_append]
      cases hsha : nonEmpty t.sha with
      | none => simp [hsha]
      | some sha => simp [hsha, addSha_take]
    have hcounts : (tallyOf touches).additions + t.additions =
          (tallyOf (touches ++ [t])).additions ∧
        (tallyOf touches).deletions + t.deletions = (tallyOf (touches ++ [t])).deletions := by
      simp [tallyOf]
    have hcommits : (tallyOf touches).commits + 1 = (tallyOf (touches ++ [t])).commits := by
      simp [tallyOf]
    rw [List.foldl_append, List.foldl_cons, List.foldl_nil, ih]
    exact Tally.ext hcommits hcounts.1 hcounts.2 hauthors hshas

/-- The touches of one commit, as they are added. -/
def commitTouches (kind : HotKind) (activity : FileStatActivity) : List (String × Touch) :=
  ((rowsByRef rows).get? activity.ref).elim [] fun row =>
    let author := authorOf actorKeys activity
    let sha := shaOf activity row
    match kind with
    | .files => fileTouches author sha row.listing
    | .dirs => dirTouches author sha row.listing

/-- The counts of the kind. -/
def RepoTally.tallies (repo : RepoTally) : HotKind → Tallies
  | .files => repo.files
  | .dirs => repo.dirs

variable {actorKeys rows}

theorem rowsByRef_get? (ref : Ref) : (rowsByRef rows).get? ref = rowOf rows ref := by
  rw [rowsByRef, OrdMap.get?_index, List.filter_filter, rowOf]
  exact congrArg List.getLast? (List.filter_congr fun row _ => Bool.and_comm _ _)

theorem tallies_foldl (kind : HotKind) (commits : List (String × FileStatActivity))
    (repo : RepoTally) :
    (commits.foldl (fun r c => addActivity actorKeys rows c.2 r) repo).tallies kind =
      ((commits.map Prod.snd).flatMap (commitTouches actorKeys rows kind)).foldl addTouch
        (repo.tallies kind) := by
  induction commits generalizing repo with
  | nil => rfl
  | cons c commits ih =>
    rw [List.foldl_cons, ih, List.map_cons, List.flatMap_cons, List.foldl_append]
    congr 1
    unfold addActivity commitTouches
    cases (rowsByRef rows).get? c.2.ref with
    | none => cases kind <;> rfl
    | some row => cases kind <;> rfl

/-! ### One commit -/

theorem nodup_listing (row : CommitFilesRow) : (row.listing.map (·.path)).Nodup :=
  nodup_firstOfEach _

theorem fileTouches_filter {author sha : Option String} (row : CommitFilesRow) (path : String) :
    ((fileTouches author sha row.listing).filter (·.1 = path)).map Prod.snd =
      let files := row.listing.filter fun f => f.path = path
      (if files = [] then none
        else some ⟨(files.map (·.additions)).sum, (files.map (·.deletions)).sum,
          author, sha⟩ : Option Touch).toList := by
  obtain ⟨o, ho⟩ := filter_key_of_nodup (nodup_listing row) path
  have hfilter : (fileTouches author sha row.listing).filter (·.1 = path) =
      fileTouches author sha o.toList := by
    rw [fileTouches, List.filter_map, ← ho]
    rfl
  rw [hfilter, ho]
  cases o with
  | none => rfl
  | some f => simp [fileTouches]

/-- A loop of sums. -/
theorem foldl_sums (files : List StoredFile) :
    files.foldl (fun o f => some ((o.getD (0, 0)).1 + f.additions, (o.getD (0, 0)).2 + f.deletions))
      (none : Option (ℕ × ℕ)) =
      if files = [] then none
      else some ((files.map (·.additions)).sum, (files.map (·.deletions)).sum) := by
  induction files using List.reverseRecOn with
  | nil => rfl
  | append_singleton files f ih =>
    rw [List.foldl_append, ih]
    by_cases hnil : files = []
    · simp [hnil]
    · simp [hnil]

theorem dirTotals_get? (files : List StoredFile) (dir : String) :
    (dirTotals files).get? dir =
      let there := files.filter fun f => commitFileDirectory f.path = dir
      if there = [] then none
      else some ((there.map (·.additions)).sum, (there.map (·.deletions)).sum) := by
  have h := OrdMap.get?_foldl_upsert (fun f : StoredFile => commitFileDirectory f.path)
    (fun f old => ((old.getD (0, 0)).1 + f.additions, (old.getD (0, 0)).2 + f.deletions))
    files OrdMap.empty dir
  rw [OrdMap.get?_empty, foldl_sums] at h
  exact h

/-- **A commit touches a path as counted.** -/
theorem commitTouches_filter (kind : HotKind) (path : String) (activity : FileStatActivity) :
    ((commitTouches actorKeys rows kind activity).filter (·.1 = path)).map Prod.snd =
      (touchOf actorKeys rows kind path activity).toList := by
  rw [commitTouches, touchOf, rowsByRef_get?]
  cases rowOf rows activity.ref with
  | none => rfl
  | some row =>
    cases kind with
    | files => exact fileTouches_filter row path
    | dirs =>
      have h := OrdMap.filter_flatMap_entries (dirTotals row.listing)
        (fun b => [(⟨b.2.1, b.2.2, authorOf actorKeys activity, shaOf activity row⟩ : Touch)]) path
      rw [dirTotals_get?] at h
      have htouches : dirTouches (authorOf actorKeys activity) (shaOf activity row) row.listing =
          (dirTotals row.listing).entries.flatMap fun b =>
            [(⟨b.2.1, b.2.2, authorOf actorKeys activity, shaOf activity row⟩ : Touch)].map
              fun x => (b.1, x) := List.map_eq_flatMap
      have hthere : row.listing.filter (fun f => HotKind.dirs.pathOf f = path) =
          row.listing.filter fun f => commitFileDirectory f.path = path := rfl
      simp only [Option.elim_some, Option.bind_some, htouches]
      rw [h, hthere]
      simp only
      generalize row.listing.filter (fun f => commitFileDirectory f.path = path) = there
      cases there <;> rfl

theorem map_fst_commitTouches (kind : HotKind) (activity : FileStatActivity) :
    (commitTouches actorKeys rows kind activity).map Prod.fst = pathsOf rows kind activity := by
  rw [commitTouches, pathsOf, rowsByRef_get?]
  cases rowOf rows activity.ref with
  | none => rfl
  | some row =>
    simp only [Option.elim_some]
    cases kind with
    | files =>
      have hnodup : ((row.listing.map (·.path)).map id).Nodup := by
        rw [List.map_id]
        exact nodup_listing row
      rw [fileTouches, List.map_map, show HotKind.files.pathOf = fun f : StoredFile => f.path from rfl,
        firstOfEach_of_nodup hnodup]
      rfl
    | dirs =>
      have hkeys := OrdMap.keys_foldl_upsert (fun f : StoredFile => commitFileDirectory f.path)
        (fun f (old : Option (ℕ × ℕ)) =>
          ((old.getD (0, 0)).1 + f.additions, (old.getD (0, 0)).2 + f.deletions)) row.listing
      rw [dirTouches, List.map_map]
      exact hkeys.trans (map_firstOfEach _)

theorem flatMap_commitTouches_filter (kind : HotKind) (path : String)
    (commits : List FileStatActivity) :
    ((commits.flatMap (commitTouches actorKeys rows kind)).filter (·.1 = path)).map Prod.snd =
      commits.filterMap (touchOf actorKeys rows kind path) := by
  induction commits with
  | nil => rfl
  | cons a commits ih =>
    rw [List.flatMap_cons, List.filter_append, List.map_append, ih, commitTouches_filter,
      List.filterMap_cons]
    cases touchOf actorKeys rows kind path a <;> rfl

/-- A loop of touches. -/
theorem foldl_touches {touched : List (String × Touch)} (h : touched ≠ []) :
    touched.foldl (fun o x => some (addCommit (o.getD emptyTally) x.2)) none =
      some (tallyOf (touched.map Prod.snd)) := by
  induction touched using List.reverseRecOn with
  | nil => exact absurd rfl h
  | append_singleton touched x ih =>
    rw [List.foldl_append, ← foldl_addCommit, List.map_append, List.foldl_append, foldl_addCommit]
    by_cases hnil : touched = []
    · subst hnil
      rfl
    · rw [ih hnil]
      rfl

/-- **The tallies of a repository are the counts of its commits**, path by
path. -/
theorem foldl_addTouch_entries (kind : HotKind) (commits : List FileStatActivity) :
    ((commits.flatMap (commitTouches actorKeys rows kind)).foldl addTouch .empty).entries =
      (touchedPaths rows kind commits).map fun path =>
        (path, countPath actorKeys rows kind commits path) := by
  set touched := commits.flatMap (commitTouches actorKeys rows kind) with htouched
  have hget : ∀ x ∈ touched, (touched.foldl addTouch .empty).get? x.1 =
      some (countPath actorKeys rows kind commits x.1) := by
    intro x hx
    have hloop := OrdMap.get?_foldl_upsert Prod.fst
      (fun (x : String × Touch) old => addCommit (old.getD emptyTally) x.2) touched OrdMap.empty x.1
    have hmem : x ∈ touched.filter fun y => y.1 = x.1 :=
      List.mem_filter.mpr ⟨hx, decide_eq_true rfl⟩
    rw [OrdMap.get?_empty, foldl_touches (List.ne_nil_of_mem hmem), htouched,
      flatMap_commitTouches_filter] at hloop
    exact hloop
  have hentries := @OrdMap.entries_foldl_upsert _ _ _ _ Prod.fst
    (fun (x : String × Touch) old => addCommit (old.getD emptyTally) x.2) _ _
    fun x hx => hget x ((firstOfEach_sublist _).subset hx)
  have hpaths : (firstOfEach Prod.fst touched).map Prod.fst = touchedPaths rows kind commits := by
    rw [map_firstOfEach, htouched, List.map_flatMap, touchedPaths]
    exact congrArg (firstOfEach id)
      (congrArg (List.flatMap · commits) (funext fun a => map_fst_commitTouches kind a))
  rw [← hpaths, List.map_map]
  exact hentries

/-! ### All repositories -/

/-- The commits of a repository. -/
def commitsOf (activities : List FileStatActivity) (repo : Ref) : List (String × FileStatActivity) :=
  (repoCommits activities).filter fun c => repoKey c = repo

/-- The tally of a repository, from its commits. -/
def countRepo (actorKeys : Ref → Option String) (rows : List CommitFilesRow)
    (activities : List FileStatActivity) (first : String × FileStatActivity) : RepoTally :=
  (commitsOf activities (repoKey first)).foldl
    (fun r c => addActivity actorKeys rows c.2 r) (newRepoTally first.2 first.1)

/-- A loop of commits, from the first one of the repository. -/
theorem foldl_addActivity {commits : List (String × FileStatActivity)}
    {first : String × FileStatActivity} (h : commits.head? = some first) :
    commits.foldl (fun o c => some (addActivity actorKeys rows c.2
      (o.getD (newRepoTally c.2 c.1)))) none =
      some (commits.foldl (fun r c => addActivity actorKeys rows c.2 r)
        (newRepoTally first.2 first.1)) := by
  obtain ⟨rest, rfl⟩ := List.head?_eq_some_iff.mp h
  have hloop (rest : List (String × FileStatActivity)) (r : RepoTally) :
      rest.foldl (fun o c => some (addActivity actorKeys rows c.2
        (o.getD (newRepoTally c.2 c.1)))) (some r) =
        some (rest.foldl (fun r c => addActivity actorKeys rows c.2 r) r) := by
    induction rest generalizing r with
    | nil => rfl
    | cons c rest ih => exact ih _
  exact hloop rest _

/-- **The repositories are those of the commits**, each with the tally of
its own. -/
theorem repoTallies_values (activities : List FileStatActivity) :
    (repoTallies actorKeys rows activities).values =
      (firstOfEach repoKey (repoCommits activities)).map
        (countRepo actorKeys rows activities) := by
  have hget : ∀ first ∈ firstOfEach repoKey (repoCommits activities),
      (repoTallies actorKeys rows activities).get? (repoKey first) =
        some (countRepo actorKeys rows activities first) := by
    intro first hfirst
    have hloop := OrdMap.get?_foldl_upsert repoKey
      (fun (c : String × FileStatActivity) old => addActivity actorKeys rows c.2
        (old.getD (newRepoTally c.2 c.1))) (repoCommits activities) OrdMap.empty (repoKey first)
    rw [OrdMap.get?_empty, foldl_addActivity (head?_filter_of_mem_firstOfEach hfirst)] at hloop
    exact hloop
  have hentries := @OrdMap.entries_foldl_upsert _ _ _ _ repoKey
    (fun (c : String × FileStatActivity) old => addActivity actorKeys rows c.2
      (old.getD (newRepoTally c.2 c.1))) _ _ hget
  have hvalues := congrArg (List.map Prod.snd) hentries
  rw [List.map_map] at hvalues
  exact hvalues

theorem addActivity_repo (activity : FileStatActivity) (r : RepoTally) :
    (addActivity actorKeys rows activity r).sourceId = r.sourceId ∧
      (addActivity actorKeys rows activity r).projectPath = r.projectPath := by
  unfold addActivity
  cases (rowsByRef rows).get? activity.ref <;> exact ⟨rfl, rfl⟩

theorem countRepo_repo (activities : List FileStatActivity) (first : String × FileStatActivity) :
    (countRepo actorKeys rows activities first).sourceId = first.2.sourceId ∧
      (countRepo actorKeys rows activities first).projectPath = first.1 := by
  have hloop (commits : List (String × FileStatActivity)) (r : RepoTally) :
      (commits.foldl (fun r c => addActivity actorKeys rows c.2 r) r).sourceId = r.sourceId ∧
        (commits.foldl (fun r c => addActivity actorKeys rows c.2 r) r).projectPath =
          r.projectPath := by
    induction commits generalizing r with
    | nil => exact ⟨rfl, rfl⟩
    | cons c commits ih =>
      obtain ⟨hsource, hproject⟩ := ih (addActivity actorKeys rows c.2 r)
      obtain ⟨hsource', hproject'⟩ := @addActivity_repo actorKeys rows c.2 r
      exact ⟨hsource.trans hsource', hproject.trans hproject'⟩
  exact hloop _ _

/-- **The entries of a repository's tallies** are its touched paths, each
with its count. -/
theorem repoTally_entries (kind : HotKind) (activities : List FileStatActivity)
    (first : String × FileStatActivity) :
    ((countRepo actorKeys rows activities first).tallies kind).entries =
      (touchedPaths rows kind ((commitsOf activities (repoKey first)).map Prod.snd)).map
        fun path => (path, countPath actorKeys rows kind
          ((commitsOf activities (repoKey first)).map Prod.snd) path) := by
  rw [countRepo, tallies_foldl, ← foldl_addTouch_entries]
  cases kind <;> rfl

end

end SymphonyBoard
