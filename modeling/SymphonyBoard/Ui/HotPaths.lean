import Mathlib.Data.List.Perm.Basic
import SymphonyBoard.Common.FirstRows
import SymphonyBoard.Contract.CommitFileStats
/-!
# Hot paths

`hotPaths` of `packages/ui/src/rail-stats.ts`: the producer's lists of the
repositories on screen, ranked again, and cut to the rows there is room
for. The producer breaks a tie of commits and changed lines by path, in
code units; the ranking breaks it by the row's key, as `localeCompare`
orders texts.

`hotPaths_isFirst_iff` says when the rows are a first `limit` of all paths
of those repositories, counted one by one: where every path that the
producer's cut leaves out has enough kept ones before it.
-/

namespace SymphonyBoard

/-- A row of the panel. -/
structure HotPath where
  key : String
  path : String
  sourceId : SourceId
  projectPath : String
  commits : ℕ
  additions : ℕ
  deletions : ℕ
  authors : ℕ
  shas : List String
deriving DecidableEq

/-- What the panel shows. -/
structure HotPaths where
  rows : List HotPath
  commits : ℕ
  scanned : ℕ
  files : ℕ
  truncated : ℕ
  repos : ℕ

/-- The rows shown of each kind. -/
def HotKind.cap : HotKind → ℕ
  | files => commitFileTopFiles
  | dirs => commitFileTopDirs

/-- The list of a repository's statistics a kind reads. -/
def RepoCommitFileStats.tops (repo : RepoCommitFileStats) : HotKind → List CommitFileStatEntry
  | .files => repo.topFiles
  | .dirs => repo.topDirs

/-- The row of an entry. -/
def hotPath (sourceId : SourceId) (projectPath : String) (entry : CommitFileStatEntry) : HotPath :=
  { key := sourceId.val ++ "|" ++ projectPath ++ "|" ++ entry.path
    path := entry.path
    sourceId
    projectPath
    commits := entry.commits
    additions := entry.additions
    deletions := entry.deletions
    authors := entry.authors
    shas := entry.shas }

/-- The consumer's order: most commits, most lines changed, then by key. -/
def hotOrder (localeCompare : String → String → Ordering) : HotPath → HotPath → Ordering :=
  compareLex (countOrder (·.commits) fun r => r.additions + r.deletions) (on localeCompare (·.key))

instance transCmp_topOrder : Std.TransCmp topOrder := by
  unfold topOrder countOrder
  infer_instance

theorem countOrder_eq_iff {α : Type} {commits lines : α → ℕ} {a b : α} :
    countOrder commits lines a b = .eq ↔ commits a = commits b ∧ lines a = lines b := by
  unfold countOrder compareLex on
  rw [Ordering.then_eq_eq, compare_eq_iff_eq, compare_eq_iff_eq]
  exact and_congr eq_comm eq_comm

instance transCmp_hotOrder (localeCompare : String → String → Ordering)
    [Std.TransCmp localeCompare] : Std.TransCmp (hotOrder localeCompare) := by
  unfold hotOrder countOrder
  infer_instance

/-- A repository is on screen; no set stands for all. -/
def onScreen (repoKeys : Option (List String)) (sourceId : SourceId) (projectPath : String) : Bool :=
  repoKeys.all fun keys => sourceId.val ++ "|" ++ projectPath ∈ keys

/-- No aggregate yields no paths; a limit of zero is none. -/
def hotPaths (localeCompare : String → String → Ordering)
    (stats : Option (List RepoCommitFileStats)) (repoKeys : Option (List String)) (kind : HotKind)
    (limit : ℕ) : Option HotPaths :=
  stats.map fun repos =>
    let shown := repos.filter fun repo => onScreen repoKeys repo.sourceId repo.projectPath
    let rows := sortBy (hotOrder localeCompare) (shown.flatMap fun repo =>
      (repo.tops kind).map (hotPath repo.sourceId repo.projectPath))
    { rows := if limit > 0 then rows.take limit else rows
      commits := (shown.map (·.commits)).sum
      scanned := (shown.map (·.scanned)).sum
      files := (shown.map (·.files)).sum
      truncated := (shown.map (·.truncated)).sum
      repos := shown.length }

/-! ## All paths, counted one by one -/

section

variable (actorKeys : Ref → Option String) (rows : List CommitFilesRow)
  (activities : List FileStatActivity) (repoKeys : Option (List String)) (kind : HotKind)

/-- The repositories on screen, each with its first commit. -/
def shownRepos : List (String × FileStatActivity) :=
  (firstOfEach repoKey (repoCommits activities)).filter fun c =>
    onScreen repoKeys c.2.sourceId c.1

/-- The paths of a repository, each counted over its commits. -/
def countedPaths (first : String × FileStatActivity) : List CommitFileStatEntry :=
  let commits := (commitsOf activities (repoKey first)).map Prod.snd
  (touchedPaths rows kind commits).map fun path =>
    entryOf (path, countPath actorKeys rows kind commits path)

/-- The rows of the repositories shown, before they are ranked. -/
def rowsOf (entries : (String × FileStatActivity) → List CommitFileStatEntry) : List HotPath :=
  (shownRepos activities repoKeys).flatMap fun first =>
    (entries first).map (hotPath first.2.sourceId first.1)

/-- All paths of the repositories on screen. -/
def allPaths : List HotPath :=
  rowsOf activities repoKeys (countedPaths actorKeys rows activities kind)

/-- The paths that are among the first of their repository, by the
producer's order. -/
def keptPaths : List HotPath :=
  rowsOf activities repoKeys fun first =>
    (sortBy topOrder (countedPaths actorKeys rows activities kind first)).take kind.cap

/-- The paths that are not. -/
def cutPaths : List HotPath :=
  rowsOf activities repoKeys fun first =>
    (sortBy topOrder (countedPaths actorKeys rows activities kind first)).drop kind.cap

variable {actorKeys rows activities repoKeys kind}

theorem allPaths_perm :
    (allPaths actorKeys rows activities repoKeys kind).Perm
      (keptPaths actorKeys rows activities repoKeys kind ++
        cutPaths actorKeys rows activities repoKeys kind) := by
  refine .trans (List.Perm.flatMap_left _ fun first _ => ?_) (List.flatMap_append_perm _ _ _).symm
  rw [← List.map_append, List.take_append_drop]
  exact (sortBy_perm _ _).symm.map _

/-- Where something is cut, as many as the producer keeps are kept. -/
theorem cap_le_of_cut (h : cutPaths actorKeys rows activities repoKeys kind ≠ []) :
    kind.cap ≤ (keptPaths actorKeys rows activities repoKeys kind).length := by
  obtain ⟨row, hrow⟩ := List.exists_mem_of_ne_nil _ h
  obtain ⟨first, hfirst, hcut⟩ := List.mem_flatMap.mp hrow
  obtain ⟨before, after, hsplit⟩ := List.append_of_mem hfirst
  have hlong : kind.cap <
      (sortBy topOrder (countedPaths actorKeys rows activities kind first)).length := by
    have hpos := List.length_pos_of_mem hcut
    rw [List.length_map, List.length_drop] at hpos
    omega
  rw [keptPaths, rowsOf, hsplit, List.flatMap_append, List.flatMap_cons, List.length_append,
    List.length_append, List.length_map, List.length_take]
  omega

theorem tops_repoStats (repo : RepoTally) :
    (repoStats repo).tops kind = top (repo.tallies kind) kind.cap := by
  cases kind <;> rfl

theorem tops_countRepo (first : String × FileStatActivity) :
    (repoStats (countRepo actorKeys rows activities first)).tops kind =
      (sortBy topOrder (countedPaths actorKeys rows activities kind first)).take kind.cap := by
  rw [tops_repoStats, top, repoTally_entries, List.map_map]
  rfl

/-- **The rows ranked are the producer's kept paths.** -/
theorem hotPaths_rows (localeCompare : String → String → Ordering) {limit : ℕ}
    (hlimit : 0 < limit) :
    ∃ hot kept, hotPaths localeCompare
        (some (buildCommitFileStats actorKeys rows localeCompare activities)) repoKeys kind limit =
          some hot ∧
      kept.Perm (keptPaths actorKeys rows activities repoKeys kind) ∧
      hot.rows = (sortBy (hotOrder localeCompare) kept).take limit := by
  refine ⟨_, _, rfl, ?_, if_pos hlimit⟩
  have hstats := (sortBy_perm (repoOrder localeCompare)
    (repoTallies actorKeys rows activities).values).map repoStats
  refine ((hstats.filter _).flatMap_right _).trans (.of_eq ?_)
  have hrepo (first : String × FileStatActivity) := @countRepo_repo actorKeys rows activities first
  have hshown : (firstOfEach repoKey (repoCommits activities)).filter
      ((fun repo : RepoCommitFileStats => onScreen repoKeys repo.sourceId repo.projectPath) ∘
        (repoStats ∘ countRepo actorKeys rows activities)) = shownRepos activities repoKeys :=
    List.filter_congr fun first _ =>
      congrArg₂ (onScreen repoKeys) (hrepo first).1 (hrepo first).2
  rw [repoTallies_values, List.map_map, List.filter_map, List.flatMap_map, hshown]
  refine List.flatMap_congr fun first _ => ?_
  rw [Function.comp_apply, tops_countRepo]
  exact congrArg (List.map · _) (congrArg₂ hotPath (hrepo first).1 (hrepo first).2)

/-- **The rows are a first `limit` of all paths counted one by one** exactly
when every path the producer cuts has `limit` kept ones that do not come
after it. -/
theorem hotPaths_isFirst_iff (actorKeys : Ref → Option String) (rows : List CommitFilesRow)
    (activities : List FileStatActivity) (repoKeys : Option (List String)) (kind : HotKind)
    (localeCompare : String → String → Ordering) [Std.TransCmp localeCompare] {limit : ℕ}
    (hlimit : 0 < limit) (hcap : limit ≤ kind.cap) :
    ∃ hot, hotPaths localeCompare
        (some (buildCommitFileStats actorKeys rows localeCompare activities)) repoKeys kind limit =
          some hot ∧
      (IsFirst (hotOrder localeCompare) limit (allPaths actorKeys rows activities repoKeys kind)
          hot.rows ↔
        ∀ cut ∈ cutPaths actorKeys rows activities repoKeys kind,
          limit ≤ (keptPaths actorKeys rows activities repoKeys kind).countP fun kept =>
            (hotOrder localeCompare kept cut).isLE) := by
  obtain ⟨hot, kept, hhot, hkept, hrows⟩ :=
    @hotPaths_rows actorKeys rows activities repoKeys kind localeCompare limit hlimit
  refine ⟨hot, hhot, ?_⟩
  have hall : (allPaths actorKeys rows activities repoKeys kind).Perm
      (kept ++ cutPaths actorKeys rows activities repoKeys kind) :=
    allPaths_perm.trans (hkept.symm.append_right _)
  have hroom (hcut : cutPaths actorKeys rows activities repoKeys kind ≠ []) :
      limit ≤ kept.length := hkept.length_eq ▸ Nat.le_trans hcap (cap_le_of_cut hcut)
  rw [hrows, isFirst_take_sortBy_iff hall hroom]
  simp only [hkept.countP_eq]

end

/-- No tie at a cut is turned round: of a repository's kept paths, those
that tie with a cut one in commits and changed lines have keys at or before
its key. -/
theorem le_countP_of_ties (actorKeys : Ref → Option String) (rows : List CommitFilesRow)
    (activities : List FileStatActivity) (repoKeys : Option (List String)) (kind : HotKind)
    (localeCompare : String → String → Ordering)
    (h : ∀ cut ∈ cutPaths actorKeys rows activities repoKeys kind,
      ∀ kept ∈ keptPaths actorKeys rows activities repoKeys kind,
        kept.sourceId = cut.sourceId → kept.projectPath = cut.projectPath →
        kept.commits = cut.commits →
        kept.additions + kept.deletions = cut.additions + cut.deletions →
        (localeCompare kept.key cut.key).isLE) {limit : ℕ} (hcap : limit ≤ kind.cap) :
    ∀ cut ∈ cutPaths actorKeys rows activities repoKeys kind,
      limit ≤ (keptPaths actorKeys rows activities repoKeys kind).countP fun kept =>
        (hotOrder localeCompare kept cut).isLE := by
  intro cut hcut
  obtain ⟨first, hfirst, hrow⟩ := List.mem_flatMap.mp hcut
  obtain ⟨entry, hentry, rfl⟩ := List.mem_map.mp hrow
  set ranked := sortBy topOrder (countedPaths actorKeys rows activities kind first) with hranked
  have hentry : entry ∈ ranked.drop kind.cap := hentry
  have hlength : (ranked.take kind.cap).length = kind.cap := by
    have hpos := List.length_pos_of_mem hentry
    rw [List.length_drop] at hpos
    rw [List.length_take]
    omega
  have hbefore : ∀ e ∈ ranked.take kind.cap, (topOrder e entry).isLE := by
    have hsorted : ranked.Pairwise fun a b => (topOrder a b).isLE = true := pairwise_sortBy _
    rw [← List.take_append_drop kind.cap ranked, List.pairwise_append] at hsorted
    exact fun e he => hsorted.2.2 e he entry hentry
  set segment := (ranked.take kind.cap).map (hotPath first.2.sourceId first.1) with hsegment
  have hpart : segment.Sublist (keptPaths actorKeys rows activities repoKeys kind) := by
    obtain ⟨before, after, hsplit⟩ := List.append_of_mem hfirst
    rw [keptPaths, rowsOf, hsplit, List.flatMap_append, List.flatMap_cons]
    exact (List.sublist_append_left _ _).trans (List.sublist_append_right _ _)
  have hall : ∀ kept ∈ segment,
      (hotOrder localeCompare kept (hotPath first.2.sourceId first.1 entry)).isLE := by
    intro kept hkept
    have hmem := hpart.subset hkept
    obtain ⟨e, he, rfl⟩ := List.mem_map.mp hkept
    have hle := hbefore e he
    unfold topOrder compareLex at hle
    unfold hotOrder compareLex
    have hcounts : countOrder (·.commits) (fun r : HotPath => r.additions + r.deletions)
        (hotPath first.2.sourceId first.1 e) (hotPath first.2.sourceId first.1 entry) =
        countOrder (·.commits) (fun e => e.additions + e.deletions) e entry := rfl
    rw [hcounts]
    cases hcount : countOrder (·.commits) (fun e => e.additions + e.deletions) e entry with
    | lt => rfl
    | gt =>
      rw [hcount] at hle
      cases hle
    | eq =>
      -- a tie, which the keys decide as they decide it for the producer
      obtain ⟨hcommits, hlines⟩ := countOrder_eq_iff.mp hcount
      exact h _ hcut _ hmem rfl rfl hcommits hlines
  calc limit ≤ kind.cap := hcap
    _ = segment.countP fun kept =>
        (hotOrder localeCompare kept (hotPath first.2.sourceId first.1 entry)).isLE := by
      rw [List.countP_eq_length.mpr hall, hsegment, List.length_map, hlength]
    _ ≤ _ := hpart.countP_le

/-! ## A directory that sorts elsewhere -/

namespace LowerCaseDirectory

/-- Letters without case, as `localeCompare` has them on the keys below. -/
def foldOrder : String → String → Ordering :=
  on unitOrder fun s => String.ofList (s.toList.map Char.toLower)

theorem noBar_gh : '|' ∉ "gh".toList := by decide

/-- A GitHub source. -/
def source : SourceId := ⟨"gh", noBar_gh⟩

/-- A commit of the repository. -/
def commit : FileStatActivity :=
  { sourceId := source
    externalId := "C1"
    kind := "commit"
    action := "pushed"
    projectPath := some "o/r"
    targetKind := none
    targetRef := none
    targetIid := none
    title := none
    actor := some "ann"
    occurredAt := "2026-06-01T00:00:00Z"
    merge := false
    detailsSha := some "0123456789abcdef0123456789abcdef01234567" }

/-- Twelve directories in capitals, and one that is not. -/
def dirs : List String := ["B", "C", "D", "E", "F", "G", "H", "I", "J", "K", "L", "M", "a"]

/-- The stored files of the commit. -/
def row : CommitFilesRow :=
  { files :=
      { sourceId := source
        externalId := "C1"
        projectPath := some "o/r"
        sha := "0123456789abcdef0123456789abcdef01234567"
        state := .ok
        truncated := false
        files := dirs.map fun d => ⟨d ++ "/x", .modified, 1, 0⟩ }
    fetchedAt := "2026-06-01T00:00:00Z" }

instance : Std.TransCmp foldOrder := by
  unfold foldOrder
  infer_instance

/-- No kept directory comes before the cut one. -/
theorem exists_cut : ∃ cut ∈ cutPaths (fun _ => none) [row] [commit] none .dirs,
    ((keptPaths (fun _ => none) [row] [commit] none .dirs).countP fun kept =>
      (hotOrder foldOrder kept cut).isLE) = 0 := by
  simp only [cutPaths, keptPaths, sortBy_eq_insertionSort]
  decide +kernel

/-- **The rows are not the first of all**: the directory in small letters
comes first, and the producer cut it. -/
theorem not_isFirst :
    ¬∀ (localeCompare : String → String → Ordering) [Std.TransCmp localeCompare]
      (actorKeys : Ref → Option String) (rows : List CommitFilesRow)
      (activities : List FileStatActivity) (repoKeys : Option (List String)) (kind : HotKind)
      (limit : ℕ) (hot : HotPaths), (activities.map FileStatActivity.ref).Nodup → 0 < limit →
      limit ≤ kind.cap →
      hotPaths localeCompare
        (some (buildCommitFileStats actorKeys rows localeCompare activities)) repoKeys kind limit =
          some hot →
      IsFirst (hotOrder localeCompare) limit (allPaths actorKeys rows activities repoKeys kind)
        hot.rows := by
  intro h
  obtain ⟨hot, kept, hhot, hkept, hrows⟩ :=
    @hotPaths_rows (fun _ => none) [row] [commit] none .dirs foldOrder 1 (by decide)
  have hfirst := h foldOrder (fun _ => none) [row] [commit] none .dirs 1 hot (by decide) (by decide)
    (by decide) hhot
  have hall := allPaths_perm.trans (hkept.symm.append_right
    (cutPaths (fun _ => none) [row] [commit] none .dirs))
  obtain ⟨cut, hcut, hnone⟩ := exists_cut
  have hroom : cutPaths (fun _ => none) [row] [commit] none .dirs ≠ [] → 1 ≤ kept.length :=
    fun hne => hkept.length_eq ▸ Nat.le_trans (by decide) (cap_le_of_cut hne)
  rw [hrows, isFirst_take_sortBy_iff hall hroom] at hfirst
  have hcount := hfirst cut hcut
  rw [hkept.countP_eq, hnone] at hcount
  exact absurd hcount (by decide)

/-- The exact condition, on the same commit. -/
theorem isFirst_iff :
    ∃ hot, hotPaths foldOrder (some (buildCommitFileStats (fun _ => none) [row] foldOrder [commit]))
        none .dirs 1 = some hot ∧
      (IsFirst (hotOrder foldOrder) 1 (allPaths (fun _ => none) [row] [commit] none .dirs)
          hot.rows ↔
        ∀ cut ∈ cutPaths (fun _ => none) [row] [commit] none .dirs,
          1 ≤ (keptPaths (fun _ => none) [row] [commit] none .dirs).countP fun kept =>
            (hotOrder foldOrder kept cut).isLE) :=
  hotPaths_isFirst_iff _ _ _ _ _ foldOrder (by decide) (by decide)

end LowerCaseDirectory

end SymphonyBoard
