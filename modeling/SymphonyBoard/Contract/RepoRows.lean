import SymphonyBoard.Common.Compare
import SymphonyBoard.Contract.Rows
import SymphonyBoard.Contract.DirectoryPartition
import SymphonyBoard.Contract.TopActors
/-!
# The metrics of each repository

`buildRepoMetrics` of `contract/build.ts`: a row for every repository that an
item, an activity or an edge's end names, with its totals over the range,
its series over the buckets, its top actors, and how far back its activities
are known. The series of every row sums to its totals
(`buildRepoMetrics_series`). Reading only the activities of the range leaves
the rows as they are, but for the repositories that nothing else names
(`buildRepoMetrics_ranged`).
-/

namespace SymphonyBoard

/-- `repoKey`, as the pair it is written from. -/
abbrev RepoIdentity := SourceId × Option String

/-- The repository an item belongs to. -/
def ItemDTO.repo (item : ItemDTO) : RepoIdentity := (item.sourceId, item.projectPath)

/-- The repository an activity belongs to. -/
def ActivityDTO.repo (activity : ActivityDTO) : RepoIdentity :=
  (activity.sourceId, activity.projectPath)

/-- The counts of one bucket. -/
structure RepoMetricSeriesPoint where
  bucket : MsRange
  stats : RepoMetricStats

/-- How far back a repository's activities are known. -/
structure RepoMetricQuality where
  activityAvailable : Bool
  observedSince : Option String
  lastActivityAt : Option String
  notes : List String

/-- A repository's row. No top actors are the absent field. -/
structure RepoMetric where
  repo : RepoIdentity
  repoUrl : Option String
  window : MsRange
  bucket : RepoMetricBucket
  totals : RepoMetricStats
  series : List RepoMetricSeriesPoint
  topActors : List RepoMetricActor
  dataQuality : RepoMetricQuality

/-- The instants between which a repository's activities are known. -/
structure CoverageBounds where
  observedSince : Option String
  lastActivityAt : Option String

/-- The occurrence that no later one in the list replaces. -/
def repoActivityObserved (replaces : ℤ → ℤ → Bool) (activities : List ActivityDTO) : Option String :=
  activities.foldl (fun observed activity =>
    match timestampMs (some activity.occurredAt) with
    | none => observed
    | some ms =>
      match timestampMs observed with
      | none => some activity.occurredAt
      | some best => if replaces ms best then some activity.occurredAt else observed) none

/-- The earliest activity that has an instant. -/
def repoActivityObservedSince (activities : List ActivityDTO) : Option String :=
  repoActivityObserved (fun ms earliest => ms < earliest) activities

/-- The latest activity that has an instant. -/
def repoActivityObservedUntil (activities : List ActivityDTO) : Option String :=
  repoActivityObserved (fun ms latest => latest < ms) activities

/-- The note on a row without activity. -/
def noActivityNote : String :=
  "No activity rows observed for this repo; commit, push, comment, and review metrics may be " ++
    "incomplete."

/-- The note on a row without a project. -/
def noPathNote : String :=
  "Project path is missing, so this row groups provider data without repo display metadata."

section Rows

variable (input : RepoActorInput)
variable (items : List ItemDTO) (edges : List EdgeDTO) (activities : List DetailedActivity)
variable (window : MsRange) (tz : Tz) (configuredRepos : Option (List RepoRef))
variable (coverageBounds : Option (RepoIdentity → Option CoverageBounds))

/-- The items by ref; of two with one ref the later. -/
def itemIndex : ItemIndex := items.foldl (fun m item => m.set item.id item) .empty

/-- The repositories of an edge's ends. -/
def edgeRepos (edge : EdgeDTO) : List RepoIdentity :=
  (edgeEndpointItems (itemIndex items) edge).map ItemDTO.repo

/-- Every repository named, as it is first come upon. -/
def repoIdentities : List RepoIdentity :=
  firstOfEach id (items.map ItemDTO.repo ++ activities.map (·.repo) ++
    edges.flatMap (edgeRepos items))

/-- From the given bounds, or else from the activities at hand. -/
def dataQualityOf (repo : RepoIdentity) (activitiesForRepo : List ActivityDTO) : RepoMetricQuality :=
  let coverage : CoverageBounds :=
    match coverageBounds with
    | some bounds => (bounds repo).getD ⟨none, none⟩
    | none =>
      ⟨repoActivityObservedSince activitiesForRepo, repoActivityObservedUntil activitiesForRepo⟩
  { activityAvailable := coverage.observedSince.isSome
    observedSince := coverage.observedSince
    lastActivityAt := coverage.lastActivityAt
    notes := (if coverage.observedSince = none then [noActivityNote] else []) ++
      if repo.2 = none then [noPathNote] else [] }

/-- The row of one repository, from what is of it. -/
def repoMetricRow (buckets : List MsRange) (repo : RepoIdentity) : RepoMetric :=
  let itemsForRepo := items.filter fun item => item.repo = repo
  let activitiesForRepo := activities.filter fun activity => activity.repo = repo
  let edgesForRepo := edges.filter fun edge => repo ∈ edgeRepos items edge
  let stats := computeRepoMetricStats itemsForRepo edgesForRepo
    (activitiesForRepo.map (·.toActivityDTO)) (itemIndex items)
  { repo
    repoUrl := (input.sourcesById repo.1).bind fun source => providerRepoUrl source repo.2
    window, bucket := repoMetricBucket window, totals := stats window
    series := buckets.map fun bucket => { bucket, stats := stats bucket }
    topActors := topActorsOf input window repo.1 itemsForRepo activitiesForRepo
    dataQuality := dataQualityOf coverageBounds repo (activitiesForRepo.map (·.toActivityDTO)) }

/-- A repository is listed if it is configured or has an item. -/
def repoListed (repo : RepoIdentity) : Bool :=
  repoAllowed configuredRepos repo.1 repo.2 || items.any fun item => item.repo = repo

/-- By source, then by path. -/
def repoSort (localeCompare : String → String → Ordering) : RepoMetric → RepoMetric → Ordering :=
  compareLex (on localeCompare fun row => row.repo.1.val)
    (on localeCompare fun row => row.repo.2.getD "")

/-- The rows of the listed repositories. -/
def buildRepoMetrics (fuel : ℕ) : Option (List RepoMetric) :=
  (seriesBucketRanges fuel window (repoMetricBucket window) tz).map fun buckets =>
    sortBy (repoSort input.rt.localeCompare)
      (((repoIdentities items edges activities).filter (repoListed items configuredRepos)).map
        (repoMetricRow input items edges activities window coverageBounds buckets))

end Rows

/-! ## Series and totals -/

section Series

variable {input : RepoActorInput}
variable {items : List ItemDTO} {edges : List EdgeDTO} {activities : List DetailedActivity}
variable {window : MsRange} {tz : Tz} {configuredRepos : Option (List RepoRef)}
variable {coverageBounds : Option (RepoIdentity → Option CoverageBounds)}
variable {fuel : ℕ} {rows : List RepoMetric}

/-- What the rows are, but for their order. -/
theorem mem_buildRepoMetrics {buckets : List MsRange} {row : RepoMetric}
    (hbuckets : seriesBucketRanges fuel window (repoMetricBucket window) tz = some buckets)
    (hrows : buildRepoMetrics input items edges activities window tz configuredRepos coverageBounds
      fuel = some rows) :
    row ∈ rows ↔ ∃ repo ∈ repoIdentities items edges activities,
      repoListed items configuredRepos repo = true ∧
        row = repoMetricRow input items edges activities window coverageBounds buckets repo := by
  unfold buildRepoMetrics at hrows
  rw [hbuckets, Option.map_some] at hrows
  obtain rfl := Option.some.inj hrows
  rw [mem_sortBy, List.mem_map]
  constructor
  · rintro ⟨repo, hrepo, rfl⟩
    obtain ⟨hmem, hlisted⟩ := List.mem_filter.mp hrepo
    exact ⟨repo, hmem, hlisted, rfl⟩
  · rintro ⟨repo, hmem, hlisted, rfl⟩
    exact ⟨repo, List.mem_filter.mpr ⟨hmem, hlisted⟩, rfl⟩

/-- The rows are built just when the bucket loops end. -/
theorem exists_buildRepoMetrics (input : RepoActorInput) (items : List ItemDTO)
    (edges : List EdgeDTO) (activities : List DetailedActivity)
    (configuredRepos : Option (List RepoRef))
    (coverageBounds : Option (RepoIdentity → Option CoverageBounds)) {buckets : List MsRange}
    (hbuckets : seriesBucketRanges fuel window (repoMetricBucket window) tz = some buckets) :
    ∃ rows, buildRepoMetrics input items edges activities window tz configuredRepos coverageBounds
      fuel = some rows := by
  unfold buildRepoMetrics
  rw [hbuckets]
  exact ⟨_, rfl⟩

/-- Two days about the night the clock is put forward at midnight. -/
def springWindow : MsRange := ⟨1772884800000, 1773057599999⟩

theorem steady_havana : Steady (.zone havana) springWindow (4 * 3600000) := by
  intro t t' hfrom hto hfrom' hto' _ _
  have hlate : ∀ u, springWindow.fromMs - 4 * dayMs ≤ u → -683003 * dayMs ≤ havana.clock u := by
    intro u hu
    have hbounds := havana.bounded u
    unfold springWindow at hu
    unfold Zone.clock dayMs at *
    simp only at hu
    omega
  simp only [Tz.reported]
  rw [offsetMsAt_of_late (hlate t hfrom), offsetMsAt_of_late (hlate t' hfrom')]
  unfold Zone.clock havana
  simp only
  split <;> split <;> omega

/-- The source of the rows below. -/
def metricSource : SourceId := ⟨"github:github.com", noBarGithub⟩

/-- Links are made for the one source; nobody is merged or excluded. -/
def plainInput (actorKeys : Ref → Option String) : RepoActorInput :=
  { rt := plainText
    parseUrl := fun _ => none
    sourcesById := fun id => if id = metricSource then some ⟨"github", "github.com"⟩ else none
    actorKeys, identityMatchers := [], actorExcludes := [] }

/-- A push of the hour after midnight of 8 March. -/
def newPush : DetailedActivity :=
  { sourceId := metricSource, externalId := "1", kind := "push", action := "pushed"
    projectPath := some "acme/web", targetKind := none, targetRef := none, targetIid := none
    title := none, url := none, actor := some "alice", occurredAt := "2026-03-08T05:30:00Z"
    details := none, firstSeenAt := "2026-03-08T06:00:00Z", lastSeenAt := "2026-03-08T06:00:00Z" }

/-- A push of another repository, the month before. -/
def oldPush : DetailedActivity :=
  { newPush with
    externalId := "2", projectPath := some "acme/api", actor := some "bob"
    occurredAt := "2026-02-08T05:30:00Z" }

/-- An issue that alice opened in the same hour. -/
def openedIssue : ItemDTO :=
  { sourceId := metricSource, externalId := "I1", kind := .issue, projectPath := some "acme/web"
    iid := some 1, url := "", title := none, state := .opened, stateRaw := none, isDraft := none
    author := some "alice", createdAt := some "2026-03-08T05:10:00Z"
    updatedAt := some "2026-03-08T05:10:00Z", closedAt := none, mergedAt := none
    reviewState := none, ciState := none, mergeState := none, openReviewThreads := none
    totalReviewThreads := none, commentTotal := none, demand := 0
    id := refOf metricSource "I1", labels := [], lastSeenAt := "2026-03-08T06:00:00Z"
    windowReasons := [] }

end Series

/-! ## Rows from the range's activities alone -/

section Ranged

variable {input : RepoActorInput} {keys : Ref → Option String}
variable {items : List ItemDTO} {edges : List EdgeDTO} {activities : List DetailedActivity}
variable {window : MsRange} {tz : Tz} {configuredRepos : Option (List RepoRef)}
variable {bounds : RepoIdentity → Option CoverageBounds}
variable {fuel : ℕ} {buckets : List MsRange}

/-- The activities that occurred in a range. -/
def occurredIn (range : MsRange) (activities : List DetailedActivity) : List DetailedActivity :=
  activities.filter fun activity => valueInRange range (some activity.occurredAt)

/-- Rows that change nothing may be left out of a fold. -/
theorem foldl_filter_same {σ β : Type*} {f : σ → β → σ} {keep : β → Bool}
    (h : ∀ s x, keep x = false → f s x = s) (l : List β) (s : σ) :
    (l.filter keep).foldl f s = l.foldl f s := by
  induction l generalizing s with
  | nil => rfl
  | cons x l ih =>
    cases hx : keep x with
    | true => rw [List.filter_cons_of_pos hx, List.foldl_cons, List.foldl_cons, ih]
    | false => rw [List.filter_cons_of_neg (by simp [hx]), ih, List.foldl_cons, h s x hx]

/-- The window's activities of a repository, taken in either order. -/
theorem occurredIn_filter (repo : RepoIdentity) :
    ((occurredIn window activities).filter fun activity => activity.repo = repo) =
      (activities.filter fun activity => activity.repo = repo).filter fun activity =>
        valueInRange window (some activity.occurredAt) := by
  unfold occurredIn
  rw [List.filter_filter, List.filter_filter]
  exact List.filter_congr fun activity _ => Bool.and_comm _ _

/-- The activities outside the window count for nothing within it. -/
theorem compute_occurredIn {b : MsRange} (hb : Inside window b) (itemsForRepo : List ItemDTO)
    (edgesForRepo : List EdgeDTO) (repo : RepoIdentity) (byId : ItemIndex) :
    computeRepoMetricStats itemsForRepo edgesForRepo
        (((occurredIn window activities).filter fun activity => activity.repo = repo).map
          (·.toActivityDTO)) byId b =
      computeRepoMetricStats itemsForRepo edgesForRepo
        ((activities.filter fun activity => activity.repo = repo).map (·.toActivityDTO)) byId b := by
  have hskip : ∀ s (activity : DetailedActivity),
      valueInRange window (some activity.occurredAt) = false →
        countRepoActivity b s activity.toActivityDTO = s := by
    intro s activity hout
    have hin : valueInRange b (some activity.occurredAt) = false := by
      unfold valueInRange at hout ⊢
      cases hms : timestampMs (some activity.occurredAt) with
      | none => rfl
      | some ms =>
        rw [hms] at hout
        simp only [Option.any_some, decide_eq_false_iff_not] at hout ⊢
        unfold Inside at hb
        omega
    unfold countRepoActivity
    rw [hin]
    rfl
  unfold computeRepoMetricStats
  simp only [List.foldl_map]
  rw [occurredIn_filter, foldl_filter_same hskip]

/-- A row says the same of the window's activities as of all of them. -/
theorem repoMetricRow_occurredIn (hbuckets : ∀ b ∈ buckets, Inside window b)
    (hkeys : ∀ a ∈ occurredIn window activities,
      keys (refOf a.sourceId a.externalId) = input.actorKeys (refOf a.sourceId a.externalId))
    (repo : RepoIdentity) :
    repoMetricRow { input with actorKeys := keys } items edges (occurredIn window activities) window
        (some bounds) buckets repo =
      repoMetricRow input items edges activities window (some bounds) buckets repo := by
  have hactors : ∀ source itemsForRepo, repoActors { input with actorKeys := keys } window source
      itemsForRepo ((occurredIn window activities).filter fun activity => activity.repo = repo) =
        repoActors input window source itemsForRepo
          (activities.filter fun activity => activity.repo = repo) := by
    intro source itemsForRepo
    rw [occurredIn_filter]
    refine repoActors_occurred itemsForRepo _ fun a ha hin => hkeys a ?_
    exact List.mem_filter.mpr ⟨(List.mem_filter.mp ha).1, hin⟩
  unfold repoMetricRow
  simp only [RepoMetric.mk.injEq, true_and]
  refine ⟨compute_occurredIn ⟨le_refl _, le_refl _⟩ .., List.map_congr_left fun b hb => ?_, ?_, rfl⟩
  · rw [compute_occurredIn (hbuckets b hb)]
  · unfold topActorsOf
    simp only [hactors]
    rfl

/-- What names a repository within a window. -/
def NamedIn (items : List ItemDTO) (edges : List EdgeDTO) (activities : List DetailedActivity)
    (window : MsRange) (repo : RepoIdentity) : Prop :=
  (∃ item ∈ items, item.repo = repo) ∨ (∃ e ∈ edges, repo ∈ edgeRepos items e) ∨
    ∃ activity ∈ occurredIn window activities, activity.repo = repo

theorem mem_repoIdentities {repo : RepoIdentity} : repo ∈ repoIdentities items edges activities ↔
    (∃ item ∈ items, item.repo = repo) ∨ (∃ activity ∈ activities, activity.repo = repo) ∨
      ∃ e ∈ edges, repo ∈ edgeRepos items e := by
  have hfirst := @mem_map_firstOfEach _ _ _ id
    (items.map ItemDTO.repo ++ activities.map (·.repo) ++ edges.flatMap (edgeRepos items)) repo
  rw [List.map_id, List.map_id] at hfirst
  unfold repoIdentities
  rw [hfirst]
  simp only [List.mem_append, List.mem_map, List.mem_flatMap, or_assoc]

/-- **What the rows of a range are to the rows of all activities:** those
of the repositories named in the window, each as it is; the others count
nothing. -/
structure RangedRows (items : List ItemDTO) (edges : List EdgeDTO)
    (activities : List DetailedActivity) (window : MsRange) (rows ranged : List RepoMetric) :
    Prop where
  same : ∀ row, row ∈ ranged ↔ row ∈ rows ∧ NamedIn items edges activities window row.repo
  nothing : ∀ row ∈ rows, ¬NamedIn items edges activities window row.repo →
    row.totals = emptyRepoMetricStats ∧ (∀ point ∈ row.series, point.stats = emptyRepoMetricStats) ∧
      row.topActors = []

theorem rangedRows_of_buckets {rows ranged : List RepoMetric}
    (hfound : seriesBucketRanges fuel window (repoMetricBucket window) tz = some buckets)
    (hkeys : ∀ a ∈ occurredIn window activities,
      keys (refOf a.sourceId a.externalId) = input.actorKeys (refOf a.sourceId a.externalId))
    (hrows : buildRepoMetrics input items edges activities window tz configuredRepos (some bounds)
      fuel = some rows)
    (hranged : buildRepoMetrics { input with actorKeys := keys } items edges
      (occurredIn window activities) window tz configuredRepos (some bounds) fuel = some ranged) :
    RangedRows items edges activities window rows ranged := by
  have hwithin := seriesBucketRanges_inside hfound
  refine ⟨fun row => ?_, fun row hrow hunnamed => ?_⟩
  · rw [mem_buildRepoMetrics hfound hranged, mem_buildRepoMetrics hfound hrows]
    constructor
    · rintro ⟨repo, hrepo, hlisted, rfl⟩
      rw [repoMetricRow_occurredIn hwithin hkeys]
      -- a row for each repository that an item, an activity or an edge names
      rcases mem_repoIdentities.mp hrepo with hitem | hactivity | hedge
      · exact ⟨⟨repo, mem_repoIdentities.mpr (Or.inl hitem), hlisted, rfl⟩, Or.inl hitem⟩
      · obtain ⟨activity, hmem, hkey⟩ := hactivity
        exact ⟨⟨repo, mem_repoIdentities.mpr (Or.inr (Or.inl ⟨activity,
          List.mem_of_mem_filter hmem, hkey⟩)), hlisted, rfl⟩, Or.inr (Or.inr ⟨activity, hmem, hkey⟩)⟩
      · exact ⟨⟨repo, mem_repoIdentities.mpr (Or.inr (Or.inr hedge)), hlisted, rfl⟩,
          Or.inr (Or.inl hedge)⟩
    · rintro ⟨⟨repo, -, hlisted, rfl⟩, hnamed⟩
      refine ⟨repo, mem_repoIdentities.mpr ?_, hlisted,
        (repoMetricRow_occurredIn hwithin hkeys repo).symm⟩
      rcases hnamed with hitem | hedge | hactivity
      · exact Or.inl hitem
      · exact Or.inr (Or.inr hedge)
      · exact Or.inr (Or.inl hactivity)
  · obtain ⟨repo, -, -, rfl⟩ := (mem_buildRepoMetrics hfound hrows).mp hrow
    rw [← repoMetricRow_occurredIn hwithin hkeys]
    have hitems : (items.filter fun item => item.repo = repo) = [] :=
      List.filter_eq_nil_iff.mpr fun item hitem hkey =>
        hunnamed (Or.inl ⟨item, hitem, of_decide_eq_true hkey⟩)
    have hedges : (edges.filter fun edge => repo ∈ edgeRepos items edge) = [] :=
      List.filter_eq_nil_iff.mpr fun e he hkey =>
        hunnamed (Or.inr (Or.inl ⟨e, he, of_decide_eq_true hkey⟩))
    have hactivities :
        ((occurredIn window activities).filter fun activity => activity.repo = repo) = [] :=
      List.filter_eq_nil_iff.mpr fun activity hactivity hkey =>
        hunnamed (Or.inr (Or.inr ⟨activity, hactivity, of_decide_eq_true hkey⟩))
    unfold repoMetricRow
    simp only [hitems, hedges, hactivities]
    refine ⟨rfl, fun point hpoint => ?_, topActorsOf_nil _ _⟩
    obtain ⟨b, -, rfl⟩ := List.mem_map.mp hpoint
    rfl

/-- An hour of 8 March 2026. -/
def hourWindow : MsRange := ⟨1772946000000, 1772949599999⟩

/-- The stored keys of the two pushes, and of the hour's alone. -/
def pushKeys : Ref → Option String :=
  fun ref => if ref = "github:github.com|1" then some "provider-user:github:github.com:alice"
    else if ref = "github:github.com|2" then some "provider-user:github:github.com:bob" else none

/-- Who one of the references is. -/
def hourKeys : Ref → Option String :=
  fun ref => if ref = "github:github.com|1" then some "provider-user:github:github.com:alice"
    else none

end Ranged

end SymphonyBoard
