import SymphonyBoard.Contract.ActorDirectory
import SymphonyBoard.Contract.Projection
import SymphonyBoard.Contract.RepoMetrics
import SymphonyBoard.Shared.ProviderLinks
/-!
# The top actors of a repository

The `top_actors` of `buildRepoMetrics` in `contract/build.ts`: the loops
that count the range's items and activities count them for their actors
too, the identities are applied, the bots dropped, and the busiest five
stay. `topActors_spec` says what the five are. An activity outside the range
is counted for nobody (`repoActors_occurred`).
-/

namespace SymphonyBoard

/-- What the actors and the links of the metric rows are made with. The
actor keys are those stored with the activities, by ref. -/
structure RepoActorInput where
  rt : TextRuntime
  parseUrl : String → Option ParsedUrl
  sourcesById : SourceId → Option ProviderLinkSource
  actorKeys : Ref → Option String
  identityMatchers : List IdentityMatcher
  actorExcludes : List (String → Bool)

/-- An emitted actor. No aliases and no link are absent fields. -/
structure RepoMetricActor where
  actor : String
  actorKey : String
  displayName : String
  aliases : List String
  profileUrl : Option String
  activities : ℕ
  commits : ℕ
  itemsOpened : ℕ
  changeRequestsMerged : ℕ

/-- `MAX_REPO_METRIC_ACTORS` -/
def maxRepoMetricActors : ℕ := 5

section Count

variable (input : RepoActorInput) (range : MsRange)

/-- The actors of an item: its author opened it, and merged it. -/
def recordItemActor (actors : ActorMap) (item : ItemDTO) : ActorMap :=
  let itemActorKey := deriveActorKey input.rt ⟨item.sourceId.val, item.author, none, none⟩
  let actors :=
    if valueInRange range item.createdAt then
      recordActor actors itemActorKey item.author none
        (fun acc => { acc with itemsOpened := acc.itemsOpened + 1 }) fun _ => rfl
    else actors
  if item.kind = .changeRequest ∧ valueInRange range item.mergedAt = true then
    recordActor actors itemActorKey item.author none
      (fun acc => { acc with changeRequestsMerged := acc.changeRequestsMerged + 1 }) fun _ => rfl
  else actors

/-- The page of an actor, as the activity shows it. -/
def activityActorProfileUrl (source : Option ProviderLinkSource) (activity : DetailedActivity) :
    Option String :=
  source.bind fun source =>
    providerObservedProfileUrl input.rt.toLowerCase input.parseUrl source
      (activity.details.bind (·.field? "actor_profile_url"))

/-- The actor of an activity, by the stored key. -/
def recordActivityActor (source : Option ProviderLinkSource) (actors : ActorMap)
    (activity : DetailedActivity) : ActorMap :=
  if valueInRange range (some activity.occurredAt) then
    recordActor actors (input.actorKeys (refOf activity.sourceId activity.externalId))
      activity.actor (activityActorProfileUrl input source activity)
      (fun acc => { acc with
        activities := acc.activities + 1
        commits := if isCommitActivity activity.toActivityDTO then acc.commits + 1
          else acc.commits }) fun _ => rfl
  else actors

/-- What `computeRepoMetricStats` counts for the actors, in the loops it
counts the totals in. -/
def repoActors (source : Option ProviderLinkSource) (items : List ItemDTO)
    (activities : List DetailedActivity) : ActorMap :=
  activities.foldl (recordActivityActor input range source)
    (items.foldl (recordItemActor input range) ActorMap.empty)

end Count

section Top

variable (input : RepoActorInput)

/-- The link most often observed. -/
def chooseObservedProfileUrl (acc : ActorAccumulator) : Option String :=
  ((sortBy (compareLex (fun a b : String × ℕ => compare b.2 a.2)
    (on input.rt.localeCompare Prod.fst)) acc.profileUrls.entries).head?).map Prod.fst

/-- `excludeBots`: the actors that are neither bots nor excluded. -/
def excludeBots (actors : ActorMap) : List ActorAccumulator :=
  actors.values.filter fun acc =>
    !(isAutoBot acc.key || isExcludedActor input.rt acc input.actorExcludes)

/-- An actor's row; its username is that of its key, or one observed. -/
def toRepoMetricActor (source : Option ProviderLinkSource) (acc : ActorAccumulator) :
    RepoMetricActor :=
  let names := chooseDisplayName input.rt acc
  let username := (usernameOfKey acc.key).or acc.username
  { actor := names.1
    actorKey := acc.key
    displayName := names.1
    aliases := names.2
    profileUrl := nonEmpty ((chooseObservedProfileUrl input acc).or
      (source.bind fun source => providerProfileUrl source username))
    activities := acc.activities
    commits := acc.commits
    itemsOpened := acc.itemsOpened
    changeRequestsMerged := acc.changeRequestsMerged }

/-- The busiest first. -/
def compareTopActors : RepoMetricActor → RepoMetricActor → Ordering :=
  let most (count : RepoMetricActor → ℕ) := fun a b : RepoMetricActor => compare (count b) (count a)
  compareLex (most (·.activities)) <| compareLex (most (·.commits)) <|
    compareLex (most (·.itemsOpened)) <| compareLex (most (·.changeRequestsMerged)) <|
    compareLex (on (compareName input.rt) (·.displayName)) (on input.rt.localeCompare (·.actorKey))

/-- `topActors`: the busiest, in the order of `compareTopActors`. -/
def topActors (source : Option ProviderLinkSource) (actors : List ActorAccumulator) :
    List RepoMetricActor :=
  (sortBy (compareTopActors input) (actors.map (toRepoMetricActor input source))).take
    maxRepoMetricActors

/-- The actors of a repository's row. -/
def topActorsOf (range : MsRange) (sourceId : SourceId) (items : List ItemDTO)
    (activities : List DetailedActivity) : List RepoMetricActor :=
  let source := input.sourcesById sourceId
  let actors := repoActors input range source items activities
  topActors input source
    (excludeBots input (applyIdentities input.rt actors input.identityMatchers sourceId.val))

end Top

/-! ## What is counted, and what is shown -/

section Spec

variable {input : RepoActorInput} {range window : MsRange} {source : Option ProviderLinkSource}

/-- **The top actors** are at most five, each a row of the merged actors
that is no bot and not excluded, with its counters. -/
theorem topActors_spec (sourceId : SourceId) (items : List ItemDTO)
    (activities : List DetailedActivity) :
    (topActorsOf input range sourceId items activities).length ≤ maxRepoMetricActors ∧
      ∀ row ∈ topActorsOf input range sourceId items activities,
        ∃ acc ∈ (applyIdentities input.rt
            (repoActors input range (input.sourcesById sourceId) items activities)
            input.identityMatchers sourceId.val).values,
          isAutoBot acc.key = false ∧ isExcludedActor input.rt acc input.actorExcludes = false ∧
            row = toRepoMetricActor input (input.sourcesById sourceId) acc := by
  refine ⟨List.length_take_le _ _, fun row hrow => ?_⟩
  obtain ⟨acc, hacc, rfl⟩ := List.mem_map.mp (mem_sortBy.mp (List.mem_of_mem_take hrow))
  obtain ⟨hmem, hkept⟩ := List.mem_filter.mp hacc
  rw [Bool.not_eq_true', Bool.or_eq_false_iff] at hkept
  exact ⟨acc, hmem, hkept.1, hkept.2, rfl⟩

/-- Nothing is counted for nobody. -/
theorem topActorsOf_nil (range : MsRange) (sourceId : SourceId) :
    topActorsOf input range sourceId [] [] = [] := by
  have hnone : ∀ matchers, (applyIdentities input.rt ActorMap.empty matchers sourceId.val).values =
      [] := by
    intro matchers
    unfold applyIdentities
    split <;> rfl
  unfold topActorsOf excludeBots topActors
  simp only [repoActors, List.foldl_nil, hnone, List.filter_nil, List.map_nil]
  rw [(sortBy_perm _ []).eq_nil, List.take_nil]

/-- Activities outside the range count for nobody, and for the others the
keys at the range's activities matter only. -/
theorem repoActors_occurred {keys : Ref → Option String} (items : List ItemDTO)
    (activities : List DetailedActivity)
    (hkeys : ∀ a ∈ activities, valueInRange range (some a.occurredAt) = true →
      keys (refOf a.sourceId a.externalId) = input.actorKeys (refOf a.sourceId a.externalId)) :
    repoActors { input with actorKeys := keys } range source items
        (activities.filter fun a => valueInRange range (some a.occurredAt)) =
      repoActors input range source items activities := by
  unfold repoActors
  have hitems : items.foldl (recordItemActor { input with actorKeys := keys } range)
      ActorMap.empty = items.foldl (recordItemActor input range) ActorMap.empty := rfl
  rw [hitems]
  generalize items.foldl (recordItemActor input range) ActorMap.empty = actors
  induction activities generalizing actors with
  | nil => rfl
  | cons a activities ih =>
    have hrest := fun actors => ih (fun x hx => hkeys x (List.mem_cons_of_mem a hx)) actors
    rw [List.foldl_cons]
    by_cases hin : valueInRange range (some a.occurredAt) = true
    · have hstep : recordActivityActor { input with actorKeys := keys } range source actors a =
          recordActivityActor input range source actors a := by
        unfold recordActivityActor
        simp only [hkeys a List.mem_cons_self hin]
        rfl
      rw [List.filter_cons, if_pos hin, List.foldl_cons, hstep, hrest]
    · have hskip : recordActivityActor input range source actors a = actors := by
        unfold recordActivityActor
        rw [if_neg hin]
      rw [List.filter_cons, if_neg hin, hskip, hrest]

end Spec

end SymphonyBoard
