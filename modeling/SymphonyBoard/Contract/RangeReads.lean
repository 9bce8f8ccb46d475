import SymphonyBoard.Common.StableSort
import SymphonyBoard.Contract.CommitFileStats
import SymphonyBoard.Contract.Days
import SymphonyBoard.Contract.DirectoryPartition
import SymphonyBoard.Contract.Projection
import SymphonyBoard.Contract.Rows
import SymphonyBoard.Db.ReviewThreads
import SymphonyBoard.Model.Activity
import SymphonyBoard.Server.Range
/-!
# What a range request reads

`mapRows` of `src/contract/build.ts` for activities, and the parts of
`buildRangeContract` that are made of them. `rangeEnvelope` of
`src/server/range.ts` hands over the activities of the range only, where
the other commands hand over all of them. Nothing emitted changes by it
(`buildRangeContract_rangeReads`): an activity is mapped by itself, the
sort is stable, and the actor keys are looked up at emitted activities.
-/

namespace SymphonyBoard

/-! ## Mapping activities -/

/-- The key of a stored activity. -/
def ActivityRow.key (row : ActivityRow) : ItemEndpoint :=
  ⟨row.activity.sourceId, row.activity.externalId⟩

/-- The columns of the activity table beside the row: the details as
`parseDetails` reads them, and the stored actor key. -/
structure ActivityColumns (rt : TextRuntime) where
  details : ItemEndpoint → Option Json
  actorKey : ItemEndpoint → Option (StoredActorKey rt)

section Mapping

variable (details : ItemEndpoint → Option Json) (configuredRepos : Option (List RepoRef))

/-- A target with an empty column is none. -/
def toActivityDTO (row : ActivityRow) : DetailedActivity :=
  { sourceId := row.activity.sourceId
    externalId := row.activity.externalId
    kind := row.activity.kind
    action := row.activity.action
    projectPath := row.activity.projectPath
    targetKind := row.activity.targetKind
    targetRef := (row.activity.target.filter fun target =>
      target.sourceId.val ≠ "" ∧ target.externalId ≠ "").map refOfEndpoint
    targetIid := row.activity.targetIid
    title := row.activity.title
    url := row.activity.url
    actor := row.activity.actor
    occurredAt := row.activity.occurredAt
    details := details row.key
    firstSeenAt := row.firstSeenAt
    lastSeenAt := row.lastSeenAt }

/-- The latest first, by instant. -/
def compareActivityInstantDesc : DetailedActivity → DetailedActivity → Ordering :=
  on compareTimestampDesc fun activity => some activity.occurredAt

/-- A number names an item within its repository and kind. -/
abbrev NumberKey := SourceId × String × String × ℕ

/-- What an item is known by besides its id. -/
def numberKey (item : ItemDTO) : Option NumberKey :=
  match item.iid, nonEmpty item.projectPath with
  | some iid, some projectPath => some (item.sourceId, projectPath, item.kind.text, iid)
  | _, _ => none

/-- An item under a number; nothing where another has it. -/
def putNumbered (b : NumberKey × ItemDTO) (old : Option (Option ItemDTO)) : Option ItemDTO :=
  if old.isSome then none else some b.2

/-- The items by number; nothing under a number two of them share. -/
def itemsByNumber (items : List ItemDTO) : OrdMap NumberKey (Option ItemDTO) :=
  (items.filterMap fun item => (numberKey item).map fun key => (key, item)).foldl
    (fun byNumber b => byNumber.upsert b.1 (putNumbered b)) .empty

/-- The number an activity's target is looked up by. -/
def activityNumberKey (activity : ActivityDTO) : Option NumberKey :=
  match activity.targetKind, activity.targetIid, nonEmpty activity.projectPath with
  | some targetKind, some targetIid, some projectPath =>
    if targetKind = "issue" ∨ targetKind = "change_request" then
      some (activity.sourceId, projectPath, targetKind, targetIid)
    else none
  | _, _, _ => none

/-- The target of an activity: the item of its reference, or of its number. -/
def resolveActivityTarget (byId : ItemsById) (byNumber : OrdMap NumberKey (Option ItemDTO))
    (activity : DetailedActivity) : DetailedActivity :=
  match nonEmpty activity.targetRef with
  | some ref => { activity with title := activity.title.or ((byId.get? ref).bind (·.title)) }
  | none =>
    match (activityNumberKey activity.toActivityDTO).bind fun key => (byNumber.get? key).join with
    | some target =>
      { activity with targetRef := some target.id, title := activity.title.or target.title }
    | none => activity

/-- The targets of all activities. -/
def resolveActivityTargets (items : List ItemDTO) (activities : List DetailedActivity) :
    List DetailedActivity :=
  activities.map (resolveActivityTarget (OrdMap.index (·.id) items) (itemsByNumber items))

/-- `mapRows` for activities; `items` are the mapped ones. -/
def mapActivities (items : List ItemDTO) (rows : List ActivityRow) : List DetailedActivity :=
  resolveActivityTargets items
    (sortBy compareActivityInstantDesc ((rows.map (toActivityDTO details)).filter fun activity =>
      repoAllowed configuredRepos activity.sourceId activity.projectPath))

end Mapping

/-! ## The contract of a range -/

/-- The stored activities, the latest first. -/
def listActivities (activities : OrdMap ItemEndpoint ActivityRow) : List ActivityRow :=
  newestFirst (·.activity.occurredAt) activities.values

/-- The stored actor key of each row. -/
def activityActorKeyMap {rt : TextRuntime} (actorKey : ItemEndpoint → Option (StoredActorKey rt))
    (rows : List ActivityRow) : OrdMap Ref (Option (StoredActorKey rt)) :=
  rows.foldl (fun keys row => keys.set (refOfEndpoint row.key) (actorKey row.key)) .empty

/-- What a range's contract is built from beside the activity rows. -/
structure BuildRangeInput (rt : TextRuntime) where
  items : List ItemRecord
  labels : List LabelRecord
  edges : List EdgeRecord
  reviewThreads : List ReviewThreadRow
  commitFiles : Option (List CommitFilesRow)
  columns : ActivityColumns rt
  generatedAtMs : ℤ
  identities : List IdentityConfig
  excludeActors : List (String → Bool)
  timezone : Tz
  configuredRepos : Option (List RepoRef)
  range : TimeRange
  commitsView : Bool

/-- The emitted parts that come of items, edges and activities. -/
structure RangeContract where
  items : List ItemDTO
  edges : List EdgeDTO
  activities : List DetailedActivity
  reviewThreads : List ReviewThreadDTO
  activityDaily : ActivityDaily
  actorDirectory : List ActorIdentity
  commitFileStats : Option (List RepoCommitFileStats)
  itemWindow : ItemWindow

/-- A commit. -/
def isCommit (activity : DetailedActivity) : Bool := activity.kind = "commit"

/-- The commits, and the items they name as their change request. These have
no body here to leave out. -/
def commitsViewRows (items : List ItemDTO) (activities : List DetailedActivity) :
    List ItemDTO × List DetailedActivity :=
  let commits := activities.filter isCommit
  let changeRequestRefs := commits.filterMap commitChangeRequestRef
  (items.filter fun item => item.id ∈ changeRequestRefs, commits)

/-- An activity with what its details say of the commit. -/
def toFileStatActivity (activity : DetailedActivity) : FileStatActivity :=
  { activity.toActivityDTO with
    merge := match activity.details.bind (·.field? "merge") with
      | some (.bool merge) => merge
      | _ => false
    detailsSha := match activity.details.bind (·.field? "sha") with
      | some (.str sha) => some sha
      | _ => none }

/-- `actorKeys.get(ref)` -/
def actorKeyAt {rt : TextRuntime} (actorKeys : OrdMap Ref (Option (StoredActorKey rt)))
    (ref : Ref) : Option String :=
  (actorKeys.get? ref).join.map (·.key)

/-- An activity as the directory reads it. -/
def toActorActivity (activity : DetailedActivity) : ActorActivity :=
  ⟨activity.sourceId, activity.externalId, activity.actor⟩

section Contract

variable {rt : TextRuntime} (input : BuildRangeInput rt) (activityRows : List ActivityRow)

/-- The items of the configured repositories. -/
def mappedItems : List ItemDTO := mapItems input.configuredRepos input.items input.labels

/-- The activities of the configured repositories. -/
def mappedActivities : List DetailedActivity :=
  mapActivities input.columns.details input.configuredRepos (mappedItems input) activityRows

/-- The actor keys of the rows. -/
def actorKeyMap : OrdMap Ref (Option (StoredActorKey rt)) :=
  activityActorKeyMap input.columns.actorKey activityRows

/-- The projection of the mapped rows. -/
def rangedRows : Projection × List DetailedActivity :=
  buildRangeProjection rt.localeCompare (mappedItems input)
    (mapEdges input.configuredRepos input.items input.edges) (mappedActivities input activityRows)
    input.range

/-- `buildRangeContract` -/
def buildRangeContract : RangeContract :=
  let projected := rangedRows input activityRows
  let actorKeys := actorKeyMap input activityRows
  let ranged := projected.1
  let emitted :=
    if input.commitsView then commitsViewRows ranged.items projected.2
    else (ranged.items, projected.2)
  { items := emitted.1
    edges := if input.commitsView then [] else ranged.edges
    activities := emitted.2
    reviewThreads :=
      if input.commitsView then []
      else reviewThreadsForItems rt.localeCompare (ranged.items.map (·.id))
        (input.reviewThreads.map toReviewThreadDTO)
    activityDaily := buildActivityDaily (projected.2.map (·.toActivityDTO)) input.generatedAtMs
      input.timezone
    actorDirectory := buildActorDirectory (projected.2.map toActorActivity) actorKeys
      (buildIdentityMatchers rt input.identities) input.excludeActors
    commitFileStats := input.commitFiles.map fun files =>
      buildCommitFileStats (actorKeyAt actorKeys) files rt.localeCompare
        (projected.2.map toFileStatActivity)
    itemWindow := ranged.itemWindow }

end Contract

/-! ## Items by number -/

section ByNumber

variable {items : List ItemDTO} {key : NumberKey}

theorem foldl_numbered (l : List (NumberKey × ItemDTO)) :
    (l.foldl (fun old b => some (putNumbered b old)) none).join = onlyOne (l.map Prod.snd) := by
  -- a shared number stays shared
  have shared : ∀ l : List (NumberKey × ItemDTO),
      l.foldl (fun old b => some (putNumbered b old)) (some none) = some none := by
    intro l
    induction l with
    | nil => rfl
    | cons b l ih => exact ih
  match l with
  | [] => rfl
  | [b] => rfl
  | b :: c :: l => exact congrArg Option.join (shared l)

/-- **A number finds an item just when it is the only one of that number.** -/
theorem join_get?_itemsByNumber :
    ((itemsByNumber items).get? key).join =
      onlyOne (items.filter fun item => numberKey item = some key) := by
  have hrows : ((items.filterMap fun item => (numberKey item).map fun key => (key, item)).filter
      fun b => b.1 = key).map Prod.snd = items.filter fun item => numberKey item = some key := by
    induction items with
    | nil => rfl
    | cons item items ih =>
      cases hkey : numberKey item with
      | none => simp [hkey, ih]
      | some k =>
        by_cases hk : k = key
        · simp [hkey, hk, ih]
        · simp [hkey, hk, ih]
  unfold itemsByNumber
  rw [OrdMap.get?_foldl_upsert Prod.fst putNumbered, OrdMap.get?_empty, foldl_numbered, hrows]

/-- The only item of the number an activity names. -/
def IsOnlyOfNumber (items : List ItemDTO) (activity : ActivityDTO) (item : ItemDTO) : Prop :=
  ∃ key, activityNumberKey activity = some key ∧
    (items.filter fun other => numberKey other = some key) = [item]

/-- Such an item is of the activity's repository, kind and number. -/
theorem IsOnlyOfNumber.same {activity : ActivityDTO} {item : ItemDTO}
    (h : IsOnlyOfNumber items activity item) :
    item ∈ items ∧ item.sourceId = activity.sourceId ∧ item.projectPath = activity.projectPath ∧
      some item.kind.text = activity.targetKind ∧ item.iid = activity.targetIid := by
  obtain ⟨key, hkey, honly⟩ := h
  have hitem : item ∈ items.filter fun other => numberKey other = some key :=
    honly ▸ List.mem_singleton_self item
  obtain ⟨hmem, hnumber⟩ := List.mem_filter.mp hitem
  have hnumber := of_decide_eq_true hnumber
  unfold numberKey at hnumber
  unfold activityNumberKey at hkey
  split at hnumber
  · next iid path hiid hpath =>
    split at hkey
    · next kind targetIid path' hkind htarget hpath' =>
      split at hkey
      · obtain rfl := Option.some.inj hkey
        simp only [Option.some.injEq, Prod.mk.injEq] at hnumber
        obtain ⟨hsource, rfl, hkind', rfl⟩ := hnumber
        refine ⟨hmem, hsource, ?_, ?_, ?_⟩
        · rw [(Option.filter_eq_some_iff.mp hpath).1, (Option.filter_eq_some_iff.mp hpath').1]
        · rw [hkind, hkind']
        · rw [hiid, htarget]
      · cases hkey
    · cases hkey
  · cases hnumber

/-- What an activity points at: its stored target, else the only item of the
number it names. -/
def IsTargetOf (items : List ItemDTO) (activity : ActivityDTO) (ref : Ref) : Prop :=
  activity.targetRef = some ref ∨
    activity.targetRef = none ∧ ∃ item, IsOnlyOfNumber items activity item ∧ item.id = ref

theorem resolveActivityTarget_targetRef {activity : DetailedActivity} {ref : Ref}
    (h : activity.targetRef ≠ some "") :
    (resolveActivityTarget (OrdMap.index (·.id) items) (itemsByNumber items) activity).targetRef =
      some ref ↔ IsTargetOf items activity.toActivityDTO ref := by
  unfold resolveActivityTarget IsTargetOf IsOnlyOfNumber
  cases htarget : activity.targetRef with
  | some stored =>
    have hne : nonEmpty (some stored) = some stored := by
      have hstored : stored ≠ "" := fun hempty => h (hempty ▸ htarget)
      simp [nonEmpty, hstored]
    simp [hne]
  | none =>
    have hnone : nonEmpty none = none := rfl
    simp only [hnone]
    cases hkey : activityNumberKey activity.toActivityDTO with
    | none => simp [htarget]
    | some key =>
      rw [Option.bind_some, join_get?_itemsByNumber]
      cases honly : onlyOne (items.filter fun item => numberKey item = some key) with
      | none =>
        have hno : ∀ item, (items.filter fun item => numberKey item = some key) ≠ [item] := by
          intro item hitem
          rw [onlyOne_eq_some.mpr hitem] at honly
          cases honly
        simp [htarget, hno]
      | some item =>
        simp [onlyOne_eq_some.mp honly]

end ByNumber

/-! ## Reading the range -/

section Reads

variable {details : ItemEndpoint → Option Json} {configuredRepos : Option (List RepoRef)}
variable {items : List ItemDTO} {rows : List ActivityRow} {range : TimeRange}
variable {activities : OrdMap ItemEndpoint ActivityRow}

theorem compareTimestampDesc_eq :
    compareTimestampDesc = on (withNulls .last fun x y : ℤ => compare y x) timestampMs := by
  funext a b
  unfold compareTimestampDesc on withNulls
  cases timestampMs a <;> cases timestampMs b <;> rfl

instance transCmp_compareTimestampDesc : Std.TransCmp compareTimestampDesc := by
  have hdesc : Std.TransCmp fun x y : ℤ => compare y x := @Std.TransCmp.opposite _ compare _
  rw [compareTimestampDesc_eq]
  infer_instance

instance transCmp_compareActivityInstantDesc : Std.TransCmp compareActivityInstantDesc :=
  transCmp_on compareTimestampDesc _

/-- `ORDER BY julianday(occurred_at) DESC` as a comparison; a text that
`julianday` does not read comes last. -/
def compareJuliandayDesc : Option ℤ → Option ℤ → Ordering :=
  withNulls .last fun x y => compare y x

instance transCmp_compareJuliandayDesc : Std.TransCmp compareJuliandayDesc := by
  have hdesc : Std.TransCmp fun x y : ℤ => compare y x := @Std.TransCmp.opposite _ compare _
  unfold compareJuliandayDesc
  infer_instance

/-- The queries sort stably, rows with the newest id first among equals. -/
theorem newestFirst_eq_sortBy {α : Type} (occurredAt : α → String) (rows : List α) :
    newestFirst occurredAt rows =
      sortBy (on compareJuliandayDesc fun row => dateParse (occurredAt row)) rows.reverse := by
  unfold newestFirst sortBy
  congr 1
  funext a b
  unfold Store.instantAtOrAfter on compareJuliandayDesc withNulls
  beta_reduce
  cases dateParse (occurredAt a) with
  | none => cases dateParse (occurredAt b) <;> rfl
  | some x =>
    cases dateParse (occurredAt b) with
    | none => rfl
    | some y =>
      rw [Bool.eq_iff_iff, decide_eq_true_eq]
      exact Std.isLE_compare.symm

theorem filter_newestFirst {α : Type} (occurredAt : α → String) (p : α → Bool) (rows : List α) :
    (newestFirst occurredAt rows).filter p = newestFirst occurredAt (rows.filter p) := by
  have htrans : Std.TransCmp (on compareJuliandayDesc fun row => dateParse (occurredAt row)) :=
    transCmp_on compareJuliandayDesc _
  rw [newestFirst_eq_sortBy, newestFirst_eq_sortBy, filter_sortBy, List.filter_reverse]

/-- A stored activity of the range. -/
def rowInRange (range : TimeRange) (row : ActivityRow) : Bool :=
  timestampInRange (some row.activity.occurredAt) range

/-- Far from year 10000, the query keeps what the projection keeps. -/
theorem keeps_eq_timestampInRange {bounds : ActivityRangeBounds} {occurredAt : String}
    (hbounds : activityRangeBounds range = .ok bounds) (hfar : FarFromYear10000 range)
    (hiso : IsoDated occurredAt) :
    bounds.keeps occurredAt = timestampInRange (some occurredAt) range := by
  have hin : bounds.keeps occurredAt = true ↔ InRange range occurredAt :=
    ⟨inRange_of_keeps hbounds, keeps_of_inRange hbounds hfar hiso⟩
  -- far from year 10000 both ends are read by either parser
  obtain ⟨f, t, hf, ht, -⟩ := hfar
  -- and so is the timestamp, being dated as rows are
  obtain ⟨t', rfl⟩ := hiso
  have hx := IsoTimestamp.dateParse_text t'
  rw [Bool.eq_iff_iff, hin]
  unfold InRange timestampInRange timestampMs
  simp only [Option.bind_some]
  rw [dateParseAll_of_dateParse hf, dateParseAll_of_dateParse ht, dateParseAll_of_dateParse hx,
    hx]
  simp

/-- **The rows read are those of all rows that are in the range**, in their
order. -/
theorem listActivitiesInRange_eq (hfar : FarFromYear10000 range)
    (hiso : ∀ row ∈ activities.values, IsoDated row.activity.occurredAt)
    (hrows : listActivitiesInRange activities range = .ok rows) :
    rows = (listActivities activities).filter (rowInRange range) := by
  unfold listActivitiesInRange at hrows
  cases hbounds : activityRangeBounds range with
  | error msg =>
    rw [hbounds] at hrows
    cases hrows
  | ok bounds =>
    rw [hbounds] at hrows
    rw [← Except.ok.inj hrows, listActivities, filter_newestFirst]
    congr 1
    exact List.filter_congr fun row hrow =>
      keeps_eq_timestampInRange hbounds hfar (hiso row hrow)

/-! ## Mapping the rows read -/

/-- A resolved activity is the same one. -/
theorem resolveActivityTarget_same (byId : ItemsById)
    (byNumber : OrdMap NumberKey (Option ItemDTO)) (activity : DetailedActivity) :
    let resolved := resolveActivityTarget byId byNumber activity
    resolved.sourceId = activity.sourceId ∧ resolved.externalId = activity.externalId ∧
      resolved.occurredAt = activity.occurredAt := by
  unfold resolveActivityTarget
  simp only
  split
  · exact ⟨rfl, rfl, rfl⟩
  · split
    · exact ⟨rfl, rfl, rfl⟩
    · exact ⟨rfl, rfl, rfl⟩

/-- **What is mapped of the rows in the range is what is in the range of
what is mapped.** -/
theorem filter_mapActivities :
    (mapActivities details configuredRepos items rows).filter (activityOccurredInRange range) =
      mapActivities details configuredRepos items (rows.filter (rowInRange range)) := by
  have hresolved : ∀ byId byNumber, activityOccurredInRange range ∘
      resolveActivityTarget byId byNumber = activityOccurredInRange range := by
    intro byId byNumber
    funext activity
    unfold activityOccurredInRange
    rw [Function.comp_apply, (resolveActivityTarget_same byId byNumber activity).2.2]
  have hmapped : activityOccurredInRange range ∘ toActivityDTO details = rowInRange range := rfl
  unfold mapActivities resolveActivityTargets
  -- the range's test goes through the targets, the sort, the configuration
  -- and the mapping to the row
  rw [List.filter_map, hresolved, filter_sortBy, List.filter_filter]
  simp only [Bool.and_comm (activityOccurredInRange range _)]
  rw [← List.filter_filter, List.filter_map, hmapped]

/-- One row mapped. -/
def mapActivity (details : ItemEndpoint → Option Json) (items : List ItemDTO) (row : ActivityRow) :
    DetailedActivity :=
  resolveActivityTarget (OrdMap.index (·.id) items) (itemsByNumber items)
    (toActivityDTO details row)

theorem mapActivities_perm :
    (mapActivities details configuredRepos items rows).Perm
      ((rows.filter fun row =>
        repoAllowed configuredRepos row.activity.sourceId row.activity.projectPath).map
          (mapActivity details items)) := by
  have hadmitted : (rows.map (toActivityDTO details)).filter (fun activity =>
      repoAllowed configuredRepos activity.sourceId activity.projectPath) =
      (rows.filter fun row => repoAllowed configuredRepos row.activity.sourceId
        row.activity.projectPath).map (toActivityDTO details) := List.filter_map
  have hsorted := (sortBy_perm compareActivityInstantDesc _).map
    (resolveActivityTarget (OrdMap.index (·.id) items) (itemsByNumber items)) |>.trans
      (List.Perm.of_eq (congrArg _ hadmitted))
  rw [List.map_map] at hsorted
  exact hsorted

/-- Mapping a sorted activity leaves it where it is. -/
theorem pairwise_mapActivities :
    (mapActivities details configuredRepos items rows).Pairwise fun a b =>
      (compareActivityInstantDesc a b).isLE = true := by
  refine List.pairwise_map.mpr ((pairwise_sortBy _).imp fun {a b} hle => ?_)
  simp only [compareActivityInstantDesc, on] at hle ⊢
  rw [(resolveActivityTarget_same _ _ a).2.2, (resolveActivityTarget_same _ _ b).2.2]
  exact hle

theorem targetRef_toActivityDTO (row : ActivityRow) :
    (toActivityDTO details row).targetRef ≠ some "" := by
  intro h
  obtain ⟨target, -, hempty⟩ := Option.map_eq_some_iff.mp h
  have hbar : '|' ∈ (refOfEndpoint target).toList := by simp [refOfEndpoint, refOf]
  rw [hempty] at hbar
  exact absurd hbar (by decide)

/-- **What is mapped:** every admitted row once, newest first, pointing at
its stored target or else at the only item of its number. -/
theorem mapActivities_spec (details : ItemEndpoint → Option Json)
    (configuredRepos : Option (List RepoRef)) (items : List ItemDTO) (rows : List ActivityRow) :
    (mapActivities details configuredRepos items rows).Perm
        ((rows.filter fun row =>
          repoAllowed configuredRepos row.activity.sourceId row.activity.projectPath).map
            (mapActivity details items)) ∧
      ((mapActivities details configuredRepos items rows).Pairwise fun a b =>
        (compareActivityInstantDesc a b).isLE = true) ∧
      ∀ row ref, (mapActivity details items row).targetRef = some ref ↔
        IsTargetOf items (toActivityDTO details row).toActivityDTO ref :=
  ⟨mapActivities_perm, pairwise_mapActivities, fun row _ =>
    resolveActivityTarget_targetRef (targetRef_toActivityDTO row)⟩

/-- A mapped activity is of one of the rows. -/
theorem exists_row_of_mem {activity : DetailedActivity}
    (h : activity ∈ mapActivities details configuredRepos items rows) :
    ∃ row ∈ rows, row.key = ⟨activity.sourceId, activity.externalId⟩ := by
  obtain ⟨row, hrow, rfl⟩ := List.mem_map.mp (mapActivities_perm.mem_iff.mp h)
  obtain ⟨hsource, hexternal, -⟩ := resolveActivityTarget_same (OrdMap.index (·.id) items)
    (itemsByNumber items) (toActivityDTO details row)
  exact ⟨row, (List.mem_filter.mp hrow).1, by rw [mapActivity, hsource, hexternal]; rfl⟩

/-- A range takes the activities of the range. -/
theorem buildRangeProjection_filter (localeCompare : String → String → Ordering)
    (edges : List EdgeDTO) (mapped : List DetailedActivity) :
    buildRangeProjection localeCompare items edges
        (mapped.filter (activityOccurredInRange range)) range =
      buildRangeProjection localeCompare items edges mapped range := by
  unfold buildRangeProjection
  simp only [List.filter_filter, Bool.and_self]

end Reads

/-! ## The actors -/

section Actors

variable {rt : TextRuntime}

theorem get?_activityActorKeyMap (actorKey : ItemEndpoint → Option (StoredActorKey rt))
    {rows : List ActivityRow} {row : ActivityRow} (h : row ∈ rows) :
    (activityActorKeyMap actorKey rows).get? (refOfEndpoint row.key) =
      some (actorKey row.key) := by
  refine OrdMap.get?_foldl_set_of (fun other _ hkey => ?_) (Or.inl ⟨row, h, rfl⟩)
  rw [refOfEndpoint_injective hkey]

/-- The directory looks up the keys of its own activities only. -/
theorem buildActorDirectory_congr {activities : List ActorActivity}
    {actorKeys actorKeys' : OrdMap Ref (Option (StoredActorKey rt))}
    (h : ∀ a ∈ activities, actorKeys.get? (refOf a.sourceId a.externalId) =
      actorKeys'.get? (refOf a.sourceId a.externalId))
    (matchers : List IdentityMatcher) (excludes : List (String → Bool)) :
    buildActorDirectory activities actorKeys matchers excludes =
      buildActorDirectory activities actorKeys' matchers excludes := by
  have hscan : DirectoryScan.ofActivities activities actorKeys =
      DirectoryScan.ofActivities activities actorKeys' := by
    unfold DirectoryScan.ofActivities
    congr 1
    refine List.filterMap_congr fun a ha => ?_
    unfold sighting
    rw [h a ha]
  unfold buildActorDirectory
  rw [hscan]

/-- A commit's author is looked up at the commit. -/
theorem addActivity_congr {keys keys' : Ref → Option String} {activity : FileStatActivity}
    (h : keys activity.ref = keys' activity.ref) (files : List CommitFilesRow) (repo : RepoTally) :
    addActivity keys files activity repo = addActivity keys' files activity repo := by
  unfold addActivity authorOf
  rw [h]

theorem buildCommitFileStats_congr {keys keys' : Ref → Option String}
    {activities : List FileStatActivity} (h : ∀ a ∈ activities, keys a.ref = keys' a.ref)
    (files : List CommitFilesRow) (localeCompare : String → String → Ordering) :
    buildCommitFileStats keys files localeCompare activities =
      buildCommitFileStats keys' files localeCompare activities := by
  have htallies : repoTallies keys files activities = repoTallies keys' files activities := by
    unfold repoTallies
    refine List.foldl_ext _ _ _ fun repos commit hcommit => ?_
    obtain ⟨a, ha, hrepo⟩ := List.mem_filterMap.mp hcommit
    obtain ⟨path, -, rfl⟩ := Option.map_eq_some_iff.mp hrepo
    simp only [addActivity_congr (h a ha)]
  unfold buildCommitFileStats
  rw [htallies]

end Actors

/-! ## The contract built from the range's rows -/

section Contract

variable {rt : TextRuntime} {input : BuildRangeInput rt} {rows : List ActivityRow}
variable {activities : OrdMap ItemEndpoint ActivityRow}

theorem mappedActivities_rangeReads (hfar : FarFromYear10000 input.range)
    (hiso : ∀ row ∈ activities.values, IsoDated row.activity.occurredAt)
    (hrows : listActivitiesInRange activities input.range = .ok rows) :
    mappedActivities input rows =
      (mappedActivities input (listActivities activities)).filter
        (activityOccurredInRange input.range) := by
  unfold mappedActivities
  rw [listActivitiesInRange_eq hfar hiso hrows, filter_mapActivities]

/-- An emitted activity is of a row that was read, which is a stored one. -/
theorem actorKeys_rangeReads (hfar : FarFromYear10000 input.range)
    (hiso : ∀ row ∈ activities.values, IsoDated row.activity.occurredAt)
    (hrows : listActivitiesInRange activities input.range = .ok rows) {activity : DetailedActivity}
    (h : activity ∈ mappedActivities input rows) :
    (actorKeyMap input rows).get? (refOf activity.sourceId activity.externalId) =
      (actorKeyMap input (listActivities activities)).get?
        (refOf activity.sourceId activity.externalId) := by
  obtain ⟨row, hrow, hkey⟩ := exists_row_of_mem h
  have hstored : row ∈ listActivities activities := by
    rw [listActivitiesInRange_eq hfar hiso hrows] at hrow
    exact (List.mem_filter.mp hrow).1
  have hread := get?_activityActorKeyMap input.columns.actorKey hrow
  rw [← get?_activityActorKeyMap input.columns.actorKey hstored, hkey] at hread
  exact hread

/-- **Reading the range only changes nothing** that is emitted, where its
end is two days before year 10000. -/
theorem buildRangeContract_rangeReads (hfar : FarFromYear10000 input.range)
    (hiso : ∀ row ∈ activities.values, IsoDated row.activity.occurredAt)
    (hrows : listActivitiesInRange activities input.range = .ok rows) :
    buildRangeContract input rows = buildRangeContract input (listActivities activities) := by
  have hmapped := mappedActivities_rangeReads hfar hiso hrows
  have hranged : rangedRows input rows = rangedRows input (listActivities activities) := by
    unfold rangedRows
    rw [hmapped, buildRangeProjection_filter]
  have hkeys : ∀ activity ∈ (rangedRows input (listActivities activities)).2,
      (actorKeyMap input rows).get? (refOf activity.sourceId activity.externalId) =
        (actorKeyMap input (listActivities activities)).get?
          (refOf activity.sourceId activity.externalId) := by
    intro activity hactivity
    rw [← hranged] at hactivity
    exact actorKeys_rangeReads hfar hiso hrows (List.mem_filter.mp hactivity).1
  have hactors : ∀ a ∈ (rangedRows input (listActivities activities)).2.map toActorActivity,
      (actorKeyMap input rows).get? (refOf a.sourceId a.externalId) =
        (actorKeyMap input (listActivities activities)).get? (refOf a.sourceId a.externalId) :=
    List.forall_mem_map.mpr hkeys
  have hcommits : ∀ a ∈ (rangedRows input (listActivities activities)).2.map toFileStatActivity,
      actorKeyAt (actorKeyMap input rows) a.ref =
        actorKeyAt (actorKeyMap input (listActivities activities)) a.ref :=
    List.forall_mem_map.mpr fun activity hactivity =>
      congrArg (fun key => key.join.map (·.key)) (hkeys activity hactivity)
  unfold buildRangeContract
  simp only [hranged, buildActorDirectory_congr hactors, buildCommitFileStats_congr hcommits]

end Contract

/-! ## A year's request -/

namespace OpenEnded

/-- Issue 7, which the commits name, updated in May 2026; issue 8 was last
updated the year before. -/
def issueRow (externalId : String) (iid : ℕ) (updatedAt : String) : ItemRecord :=
  (⟨gh, externalId⟩,
    { item :=
        { sourceId := gh, externalId, kind := .issue, projectPath := some "o/r", iid := some iid
          url := "", title := some "Parse dates", state := .opened, stateRaw := none
          isDraft := none, author := none, createdAt := none, updatedAt := some updatedAt
          closedAt := none, mergedAt := none, reviewState := none, ciState := none
          mergeState := none, openReviewThreads := none, totalReviewThreads := none
          commentTotal := none, demand := 0 }
      normalizedWith := "github", lastSeenAt := "2026-06-02T00:00:00Z", deletedAt := none })

/-- The commits read for their year, with an edge between the two issues. -/
def yearInput : BuildRangeInput plainText :=
  { items := [issueRow "I7" 7 "2026-05-01T00:00:00Z", issueRow "I8" 8 "2025-05-01T00:00:00Z"]
    labels := []
    edges := [((.relates, ⟨gh, "I7"⟩, ⟨gh, "I8"⟩),
      { fromState := some .opened, toState := some .opened, lifecycle := none
        discoveredFrom := .fromEnd, firstSeenAt := "2026-06-02T00:00:00Z"
        lastSeenAt := "2026-06-02T00:00:00Z", deletedAt := none })]
    reviewThreads := [], commitFiles := some (commitFiles.values)
    columns := ⟨fun _ => none, fun _ => none⟩
    generatedAtMs := 1798761599999
    identities := [], excludeActors := [], timezone := .utc, configuredRepos := none
    range := throughYear2026, commitsView := false }

/-- Two of the four rows are read. -/
theorem listActivitiesInRange_year :
    listActivitiesInRange activities throughYear2026 = .ok [eastRow, noonRow] := by
  have hkeeps : (activityRangeBounds throughYear2026).toOption.map (fun bounds =>
      [noonRow, eastRow, westRow, oldRow].map fun row => bounds.keeps row.activity.occurredAt) =
      some [true, true, false, false] := by decide +kernel
  have hdescending : [eastRow, noonRow].Pairwise fun a b => Store.instantAtOrAfter
      (dateParse a.activity.occurredAt) (dateParse b.activity.occurredAt) = true := by
    decide +kernel
  unfold listActivitiesInRange
  cases hbounds : activityRangeBounds throughYear2026 with
  | error msg =>
    rw [hbounds] at hkeeps
    cases hkeeps
  | ok bounds =>
    rw [hbounds] at hkeeps
    simp only [Except.toOption, Option.map_some, List.map_cons, List.map_nil, Option.some.injEq,
      List.cons.injEq, and_true] at hkeeps
    obtain ⟨hnoon, heast, hwest, hold⟩ := hkeeps
    have hkept : activities.values.filter (fun row => bounds.keeps row.activity.occurredAt) =
        [noonRow, eastRow] := by
      have hvalues : activities.values = [noonRow, eastRow, westRow, oldRow] := rfl
      simp [hvalues, hnoon, heast, hwest, hold]
    show Except.ok (newestFirst _ (activities.values.filter _)) = _
    rw [hkept, newestFirst_of_pairwise hdescending]
    rfl

end OpenEnded

open OpenEnded in
/-- The request reads two rows of four, and what it emits is what all four
would have it emit: both commits, pointing at issue 7. -/
theorem buildRangeContract_rangeReads_year :
    buildRangeContract yearInput [eastRow, noonRow] =
        buildRangeContract yearInput (listActivities activities) ∧
      (buildRangeContract yearInput [eastRow, noonRow]).activities.map (fun activity =>
        (activity.externalId, activity.targetRef)) =
          [("commit:2", some "gh|I7"), ("commit:1", some "gh|I7")] := by
  have hfar : FarFromYear10000 throughYear2026 :=
    ⟨1767225600000, 1798761599999, by decide +kernel, by decide +kernel, by decide⟩
  refine ⟨buildRangeContract_rangeReads hfar isoDated listActivitiesInRange_year, ?_⟩
  have hemitted : (buildRangeContract yearInput [eastRow, noonRow]).activities =
      (mappedActivities yearInput [eastRow, noonRow]).filter
        (activityOccurredInRange throughYear2026) := rfl
  rw [hemitted]
  unfold mappedActivities mapActivities
  rw [sortBy_eq_insertionSort]
  decide +kernel

end SymphonyBoard
