import SymphonyBoard.Contract.Types
import SymphonyBoard.Db.Store
/-!
# From rows to the contract

`mapRows` of `src/contract/build.ts` for items and edges: the rows become
the contract's shapes, and what the configuration does not list is left
out. An edge goes with its sources, and with an endpoint whose loaded row
is in an unlisted repository; an endpoint without a loaded row stays
(`mem_mapEdges`).
-/

namespace SymphonyBoard

/-- A row of the item table under its key. -/
abbrev ItemRecord := ItemEndpoint × ItemRow

/-- A row of the edge table under its key. -/
abbrev EdgeRecord := EdgeRowKey × EdgeRow

/-- A label of an item. -/
abbrev LabelRecord := ItemEndpoint × CanonicalLabel

/-- A repository of the configuration. -/
structure RepoRef where
  sourceId : String
  projectPath : String
deriving DecidableEq

/-- `toItemDTO` -/
def toItemDTO (labels : List LabelRecord) (row : ItemRecord) : ItemDTO :=
  { row.2.item with
    sourceId := row.1.sourceId
    externalId := row.1.externalId
    id := refOfEndpoint row.1
    labels := (labels.filter fun l => l.1 = row.1).map Prod.snd
    lastSeenAt := row.2.lastSeenAt
    windowReasons := [] }

/-- `toEdgeDTO` -/
def toEdgeDTO (row : EdgeRecord) : EdgeDTO :=
  { type := row.1.1
    fromRef := refOfEndpoint row.1.2.1
    toRef := refOfEndpoint row.1.2.2
    fromState := row.2.fromState
    toState := row.2.toState
    lifecycle := row.2.lifecycle }

variable (configuredRepos : Option (List RepoRef))

/-- No configured set leaves everything in. -/
def repoAllowed (sourceId : SourceId) (projectPath : Option String) : Bool :=
  configuredRepos.all fun repos =>
    repos.any fun r => r.sourceId = sourceId.val && some r.projectPath = projectPath

/-- Whether a source has any configured repository. -/
def sourceAllowed (sourceId : SourceId) : Bool :=
  configuredRepos.all fun repos => repos.any fun r => r.sourceId = sourceId.val

/-- Whether a stored item is in a configured repository. -/
def rowAllowed (row : ItemRecord) : Bool :=
  repoAllowed configuredRepos row.1.sourceId row.2.item.projectPath

/-- `mapItems`: the items of the configured repositories. -/
def mapItems (items : List ItemRecord) (labels : List LabelRecord) : List ItemDTO :=
  (items.map (toItemDTO labels)).filter fun item =>
    repoAllowed configuredRepos item.sourceId item.projectPath

/-- The loaded items the gate drops. -/
def droppedItemIds (items : List ItemRecord) : List Ref :=
  (items.filter fun row => !rowAllowed configuredRepos row).map fun row => refOfEndpoint row.1

/-- `mapEdges`: the edges whose two ends are of allowed sources and not dropped. -/
def mapEdges (items : List ItemRecord) (edges : List EdgeRecord) : List EdgeDTO :=
  let sourceGatedEdges := edges.filter fun e =>
    sourceAllowed configuredRepos e.1.2.1.sourceId && sourceAllowed configuredRepos e.1.2.2.sourceId
  (sourceGatedEdges.map toEdgeDTO).filter fun e =>
    decide (e.fromRef ∉ droppedItemIds configuredRepos items) &&
      decide (e.toRef ∉ droppedItemIds configuredRepos items)

/-! ## What is admitted -/

/-- An endpoint of a configured source, in a configured repository if its
row is loaded. -/
structure AdmitsEndpoint (items : List ItemRecord) (e : ItemEndpoint) : Prop where
  source : sourceAllowed configuredRepos e.sourceId = true
  row : ∀ row ∈ items, row.1 = e → rowAllowed configuredRepos row = true

variable {configuredRepos} {items : List ItemRecord} {labels : List LabelRecord}
  {edges : List EdgeRecord}

theorem mem_droppedItemIds {e : ItemEndpoint} :
    refOfEndpoint e ∈ droppedItemIds configuredRepos items ↔
      ∃ row ∈ items, row.1 = e ∧ rowAllowed configuredRepos row = false := by
  unfold droppedItemIds
  simp only [List.mem_map, List.mem_filter, Bool.not_eq_true', refOfEndpoint_injective.eq_iff]
  constructor
  · rintro ⟨row, ⟨hrow, hdropped⟩, rfl⟩
    exact ⟨row, hrow, rfl, hdropped⟩
  · rintro ⟨row, hrow, rfl, hdropped⟩
    exact ⟨row, ⟨hrow, hdropped⟩, rfl⟩

theorem not_mem_droppedItemIds {e : ItemEndpoint} :
    refOfEndpoint e ∉ droppedItemIds configuredRepos items ↔
      ∀ row ∈ items, row.1 = e → rowAllowed configuredRepos row = true := by
  rw [mem_droppedItemIds]
  simp only [not_exists, not_and, Bool.not_eq_false]

/-- **An edge is emitted exactly when both its endpoints are admitted.** -/
theorem mem_mapEdges {e : EdgeDTO} :
    e ∈ mapEdges configuredRepos items edges ↔
      ∃ row ∈ edges, AdmitsEndpoint configuredRepos items row.1.2.1 ∧
        AdmitsEndpoint configuredRepos items row.1.2.2 ∧ toEdgeDTO row = e := by
  unfold mapEdges
  simp only [List.mem_filter, List.mem_map, Bool.and_eq_true, decide_eq_true_eq]
  constructor
  · rintro ⟨⟨row, ⟨hrow, hfrom, hto⟩, rfl⟩, hkeptFrom, hkeptTo⟩
    exact ⟨row, hrow, ⟨hfrom, not_mem_droppedItemIds.mp hkeptFrom⟩,
      ⟨hto, not_mem_droppedItemIds.mp hkeptTo⟩, rfl⟩
  · rintro ⟨row, hrow, hfrom, hto, rfl⟩
    exact ⟨⟨row, ⟨hrow, hfrom.source, hto.source⟩, rfl⟩, not_mem_droppedItemIds.mpr hfrom.row,
      not_mem_droppedItemIds.mpr hto.row⟩

theorem mem_mapItems {item : ItemDTO} :
    item ∈ mapItems configuredRepos items labels ↔
      ∃ row ∈ items, rowAllowed configuredRepos row = true ∧ toItemDTO labels row = item := by
  unfold mapItems
  simp only [List.mem_filter, List.mem_map]
  constructor
  · rintro ⟨⟨row, hrow, rfl⟩, hallowed⟩
    exact ⟨row, hrow, hallowed, rfl⟩
  · rintro ⟨row, hrow, hallowed, rfl⟩
    exact ⟨⟨row, hrow, rfl⟩, hallowed⟩

/-- An endpoint of an allowed repository is of an allowed source. -/
theorem sourceAllowed_of_repoAllowed {sourceId : SourceId} {projectPath : Option String}
    (h : repoAllowed configuredRepos sourceId projectPath = true) :
    sourceAllowed configuredRepos sourceId = true := by
  unfold repoAllowed at h
  unfold sourceAllowed
  cases configuredRepos with
  | none => rfl
  | some repos =>
    simp only [Option.all_some, List.any_eq_true, Bool.and_eq_true] at h ⊢
    obtain ⟨r, hr, hsource, -⟩ := h
    exact ⟨r, hr, hsource⟩

end SymphonyBoard
