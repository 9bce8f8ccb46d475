import SymphonyBoard.Common.Json
import SymphonyBoard.Common.OrdSet
import SymphonyBoard.Db.ActivityRange
import SymphonyBoard.Graph.Rollups
/-!
# The board's windows

`programTrackerPin`, `buildWindowedProjection` and `buildRangeProjection`
of `src/contract/build.ts`: the rows a window emits of the mapped items
and edges. A window's items are those updated in it, the ends of every
selected edge and, of a range, the items its activities name; the edges
are those at an updated item and those a pinned tracker's progress is read
from. Each emitted item says why it is (`mem_windowRows`).
-/

namespace SymphonyBoard

/-- The label of a tracking issue. -/
def trackingLabel : String := "workflow::tracking"

/-- `PROGRAM_TRACKER_PIN_LIMIT` -/
def programTrackerPinLimit : ℕ := 100

/-- `CONTRACT_ITEM_WINDOW_DAYS` -/
def contractItemWindowDays : ℤ := 90

/-! ## Instants -/

/-- A time that does not parse throws. -/
def cutoffIso (days : ℤ) (generatedAt : String) : Option String :=
  (dateParseAll generatedAt).map fun ms => isoString (ms - days * dayMs)

/-- At or after a cutoff; everything is without one. -/
def timestampAtOrAfter (value cutoff : Option String) : Bool :=
  match nonEmpty cutoff with
  | none => true
  | some _ =>
    match timestampMs value, timestampMs cutoff with
    | some valueMs, some cutoffMs => decide (cutoffMs ≤ valueMs)
    | _, _ => false

/-- An item that was updated since the cutoff. -/
def itemActiveSince (cutoff : String) (item : ItemDTO) : Bool :=
  timestampAtOrAfter item.updatedAt (some cutoff)

/-- An item that was updated in the range. -/
def itemUpdatedInRange (range : TimeRange) (item : ItemDTO) : Bool :=
  timestampInRange item.updatedAt range

/-! ## Pinned trackers -/

/-- The pinned trackers and the edges that come with them. -/
structure TrackerPin where
  trackerIds : List Ref
  edges : List EdgeDTO

section Pin

variable (localeCompare : String → String → Ordering)

/-- An open item with the tracking label and a parent edge. -/
def isTracker (edges : List EdgeDTO) (item : ItemDTO) : Bool :=
  decide (item.state = .opened) &&
    edges.any (fun edge => edge.type = .parent ∧ edge.fromRef = item.id) &&
      item.labels.any fun label => label.name = trackingLabel

/-- Newest first, ties by id. -/
def trackerOrder : ItemDTO → ItemDTO → Ordering :=
  compareLex (on compareTimestampDesc (·.updatedAt)) (on localeCompare (·.id))

/-- The targets of the trackers' parent edges. -/
def pinnedChildIds (trackerIds : List Ref) (edges : List EdgeDTO) : List Ref :=
  (edges.filter fun edge => edge.type = .parent ∧ edge.fromRef ∈ trackerIds).map (·.toRef)

/-- A parent edge of a tracker, or a blocks edge between two children. -/
def isPinnedEdge (trackerIds childIds : List Ref) (edge : EdgeDTO) : Bool :=
  if edge.type = .parent then decide (edge.fromRef ∈ trackerIds)
  else decide (edge.type = .blocks ∧ edge.fromRef ∈ childIds ∧ edge.toRef ∈ childIds)

/-- The newest trackers, and the edges between them and their items. -/
def programTrackerPin (items : List ItemDTO) (edges : List EdgeDTO) : TrackerPin :=
  let trackerIds := ((sortBy (trackerOrder localeCompare) (items.filter (isTracker edges))).take
    programTrackerPinLimit).map (·.id)
  if trackerIds = [] then ⟨[], []⟩
  else ⟨trackerIds, edges.filter (isPinnedEdge trackerIds (pinnedChildIds trackerIds edges))⟩

end Pin

/-! ## Windows -/

/-- Which items a projection is of. -/
structure ItemWindow where
  since : Option String
  days : Option ℤ
  primaryItems : ℕ
  edgeEndpointItems : ℕ
  activityTargetItems : ℕ
  totalItems : ℕ
  truncated : Bool

/-- The items and edges of a projection, with its window. -/
structure Projection where
  items : List ItemDTO
  edges : List EdgeDTO
  itemWindow : ItemWindow

/-- The items that edges end at. -/
def endpointIds (edges : List EdgeDTO) : List Ref :=
  edges.flatMap fun edge => [edge.fromRef, edge.toRef]

/-- The refs a window takes items by. -/
structure WindowRefs where
  primaryIds : OrdSet Ref
  endpointIds : List Ref
  activityTargetIds : List Ref
  trackerIds : List Ref

namespace WindowRefs

variable (refs : WindowRefs)

/-- Why an item is emitted. -/
def reasons (id : Ref) : List ItemWindowReason :=
  (if id ∈ refs.primaryIds.values then [.primary] else []) ++
    (if id ∈ refs.endpointIds then [.edgeEndpoint] else []) ++
    (if id ∈ refs.activityTargetIds then [.activityTarget] else []) ++
    if id ∈ refs.trackerIds then [.programTracker] else []

/-- An item that is in the window, at the end of an edge, or acted on. -/
def emits (id : Ref) : Bool :=
  decide (id ∈ refs.primaryIds.values ∨ id ∈ refs.endpointIds ∨ id ∈ refs.activityTargetIds)

/-- The emitted items, each with its reasons. -/
def rows (items : List ItemDTO) : List ItemDTO :=
  (items.filter fun item => refs.emits item.id).map fun item =>
    { item with windowReasons := refs.reasons item.id }

/-- The rows counted, `rows` being what is emitted of `items`. -/
def itemWindow (since : Option String) (days : Option ℤ) (rows items : List ItemDTO) : ItemWindow :=
  { since, days
    primaryItems := refs.primaryIds.values.length
    edgeEndpointItems := rows.countP fun row =>
      row.id ∉ refs.primaryIds.values ∧ row.id ∈ refs.endpointIds
    activityTargetItems := rows.countP fun row =>
      row.id ∉ refs.primaryIds.values ∧ row.id ∈ refs.activityTargetIds
    totalItems := items.length
    truncated := decide (rows.length < items.length) }

end WindowRefs

section Windows

variable (localeCompare : String → String → Ordering) (items : List ItemDTO)
variable (edges : List EdgeDTO)

/-- The items of the window. -/
def primaryIds (primary : ItemDTO → Bool) : OrdSet Ref :=
  OrdSet.ofList ((items.filter primary).map (·.id))

/-- The edges at a primary item. -/
def boardEdges (primaryIds : OrdSet Ref) : List EdgeDTO :=
  edges.filter fun edge => edge.fromRef ∈ primaryIds.values ∨ edge.toRef ∈ primaryIds.values

/-- The rows and the counts of a window from its refs. -/
def WindowRefs.project (refs : WindowRefs) (since : Option String) (days : Option ℤ)
    (selectedEdges : List EdgeDTO) : Projection :=
  let rows := refs.rows items
  { items := rows, edges := selectedEdges, itemWindow := refs.itemWindow since days rows items }

/-- The window since a cutoff. -/
def windowSince (since : String) : Projection :=
  let primaryIds := primaryIds items (itemActiveSince since)
  let pin := programTrackerPin localeCompare items edges
  let selectedEdges := edges.filter fun edge =>
    edge.fromRef ∈ primaryIds.values ∨ edge.toRef ∈ primaryIds.values ∨ edge ∈ pin.edges
  let refs : WindowRefs := ⟨primaryIds, endpointIds selectedEdges, [], pin.trackerIds⟩
  refs.project items (some since) (some contractItemWindowDays) selectedEdges

/-- `buildWindowedProjection`: the items of the last days. -/
def buildWindowedProjection (generatedAt : String) : Option Projection :=
  (cutoffIso contractItemWindowDays generatedAt).map (windowSince localeCompare items edges)

/-- Every live item and edge; no item says why. -/
def fullItemProjection : Projection :=
  { items, edges
    itemWindow :=
      { since := none, days := none, primaryItems := items.length, edgeEndpointItems := 0
        activityTargetItems := 0, totalItems := items.length, truncated := false } }

end Windows

/-! ## Activities -/

/-- An activity with its link, the details object it was stored with, and
when it was seen. -/
structure DetailedActivity extends ActivityDTO where
  url : Option String
  details : Option Json
  firstSeenAt : String
  lastSeenAt : String

/-- The ref a commit names as its change request. -/
def commitChangeRequestRef (activity : DetailedActivity) : Option Ref :=
  match (activity.details.bind (·.field? "change_request")).bind (·.field? "ref") with
  | some (.str ref) => nonEmpty (some ref)
  | _ => none

/-- An activity of the range. -/
def activityOccurredInRange (range : TimeRange) (activity : DetailedActivity) : Bool :=
  timestampInRange (some activity.occurredAt) range

/-- The refs an activity names: its target, and a commit's change request. -/
def namedRefs (activity : DetailedActivity) : List Ref :=
  (nonEmpty activity.targetRef).toList ++
    if activity.kind = "commit" then (commitChangeRequestRef activity).toList else []

/-! ## Ranges -/

section Ranges

variable (localeCompare : String → String → Ordering) (items : List ItemDTO)
variable (edges : List EdgeDTO)

/-- What makes an edge the same. -/
def contractEdgeKey (edge : EdgeDTO) : EdgeType × Ref × Ref := (edge.type, edge.fromRef, edge.toRef)

/-- The edges with a loaded end updated in the range. -/
def rangeGraphEdges (byId : ItemsById) (range : TimeRange) : List EdgeDTO :=
  edges.filter fun edge =>
    (byId.get? edge.fromRef).any (itemUpdatedInRange range) ||
      (byId.get? edge.toRef).any (itemUpdatedInRange range)

/-- `buildRangeProjection`: the items and the activities of a range. -/
def buildRangeProjection (activities : List DetailedActivity) (range : TimeRange) :
    Projection × List DetailedActivity :=
  let byId : ItemsById := OrdMap.index (·.id) items
  let primaryIds := primaryIds items (itemUpdatedInRange range)
  let pin := programTrackerPin localeCompare items edges
  let selectedByKey := OrdMap.index contractEdgeKey
    (boardEdges edges primaryIds ++ rangeGraphEdges edges byId range ++ pin.edges)
  let selectedEdges := selectedByKey.values
  let rangedActivities := activities.filter (activityOccurredInRange range)
  let activityTargetIds := (rangedActivities.flatMap namedRefs).filter fun ref =>
    (byId.get? ref).isSome
  let refs : WindowRefs :=
    ⟨primaryIds, endpointIds selectedEdges, activityTargetIds, pin.trackerIds⟩
  (refs.project items (some range.fromIso) none selectedEdges, rangedActivities)

end Ranges

/-! ## What the parts hold -/

section Parts

variable {localeCompare : String → String → Ordering} {items : List ItemDTO}
variable {edges : List EdgeDTO} {ref : Ref}

/-- The ref of a primary item. -/
def IsPrimary (items : List ItemDTO) (primary : ItemDTO → Bool) (ref : Ref) : Prop :=
  ∃ item ∈ items, primary item = true ∧ item.id = ref

/-- One of the ends of an edge. -/
def IsEndOf (e : EdgeDTO) (ref : Ref) : Prop := e.fromRef = ref ∨ e.toRef = ref

/-- A child of a pinned tracker. -/
def IsPinnedChild (pin : TrackerPin) (edges : List EdgeDTO) (ref : Ref) : Prop :=
  ∃ e ∈ edges, e.type = .parent ∧ e.fromRef ∈ pin.trackerIds ∧ e.toRef = ref

theorem mem_primaryIds {primary : ItemDTO → Bool} :
    ref ∈ (primaryIds items primary).values ↔ IsPrimary items primary ref := by
  unfold primaryIds IsPrimary
  rw [← OrdSet.mem_def, OrdSet.mem_ofList]
  simp only [List.mem_map, List.mem_filter, and_assoc]

theorem mem_endpointIds : ref ∈ endpointIds edges ↔ ∃ e ∈ edges, IsEndOf e ref := by
  unfold endpointIds IsEndOf
  simp only [List.mem_flatMap, List.mem_cons, List.not_mem_nil, or_false, eq_comm]

theorem mem_pinnedChildIds {trackerIds : List Ref} : ref ∈ pinnedChildIds trackerIds edges ↔
    ∃ e ∈ edges, e.type = .parent ∧ e.fromRef ∈ trackerIds ∧ e.toRef = ref := by
  unfold pinnedChildIds
  simp only [List.mem_map, List.mem_filter, decide_eq_true_eq, and_assoc]

/-- A pinned tracker is an open item of the board, with the label and a
parent edge. -/
theorem tracker_of_mem {t : Ref}
    (h : t ∈ (programTrackerPin localeCompare items edges).trackerIds) :
    ∃ item ∈ items, isTracker edges item = true ∧ item.id = t := by
  unfold programTrackerPin at h
  simp only at h
  split at h
  · exact absurd h List.not_mem_nil
  · obtain ⟨item, hitem, rfl⟩ := List.mem_map.mp h
    obtain ⟨hmem, htracker⟩ := List.mem_filter.mp (mem_sortBy.mp (List.mem_of_mem_take hitem))
    exact ⟨item, hmem, htracker, rfl⟩

theorem parentEdge_of_isTracker {item : ItemDTO} (h : isTracker edges item = true) :
    ∃ e ∈ edges, e.type = .parent ∧ e.fromRef = item.id := by
  unfold isTracker at h
  simp only [Bool.and_eq_true, List.any_eq_true, decide_eq_true_eq] at h
  exact h.1.2

/-- What is pinned: the trackers' parent edges, and the blocks edges between
their children. -/
theorem mem_pin_edges {e : EdgeDTO} :
    e ∈ (programTrackerPin localeCompare items edges).edges ↔ e ∈ edges ∧
      (e.type = .parent ∧ e.fromRef ∈ (programTrackerPin localeCompare items edges).trackerIds ∨
        e.type = .blocks ∧
          IsPinnedChild (programTrackerPin localeCompare items edges) edges e.fromRef ∧
          IsPinnedChild (programTrackerPin localeCompare items edges) edges e.toRef) := by
  unfold programTrackerPin IsPinnedChild
  simp only
  split
  · simp
  · rw [List.mem_filter]
    refine and_congr_right fun _ => ?_
    unfold isPinnedEdge
    split
    · next htype => simp [htype]
    · next htype => simp [htype, mem_pinnedChildIds]

end Parts

end SymphonyBoard
