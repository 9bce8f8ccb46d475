import SymphonyBoard.Contract.Projection
import SymphonyBoard.Graph.Sufficient
/-!
# The windows are closed

What a window emits of a board, said once for both windows (`Projects`):
the edges at a primary item and the pinned ones, and with each its live
ends; every row says exactly why it is emitted, and the counts are those of
the rows. A pinned tracker comes with its parent edges and its children
(`PinKept`). `windows_closed` is about the windows of a store.
-/

namespace SymphonyBoard

/-! ## Rows by their refs -/

section Rows

variable {refs : WindowRefs} {items : List ItemDTO} {row : ItemDTO} {id : Ref}

/-- The refs a reason goes by. -/
def WindowRefs.Holds (refs : WindowRefs) : ItemWindowReason → Ref → Prop
  | .primary, id => id ∈ refs.primaryIds.values
  | .edgeEndpoint, id => id ∈ refs.endpointIds
  | .activityTarget, id => id ∈ refs.activityTargetIds
  | .programTracker, id => id ∈ refs.trackerIds

theorem mem_reasons {reason : ItemWindowReason} :
    reason ∈ refs.reasons id ↔ refs.Holds reason id := by
  unfold WindowRefs.reasons WindowRefs.Holds
  cases reason <;> simp

theorem mem_windowRows : row ∈ refs.rows items ↔
    ∃ item ∈ items, refs.emits item.id = true ∧
      row = { item with windowReasons := refs.reasons item.id } := by
  unfold WindowRefs.rows
  simp only [List.mem_map, List.mem_filter, and_assoc, eq_comm]

theorem map_id_rows : (refs.rows items).map (·.id) =
    (items.filter fun item => refs.emits item.id).map (·.id) := by
  unfold WindowRefs.rows
  rw [List.map_map]
  rfl

/-- An item with a reason is emitted, a pinned tracker being an end. -/
theorem emits_iff (htrackers : ∀ t ∈ refs.trackerIds, t ∈ refs.endpointIds) :
    refs.emits id = true ↔ ∃ reason, refs.Holds reason id := by
  unfold WindowRefs.emits
  rw [decide_eq_true_eq]
  constructor
  · rintro (hprimary | hend | htarget)
    · exact ⟨.primary, hprimary⟩
    · exact ⟨.edgeEndpoint, hend⟩
    · exact ⟨.activityTarget, htarget⟩
  · rintro ⟨reason, hreason⟩
    cases reason with
    | primary => exact Or.inl hreason
    | edgeEndpoint => exact Or.inr (Or.inl hreason)
    | activityTarget => exact Or.inr (Or.inr hreason)
    | programTracker => exact Or.inr (Or.inl (htrackers id hreason))

/-- The primary refs are those of the rows that say so, each one row's. -/
theorem length_primaryIds (hids : (items.map (·.id)).Nodup) {primary : ItemDTO → Bool}
    (hprimary : refs.primaryIds = primaryIds items primary) :
    refs.primaryIds.values.length =
      (refs.rows items).countP fun row => .primary ∈ row.windowReasons := by
  have hrows : ((refs.rows items).map (·.id)).Nodup := by
    rw [map_id_rows]
    exact hids.sublist (List.filter_sublist.map _)
  have hperm : refs.primaryIds.values.Perm
      (((refs.rows items).filter fun row => .primary ∈ row.windowReasons).map (·.id)) := by
    refine (List.perm_ext_iff_of_nodup refs.primaryIds.nodup
      (hrows.sublist (List.filter_sublist.map _))).mpr fun id => ?_
    simp only [List.mem_map, List.mem_filter, decide_eq_true_eq]
    constructor
    · intro hid
      have hmem := hid
      rw [hprimary, mem_primaryIds] at hmem
      obtain ⟨item, hitem, -, rfl⟩ := hmem
      refine ⟨_, ⟨mem_windowRows.mpr ⟨item, hitem, ?_, rfl⟩, mem_reasons.mpr hid⟩, rfl⟩
      exact decide_eq_true (Or.inl hid)
    · rintro ⟨row, ⟨hrow, hreason⟩, rfl⟩
      obtain ⟨item, -, -, rfl⟩ := mem_windowRows.mp hrow
      exact mem_reasons.mp hreason
  rw [hperm.length_eq, List.length_map, List.countP_eq_length_filter]

theorem countP_rows {p q : ItemDTO → Bool}
    (h : ∀ item : ItemDTO, p { item with windowReasons := refs.reasons item.id } =
      q { item with windowReasons := refs.reasons item.id }) :
    (refs.rows items).countP p = (refs.rows items).countP q := by
  refine List.countP_congr fun row hrow => ?_
  obtain ⟨item, -, -, rfl⟩ := mem_windowRows.mp hrow
  rw [h]

end Rows

/-! ## Windows -/

section Windows

variable {localeCompare : String → String → Ordering} {items : List ItemDTO}
variable {edges : List EdgeDTO} {pin : TrackerPin} {primary : ItemDTO → Bool}
variable {named : Ref → Prop} {out : Projection}

/-- Why a window emits the item of a ref. -/
def Why (pin : TrackerPin) (items : List ItemDTO) (primary : ItemDTO → Bool)
    (named : Ref → Prop) (out : Projection) : ItemWindowReason → Ref → Prop
  | .primary, ref => IsPrimary items primary ref
  | .edgeEndpoint, ref => ∃ e ∈ out.edges, IsEndOf e ref
  | .activityTarget, ref => named ref
  | .programTracker, ref => ref ∈ pin.trackerIds

/-- What a window makes of a board's items and edges. -/
structure Projects (pin : TrackerPin) (items : List ItemDTO) (edges : List EdgeDTO)
    (primary : ItemDTO → Bool) (named : Ref → Prop) (out : Projection) : Prop where
  edge_iff : ∀ e, e ∈ out.edges ↔ e ∈ edges ∧
    (IsPrimary items primary e.fromRef ∨ IsPrimary items primary e.toRef ∨ e ∈ pin.edges)
  edges_nodup : out.edges.Nodup
  unchanged : ∀ row ∈ out.items, ∃ item ∈ items,
    row = { item with windowReasons := row.windowReasons }
  order : (out.items.map (·.id)).Sublist (items.map (·.id))
  why_iff : ∀ row ∈ out.items, ∀ reason,
    reason ∈ row.windowReasons ↔ Why pin items primary named out reason row.id
  has_reason : ∀ row ∈ out.items, row.windowReasons ≠ []
  emitted : ∀ item ∈ items, ∀ reason, Why pin items primary named out reason item.id →
    ∃ row ∈ out.items, row.id = item.id
  primaryItems : out.itemWindow.primaryItems =
    out.items.countP fun row => .primary ∈ row.windowReasons
  edgeEndpointItems : out.itemWindow.edgeEndpointItems =
    out.items.countP fun row => .primary ∉ row.windowReasons ∧ .edgeEndpoint ∈ row.windowReasons
  activityTargetItems : out.itemWindow.activityTargetItems =
    out.items.countP fun row => .primary ∉ row.windowReasons ∧ .activityTarget ∈ row.windowReasons
  totalItems : out.itemWindow.totalItems = items.length
  truncated : out.itemWindow.truncated = true ↔ ∃ item ∈ items, ∀ row ∈ out.items, row.id ≠ item.id

/-- The refs a window is projected by, given its edges. -/
structure ProjectsBy (refs : WindowRefs) (pin : TrackerPin) (items : List ItemDTO)
    (edges : List EdgeDTO) (primary : ItemDTO → Bool) (named : Ref → Prop)
    (selected : List EdgeDTO) : Prop where
  selected_iff : ∀ e, e ∈ selected ↔ e ∈ edges ∧
    (IsPrimary items primary e.fromRef ∨ IsPrimary items primary e.toRef ∨ e ∈ pin.edges)
  selected_nodup : selected.Nodup
  primaryIds : refs.primaryIds = primaryIds items primary
  endpointIds : refs.endpointIds = endpointIds selected
  targets : ∀ item ∈ items, item.id ∈ refs.activityTargetIds ↔ named item.id
  trackerIds : refs.trackerIds = pin.trackerIds
  trackers : ∀ t ∈ pin.trackerIds, ∃ e ∈ selected, e.fromRef = t

theorem ProjectsBy.holds_iff {refs : WindowRefs} {selected : List EdgeDTO}
    (h : ProjectsBy refs pin items edges primary named selected) {since : Option String}
    {days : Option ℤ} {item : ItemDTO} (hitem : item ∈ items) {reason : ItemWindowReason} :
    refs.Holds reason item.id ↔
      Why pin items primary named (refs.project items since days selected) reason item.id := by
  cases reason with
  | primary =>
    change item.id ∈ refs.primaryIds.values ↔ IsPrimary items primary item.id
    rw [h.primaryIds, mem_primaryIds]
  | edgeEndpoint =>
    change item.id ∈ refs.endpointIds ↔ ∃ e ∈ selected, IsEndOf e item.id
    rw [h.endpointIds, mem_endpointIds]
  | activityTarget => exact h.targets item hitem
  | programTracker =>
    change item.id ∈ refs.trackerIds ↔ item.id ∈ pin.trackerIds
    rw [h.trackerIds]

theorem ProjectsBy.projects {refs : WindowRefs} {selected : List EdgeDTO}
    (h : ProjectsBy refs pin items edges primary named selected)
    (hids : (items.map (·.id)).Nodup) (since : Option String) (days : Option ℤ) :
    Projects pin items edges primary named (refs.project items since days selected) := by
  have htrackers : ∀ t ∈ refs.trackerIds, t ∈ refs.endpointIds := by
    intro t ht
    rw [h.trackerIds] at ht
    obtain ⟨e, he, hfrom⟩ := h.trackers t ht
    rw [h.endpointIds, mem_endpointIds]
    exact ⟨e, he, Or.inl hfrom⟩
  refine
    { edge_iff := h.selected_iff
      edges_nodup := h.selected_nodup
      unchanged := fun row hrow => ?_
      order := ?_
      why_iff := fun row hrow reason => ?_
      has_reason := fun row hrow => ?_
      emitted := fun item hitem reason hwhy => ?_
      primaryItems := length_primaryIds hids h.primaryIds
      edgeEndpointItems := countP_rows fun item => ?_
      activityTargetItems := countP_rows fun item => ?_
      totalItems := rfl
      truncated := ?_ }
  · obtain ⟨item, hitem, -, rfl⟩ := mem_windowRows.mp hrow
    exact ⟨item, hitem, rfl⟩
  · change ((refs.rows items).map (·.id)).Sublist _
    rw [map_id_rows]
    exact List.filter_sublist.map _
  · obtain ⟨item, hitem, -, rfl⟩ := mem_windowRows.mp hrow
    exact mem_reasons.trans (h.holds_iff hitem)
  · obtain ⟨item, hitem, hemits, rfl⟩ := mem_windowRows.mp hrow
    obtain ⟨reason, hholds⟩ := (emits_iff htrackers).mp hemits
    exact List.ne_nil_of_mem (mem_reasons.mpr hholds)
  · have hemits := (emits_iff htrackers).mpr ⟨reason, (h.holds_iff hitem).mpr hwhy⟩
    exact ⟨_, mem_windowRows.mpr ⟨item, hitem, hemits, rfl⟩, rfl⟩
  · exact decide_eq_decide.mpr (and_congr (not_congr (@mem_reasons refs item.id .primary).symm)
      (@mem_reasons refs item.id .edgeEndpoint).symm)
  · exact decide_eq_decide.mpr (and_congr (not_congr (@mem_reasons refs item.id .primary).symm)
      (@mem_reasons refs item.id .activityTarget).symm)
  · change decide ((refs.rows items).length < items.length) = true ↔
      ∃ item ∈ items, ∀ row ∈ refs.rows items, row.id ≠ item.id
    unfold WindowRefs.rows
    rw [decide_eq_true_eq, List.length_map, List.length_filter_lt_length_iff_exists]
    refine exists_congr fun item => and_congr_right fun hitem => ?_
    constructor
    · intro hout row hrow heq
      obtain ⟨other, hother, rfl⟩ := List.mem_map.mp hrow
      exact hout (heq ▸ (List.mem_filter.mp hother).2)
    · intro hout hemits
      exact hout _ (List.mem_map_of_mem (List.mem_filter.mpr ⟨hitem, hemits⟩)) rfl

/-- A pinned tracker has a pinned edge. -/
theorem exists_pinned_edge {t : Ref}
    (h : t ∈ (programTrackerPin localeCompare items edges).trackerIds) :
    ∃ e ∈ edges, e ∈ (programTrackerPin localeCompare items edges).edges ∧ e.fromRef = t := by
  obtain ⟨item, -, htracker, rfl⟩ := tracker_of_mem h
  obtain ⟨e, he, htype, hfrom⟩ := parentEdge_of_isTracker htracker
  exact ⟨e, he, mem_pin_edges.mpr ⟨he, Or.inl ⟨htype, hfrom ▸ h⟩⟩, hfrom⟩

/-- **The window since a cutoff.** -/
theorem projects_windowSince (hids : (items.map (·.id)).Nodup) (hedges : edges.Nodup)
    (since : String) :
    Projects (programTrackerPin localeCompare items edges) items edges (itemActiveSince since)
      (fun _ => False) (windowSince localeCompare items edges since) := by
  unfold windowSince
  refine ProjectsBy.projects ⟨fun e => ?_, hedges.filter _, rfl, rfl, fun item _ => ?_, rfl,
    fun t ht => ?_⟩ hids _ _
  · simp only [List.mem_filter, mem_primaryIds, decide_eq_true_eq]
  · simp
  · obtain ⟨e, he, hpin, hfrom⟩ := exists_pinned_edge ht
    exact ⟨e, List.mem_filter.mpr ⟨he, decide_eq_true (Or.inr (Or.inr hpin))⟩, hfrom⟩

/-- An indexed list's values are distinct, their keys being. -/
theorem nodup_values_index {K α : Type} [DecidableEq K] (key : α → K) (l : List α) :
    (OrdMap.index key l).values.Nodup := by
  have hkeys : (OrdMap.index key l).values.map key = (OrdMap.index key l).entries.map Prod.fst := by
    unfold OrdMap.values
    rw [List.map_map]
    refine List.map_congr_left fun b hb => ?_
    have hget := OrdMap.mem_entries_iff.mp hb
    rw [OrdMap.get?_index] at hget
    exact of_decide_eq_true (List.mem_filter.mp (List.mem_of_getLast? hget)).2
  exact List.Nodup.of_map key (hkeys ▸ (OrdMap.index key l).nodup)

/-- The ref is named by an activity of the range. -/
def NamedInRange (activities : List DetailedActivity) (range : TimeRange) (ref : Ref) : Prop :=
  ∃ activity ∈ activities, activityOccurredInRange range activity = true ∧ ref ∈ namedRefs activity

/-- The edges of a range, each key's once. -/
theorem mem_rangeEdges (localeCompare : String → String → Ordering)
    (hids : (items.map (·.id)).Nodup) (hkeys : (edges.map contractEdgeKey).Nodup)
    (range : TimeRange) (e : EdgeDTO) :
    e ∈ (OrdMap.index contractEdgeKey
        (boardEdges edges (primaryIds items (itemUpdatedInRange range)) ++
        rangeGraphEdges edges (OrdMap.index (·.id) items) range ++
        (programTrackerPin localeCompare items edges).edges)).values ↔
      e ∈ edges ∧ (IsPrimary items (itemUpdatedInRange range) e.fromRef ∨
        IsPrimary items (itemUpdatedInRange range) e.toRef ∨
        e ∈ (programTrackerPin localeCompare items edges).edges) := by
  have hsame : ∀ a ∈ items, ∀ b ∈ items, a.id = b.id → a = b :=
    fun a ha b hb h => List.inj_on_of_nodup_map hids ha hb h
  have hloaded : ∀ ref, ((OrdMap.index (·.id) items : ItemsById).get? ref).any
      (itemUpdatedInRange range) = true ↔ IsPrimary items (itemUpdatedInRange range) ref := by
    intro ref
    rw [Option.any_eq_true]
    constructor
    · rintro ⟨item, hget, hupdated⟩
      obtain ⟨hitem, hid⟩ := (OrdMap.get?_index_eq_some hsame).mp hget
      exact ⟨item, hitem, hupdated, hid⟩
    · rintro ⟨item, hitem, hupdated, hid⟩
      exact ⟨item, (OrdMap.get?_index_eq_some hsame).mpr ⟨hitem, hid⟩, hupdated⟩
  -- the three sources of the edges, each read at its ends
  have hmem : ∀ e, e ∈ boardEdges edges (primaryIds items (itemUpdatedInRange range)) ++
      rangeGraphEdges edges (OrdMap.index (·.id) items) range ++
      (programTrackerPin localeCompare items edges).edges ↔
      e ∈ edges ∧ (IsPrimary items (itemUpdatedInRange range) e.fromRef ∨
        IsPrimary items (itemUpdatedInRange range) e.toRef ∨
        e ∈ (programTrackerPin localeCompare items edges).edges) := by
    intro e
    have hpin : e ∈ (programTrackerPin localeCompare items edges).edges → e ∈ edges :=
      fun h => (mem_pin_edges.mp h).1
    unfold boardEdges rangeGraphEdges
    simp only [List.mem_append, List.mem_filter, mem_primaryIds, decide_eq_true_eq,
      Bool.or_eq_true, hloaded]
    tauto
  rw [OrdMap.mem_values_iff, ← hmem]
  have hedge : ∀ a ∈ edges, ∀ b ∈ edges, contractEdgeKey a = contractEdgeKey b → a = b :=
    fun a ha b hb h => List.inj_on_of_nodup_map hkeys ha hb h
  constructor
  · rintro ⟨k, hk⟩
    rw [OrdMap.get?_index] at hk
    exact (List.mem_filter.mp (List.mem_of_getLast? hk)).1
  · intro he
    exact ⟨contractEdgeKey e, (OrdMap.get?_index_eq_some fun a ha b hb h =>
      hedge a ((hmem a).mp ha).1 b ((hmem b).mp hb).1 h).mpr ⟨he, rfl⟩⟩

/-- **The window of a range.** -/
theorem projects_buildRangeProjection (hids : (items.map (·.id)).Nodup)
    (hkeys : (edges.map contractEdgeKey).Nodup) (activities : List DetailedActivity)
    (range : TimeRange) :
    Projects (programTrackerPin localeCompare items edges) items edges (itemUpdatedInRange range)
      (NamedInRange activities range)
      (buildRangeProjection localeCompare items edges activities range).1 := by
  unfold buildRangeProjection
  have hmem := mem_rangeEdges localeCompare hids hkeys range
  refine ProjectsBy.projects ⟨hmem, ?_, rfl, rfl, fun item hitem => ?_, rfl, fun t ht => ?_⟩
    hids _ _
  · exact nodup_values_index contractEdgeKey _
  · have hloaded : ((OrdMap.index (·.id) items : ItemsById).get? item.id).isSome = true := by
      have hget := (OrdMap.get?_index_eq_some fun a ha b hb h =>
        List.inj_on_of_nodup_map hids ha hb h).mpr ⟨hitem, rfl⟩
      rw [hget]
      rfl
    unfold NamedInRange
    simp only [List.mem_filter, List.mem_flatMap, hloaded, and_true, and_assoc]
  · obtain ⟨e, he, hpin, hfrom⟩ := exists_pinned_edge ht
    exact ⟨e, (hmem e).mpr ⟨he, Or.inr (Or.inr hpin)⟩, hfrom⟩

end Windows

/-! ## Pinned trackers -/

section Pinned

variable {items : List ItemDTO} {edges : List EdgeDTO} {pin : TrackerPin}
variable {primary : ItemDTO → Bool} {named : Ref → Prop} {out : Projection}

/-- A window has a pinned tracker's row, its parent edges and its children,
and the edges by which pinned children block each other. -/
structure PinKept (pin : TrackerPin) (items : List ItemDTO) (edges : List EdgeDTO)
    (out : Projection) : Prop where
  tracker : ∀ t ∈ pin.trackerIds, ∃ row ∈ out.items, row.id = t ∧
    .programTracker ∈ row.windowReasons
  parent : ∀ t ∈ pin.trackerIds, ∀ e ∈ edges, e.type = .parent → e.fromRef = t → e ∈ out.edges
  child : ∀ item ∈ items, IsPinnedChild pin edges item.id → ∃ row ∈ out.items, row.id = item.id
  blocks : ∀ e ∈ edges, e.type = .blocks → IsPinnedChild pin edges e.fromRef →
    IsPinnedChild pin edges e.toRef → e ∈ out.edges

theorem pinKept_of_projects {localeCompare : String → String → Ordering}
    (h : Projects (programTrackerPin localeCompare items edges) items edges primary named out) :
    PinKept (programTrackerPin localeCompare items edges) items edges out := by
  have hparent : ∀ t ∈ (programTrackerPin localeCompare items edges).trackerIds, ∀ e ∈ edges,
      e.type = .parent → e.fromRef = t → e ∈ out.edges := by
    rintro t ht e he htype rfl
    exact (h.edge_iff e).mpr ⟨he, Or.inr (Or.inr (mem_pin_edges.mpr ⟨he, Or.inl ⟨htype, ht⟩⟩))⟩
  refine ⟨fun t ht => ?_, hparent, fun item hitem hchild => ?_, fun e he htype hfrom hto => ?_⟩
  · obtain ⟨item, hitem, -, rfl⟩ := tracker_of_mem ht
    obtain ⟨row, hrow, hid⟩ := h.emitted item hitem .programTracker ht
    exact ⟨row, hrow, hid, (h.why_iff row hrow .programTracker).mpr (hid ▸ ht)⟩
  · obtain ⟨e, he, htype, ht, hto⟩ := hchild
    exact h.emitted item hitem .edgeEndpoint ⟨e, hparent _ ht e he htype rfl, Or.inr hto⟩
  · exact (h.edge_iff e).mpr
      ⟨he, Or.inr (Or.inr (mem_pin_edges.mpr ⟨he, Or.inr ⟨htype, hfrom, hto⟩⟩))⟩

end Pinned

/-! ## The windows of a store -/

section Store

variable {P : Type}

/-- The live items the configuration admits, as rows. -/
def boardItems (cfg : AppConfig) (s : Store P) : List ItemDTO :=
  mapItems (some (configuredRepoRefs cfg)) s.listLiveItems s.listLabels

/-- What is pinned of a store. -/
def boardPin (localeCompare : String → String → Ordering) (cfg : AppConfig) (s : Store P) :
    TrackerPin :=
  programTrackerPin localeCompare (boardItems cfg s) (fullEdges cfg s)

theorem nodup_boardItems (cfg : AppConfig) (s : Store P) :
    ((boardItems cfg s).map (·.id)).Nodup := by
  have hkeys : (s.listLiveItems.map fun row => refOfEndpoint row.1).Nodup := by
    have hlive : (s.liveItems.map Prod.fst).Nodup :=
      s.items.nodup.sublist (List.filter_sublist.map _)
    have hlisted : (s.listLiveItems.map Prod.fst).Nodup := by
      unfold Store.listLiveItems
      exact (((sortBy_perm _ _).trans (List.reverse_perm _)).map Prod.fst).nodup_iff.mpr hlive
    have hrefs := hlisted.map refOfEndpoint_injective
    rwa [List.map_map] at hrefs
  unfold boardItems mapItems
  refine List.Nodup.sublist (List.filter_sublist.map _) ?_
  rw [List.map_map]
  exact hkeys

theorem nodup_fullEdges (cfg : AppConfig) (s : Store P) :
    ((fullEdges cfg s).map contractEdgeKey).Nodup := by
  have hlive : (s.liveEdges.map Prod.fst).Nodup :=
    s.edges.nodup.sublist (List.filter_sublist.map _)
  have hinj : Function.Injective fun k : EdgeRowKey =>
      (k.1, refOfEndpoint k.2.1, refOfEndpoint k.2.2) := by
    rintro ⟨type, e, e'⟩ ⟨type', f, f'⟩ h
    simp only [Prod.mk.injEq, refOfEndpoint_injective.eq_iff] at h
    obtain ⟨rfl, rfl, rfl⟩ := h
    rfl
  have hkeys := hlive.map hinj
  unfold fullEdges mapEdges
  refine List.Nodup.sublist (List.filter_sublist.map _) ?_
  rw [List.map_map]
  refine List.Nodup.sublist (List.filter_sublist.map _) ?_
  rw [List.map_map] at hkeys
  exact hkeys

/-- A window emits nothing of an unconfigured repository. -/
structure Scoped (cfg : AppConfig) (s : Store P) (out : Projection) : Prop where
  item : ∀ row ∈ out.items,
    repoAllowed (some (configuredRepoRefs cfg)) row.sourceId row.projectPath = true
  edge : ∀ e ∈ out.edges, ∃ row ∈ s.liveEdges,
    AdmitsEndpoint (some (configuredRepoRefs cfg)) s.listLiveItems row.1.2.1 ∧
      AdmitsEndpoint (some (configuredRepoRefs cfg)) s.listLiveItems row.1.2.2 ∧ toEdgeDTO row = e

/-- A window of a store is its projection, keeps what is pinned and stays
in the configured repositories. -/
structure ClosedWindow (localeCompare : String → String → Ordering) (cfg : AppConfig) (s : Store P)
    (primary : ItemDTO → Bool) (named : Ref → Prop) (out : Projection) : Prop where
  projects : Projects (boardPin localeCompare cfg s) (boardItems cfg s) (fullEdges cfg s) primary
    named out
  pinKept : PinKept (boardPin localeCompare cfg s) (boardItems cfg s) (fullEdges cfg s) out
  configured : Scoped cfg s out

theorem closedWindow_of_projects {localeCompare : String → String → Ordering} {cfg : AppConfig}
    {s : Store P} {primary : ItemDTO → Bool} {named : Ref → Prop} {out : Projection}
    (h : Projects (boardPin localeCompare cfg s) (boardItems cfg s) (fullEdges cfg s) primary
      named out) : ClosedWindow localeCompare cfg s primary named out := by
  refine ⟨h, pinKept_of_projects h, fun row hrow => ?_, fun e he => ?_⟩
  · obtain ⟨item, hitem, heq⟩ := h.unchanged row hrow
    rw [heq]
    exact (List.mem_filter.mp hitem).2
  · exact mem_fullEdges.mp ((h.edge_iff e).mp he).1

/-- **Both windows of a store are closed.** -/
theorem windows_closed (localeCompare : String → String → Ordering) (cfg : AppConfig)
    (s : Store P) (activities : List DetailedActivity) (range : TimeRange) {generatedAt : String}
    {windowed : Projection}
    (hwindowed : buildWindowedProjection localeCompare (boardItems cfg s) (fullEdges cfg s)
      generatedAt = some windowed) :
    (∃ since, cutoffIso contractItemWindowDays generatedAt = some since ∧
      ClosedWindow localeCompare cfg s (itemActiveSince since) (fun _ => False) windowed) ∧
    ClosedWindow localeCompare cfg s (itemUpdatedInRange range) (NamedInRange activities range)
      (buildRangeProjection localeCompare (boardItems cfg s) (fullEdges cfg s) activities
        range).1 := by
  have hids := nodup_boardItems cfg s
  have hkeys := nodup_fullEdges cfg s
  refine ⟨?_, closedWindow_of_projects (projects_buildRangeProjection hids hkeys activities range)⟩
  unfold buildWindowedProjection at hwindowed
  obtain ⟨since, hsince, rfl⟩ := Option.map_eq_some_iff.mp hwindowed
  have hedges := List.Nodup.of_map contractEdgeKey hkeys
  exact ⟨since, hsince, closedWindow_of_projects (projects_windowSince hids hedges since)⟩

end Store

/-! ## A tracker with a blocked child -/

namespace BlockedChild

open OneChild (endpoint issue edge)

/-- The tracker `T` and its child `C`, which `D` blocks; none of the three
was updated of late. -/
def store : Store Unit :=
  { Store.empty .sqlite with
    items := OrdMap.empty.set (endpoint "T") (issue "T")
    itemLabels := OrdMap.empty.set (endpoint "T") [⟨trackingLabel, some "workflow", none⟩]
    edges := (OrdMap.empty.set (.parent, endpoint "T", endpoint "C") edge).set
      (.blocks, endpoint "D", endpoint "C") edge }

/-- When the contract is generated. -/
def generatedAt : String := "2026-06-01T08:00:00.000Z"

/-- What the window opens at. -/
def since : String := "2026-03-03T08:00:00.000Z"

/-- The range asked for. -/
def range : TimeRange := ⟨"2026-05-01T00:00:00.000Z", "2026-05-31T23:59:59.999Z"⟩

/-- The board as it is sent. -/
def windowed : Projection :=
  windowSince textOrder (boardItems OneChild.config store) (fullEdges OneChild.config store) since

theorem windowed_eq : buildWindowedProjection textOrder (boardItems OneChild.config store)
    (fullEdges OneChild.config store) generatedAt = some windowed := by
  have hsince : cutoffIso contractItemWindowDays generatedAt = some since := by decide +kernel
  unfold buildWindowedProjection
  rw [hsince]
  rfl

theorem tracker_pinned :
    refOfEndpoint (endpoint "T") ∈ (boardPin textOrder OneChild.config store).trackerIds := by
  decide +kernel

end BlockedChild

open BlockedChild in
theorem windows_closed_blockedChild :
    (∃ since, cutoffIso contractItemWindowDays generatedAt = some since ∧
      ClosedWindow textOrder OneChild.config store (itemActiveSince since) (fun _ => False)
        windowed) ∧
    ClosedWindow textOrder OneChild.config store (itemUpdatedInRange range)
      (NamedInRange [] range)
      (buildRangeProjection textOrder (boardItems OneChild.config store)
        (fullEdges OneChild.config store) [] range).1 :=
  windows_closed textOrder OneChild.config store [] range windowed_eq

end SymphonyBoard
