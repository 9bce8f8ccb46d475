import SymphonyBoard.Contract.ProjectionClosed
/-!
# A pinned tracker's progress in a window

`programRollup` of `packages/ui/src/program.ts` over what a window emits,
against the same over every live item and edge. The children of a pinned
tracker and their states are all there, and so is what is done. A child's
blockers and change requests are there when they or the child are primary,
or when a blocker is a pinned child too (`Known`); a child's status is
right exactly when one of those says it (`pinned_progress`).
-/

namespace SymphonyBoard

section Emitted

variable {items : List ItemDTO} {edges : List EdgeDTO} {pin : TrackerPin}
variable {primary : ItemDTO → Bool} {named : Ref → Prop} {out : Projection}

/-- The items by ref. -/
def itemsById (items : List ItemDTO) : ItemsById := OrdMap.index (·.id) items

theorem get?_itemsById {l : List ItemDTO} (hids : (l.map (·.id)).Nodup) {ref : Ref}
    {item : ItemDTO} : (itemsById l).get? ref = some item ↔ item ∈ l ∧ item.id = ref :=
  OrdMap.get?_index_eq_some fun _ ha _ hb h => List.inj_on_of_nodup_map hids ha hb h

/-- An emitted ref has the state it has on the board. -/
theorem Projects.stateOf_eq (h : Projects pin items edges primary named out)
    (hids : (items.map (·.id)).Nodup) {ref : Ref} (reason : ItemWindowReason)
    (hwhy : Why pin items primary named out reason ref) (state : Option ItemState) :
    stateOf (itemsById out.items) ref state = stateOf (itemsById items) ref state := by
  have hout : (out.items.map (·.id)).Nodup := hids.sublist h.order
  have hsame : ((itemsById out.items).get? ref).map (·.state) =
      ((itemsById items).get? ref).map (·.state) := by
    cases hitem : (itemsById items).get? ref with
    | none =>
      rw [Option.map_none, Option.map_eq_none_iff, Option.eq_none_iff_forall_ne_some]
      intro row hrow
      obtain ⟨hmem, rfl⟩ := (get?_itemsById hout).mp hrow
      obtain ⟨item, hitem', hid⟩ := List.mem_map.mp (h.order.subset (List.mem_map_of_mem hmem))
      rw [(get?_itemsById hids).mpr ⟨hitem', hid⟩] at hitem
      cases hitem
    | some item =>
      obtain ⟨hmem, rfl⟩ := (get?_itemsById hids).mp hitem
      obtain ⟨row, hrow, hid⟩ := h.emitted item hmem reason hwhy
      rw [(get?_itemsById hout).mpr ⟨hrow, hid⟩]
      obtain ⟨other, hother, heq⟩ := h.unchanged row hrow
      obtain rfl : other = item := List.inj_on_of_nodup_map hids hother hmem (by
        rw [← hid, heq])
      rw [heq]
      rfl
  unfold stateOf
  rw [hsame]

/-- Both readings agree on an emitted edge. -/
theorem Projects.blocking_iff (h : Projects pin items edges primary named out)
    (hids : (items.map (·.id)).Nodup) {e : EdgeDTO} (he : e ∈ out.edges) :
    Blocking (itemsById out.items) e ↔ Blocking (itemsById items) e := by
  unfold Blocking
  rw [h.stateOf_eq hids .edgeEndpoint ⟨e, he, Or.inl rfl⟩]

theorem Projects.reviewing_iff (h : Projects pin items edges primary named out)
    (hids : (items.map (·.id)).Nodup) {e : EdgeDTO} (he : e ∈ out.edges) :
    Reviewing (itemsById out.items) e ↔ Reviewing (itemsById items) e := by
  unfold Reviewing
  rw [h.stateOf_eq hids .edgeEndpoint ⟨e, he, Or.inl rfl⟩]

end Emitted

/-! ## Lists without repetition -/

/-- A list is searched as another with the same items, where only one of
them is looked for. -/
theorem find?_eq_of_mem_iff {α : Type} {p : α → Bool} {l l' : List α}
    (hmem : ∀ a, p a = true → (a ∈ l' ↔ a ∈ l))
    (hone : ∀ a ∈ l, ∀ b ∈ l, p a = true → p b = true → a = b) : l'.find? p = l.find? p := by
  cases hl : l.find? p with
  | none =>
    rw [List.find?_eq_none] at hl ⊢
    exact fun a ha hp => hl a ((hmem a hp).mp ha) hp
  | some a =>
    have hpa := List.find?_some hl
    have ha := List.mem_of_find?_eq_some hl
    cases hl' : l'.find? p with
    | none => exact absurd hpa (List.find?_eq_none.mp hl' a ((hmem a hpa).mpr ha))
    | some b =>
      have hpb := List.find?_some hl'
      have hb := (hmem b hpb).mp (List.mem_of_find?_eq_some hl')
      rw [hone b hb a ha hpb hpa]

/-! ## Progress -/

section Progress

variable {localeCompare : String → String → Ordering} {items : List ItemDTO}
variable {edges : List EdgeDTO} {primary : ItemDTO → Bool} {named : Ref → Prop} {out : Projection}
variable {t id : Ref}

/-- An edge at a primary item, or by which one pinned child blocks
another. -/
def Known (pin : TrackerPin) (items : List ItemDTO) (edges : List EdgeDTO)
    (primary : ItemDTO → Bool) (e : EdgeDTO) : Prop :=
  IsPrimary items primary e.fromRef ∨ IsPrimary items primary e.toRef ∨
    e.type = .blocks ∧ IsPinnedChild pin edges e.fromRef ∧ IsPinnedChild pin edges e.toRef

/-- Of the edges no tracker reports, a window has the known ones. -/
theorem mem_edges_iff_known
    (h : Projects (programTrackerPin localeCompare items edges) items edges primary named out)
    {e : EdgeDTO} (htype : e.type ≠ .parent) : e ∈ out.edges ↔
      e ∈ edges ∧ Known (programTrackerPin localeCompare items edges) items edges primary e := by
  rw [h.edge_iff, mem_pin_edges]
  unfold Known
  simp only [htype, false_and, false_or]
  tauto

/-- A pinned tracker's children are all there, in the states they have. -/
theorem childState_pinned
    (h : Projects (programTrackerPin localeCompare items edges) items edges primary named out)
    (hids : (items.map (·.id)).Nodup) (hkeys : (edges.map contractEdgeKey).Nodup)
    (ht : t ∈ (programTrackerPin localeCompare items edges).trackerIds) (id : Ref) :
    childState (itemsById out.items) out.edges t id = childState (itemsById items) edges t id := by
  have hkept : ∀ e, ParentEdge t id e → (e ∈ out.edges ↔ e ∈ edges) := by
    rintro e ⟨htype, rfl, -, -⟩
    refine ⟨fun he => ((h.edge_iff e).mp he).1, fun he => (h.edge_iff e).mpr ⟨he, ?_⟩⟩
    exact Or.inr (Or.inr (mem_pin_edges.mpr ⟨he, Or.inl ⟨htype, ht⟩⟩))
  have hfind : out.edges.find? (fun e => ParentEdge t id e) =
      edges.find? fun e => ParentEdge t id e := by
    refine find?_eq_of_mem_iff (fun e he => hkept e (of_decide_eq_true he)) ?_
    intro a ha b hb hpa hpb
    obtain ⟨htype, hfrom, hto, -⟩ := of_decide_eq_true hpa
    obtain ⟨htype', hfrom', hto', -⟩ := of_decide_eq_true hpb
    refine List.inj_on_of_nodup_map hkeys ha hb ?_
    unfold contractEdgeKey
    rw [htype, htype', hfrom, hfrom', hto, hto']
  unfold childState
  rw [hfind]
  cases he : edges.find? (fun e => ParentEdge t id e) with
  | none => rfl
  | some e =>
    have hparent : ParentEdge t id e := by simpa using List.find?_some he
    have hmem := (hkept e hparent).mpr (List.mem_of_find?_eq_some he)
    rw [Option.map_some, Option.map_some,
      h.stateOf_eq hids .edgeEndpoint ⟨e, hmem, Or.inr hparent.2.2.1⟩]

/-- What a window has of the edges that do something to a child. -/
theorem exists_known_iff
    (h : Projects (programTrackerPin localeCompare items edges) items edges primary named out)
    {Q Q' : EdgeDTO → Prop} (hparent : ∀ e, Q e → e.type ≠ .parent)
    (hsame : ∀ e ∈ out.edges, Q' e ↔ Q e) :
    (∃ e ∈ out.edges, Q' e ∧ e.toRef = id) ↔ ∃ e ∈ edges, (Q e ∧ e.toRef = id) ∧
      Known (programTrackerPin localeCompare items edges) items edges primary e := by
  constructor
  · rintro ⟨e, he, hq, hto⟩
    rw [hsame e he] at hq
    obtain ⟨hmem, hknown⟩ := (mem_edges_iff_known h (hparent e hq)).mp he
    exact ⟨e, hmem, ⟨hq, hto⟩, hknown⟩
  · rintro ⟨e, he, ⟨hq, hto⟩, hknown⟩
    have hmem := (mem_edges_iff_known h (hparent e hq)).mpr ⟨he, hknown⟩
    exact ⟨e, hmem, (hsame e hmem).mpr hq, hto⟩

theorem Blocking.not_parent {byId : ItemsById} {e : EdgeDTO} (h : Blocking byId e) :
    e.type ≠ .parent := by
  rw [h.1]
  decide

theorem Reviewing.not_parent {byId : ItemsById} {e : EdgeDTO} (h : Reviewing byId e) :
    e.type ≠ .parent := by
  rw [h.1]
  decide

/-- A known edge that blocks the child. -/
def KnownBlocker (pin : TrackerPin) (items : List ItemDTO) (edges : List EdgeDTO)
    (primary : ItemDTO → Bool) (id : Ref) : Prop :=
  ∃ e ∈ edges, (Blocking (itemsById items) e ∧ e.toRef = id) ∧ Known pin items edges primary e

/-- A known edge from an open change request to the child. -/
def KnownReview (pin : TrackerPin) (items : List ItemDTO) (edges : List EdgeDTO)
    (primary : ItemDTO → Bool) (id : Ref) : Prop :=
  ∃ e ∈ edges, (Reviewing (itemsById items) e ∧ e.toRef = id) ∧ Known pin items edges primary e

/-- A child's status in a window, against its status on the board. -/
structure StatusOf (pin : TrackerPin) (items : List ItemDTO) (edges : List EdgeDTO)
    (primary : ItemDTO → Bool) (id : Ref) (shown status : ProgramChildStatus) : Prop where
  done_iff : shown = .done ↔ status = .done
  blocked : shown = .blocked → status = .blocked
  right_iff : shown = status ↔
    (status = .blocked → KnownBlocker pin items edges primary id) ∧
      (status = .inReview → KnownReview pin items edges primary id)
  right_of_primary : IsPrimary items primary id → shown = status

/-- Two statuses read from what is known and from what there is. -/
theorem status_compare (D : Prop) {B R B' R' : Prop} [Decidable D] [Decidable B] [Decidable R]
    [Decidable B'] [Decidable R'] (hblocked : B' → B) (hreviewed : R' → R)
    {shown status : ProgramChildStatus}
    (hshown : shown =
      if D then .done else if B' then .blocked else if R' then .inReview else .ready)
    (hstatus : status =
      if D then .done else if B then .blocked else if R then .inReview else .ready) :
    (shown = .done ↔ status = .done) ∧ (shown = .blocked → status = .blocked) ∧
      (shown = status ↔ (status = .blocked → B') ∧ (status = .inReview → R')) ∧
      (status = .blocked → B) ∧ (status = .inReview → R) := by
  subst hshown hstatus
  by_cases hD : D
  · simp [hD]
  · by_cases hB' : B'
    · simp [hD, hB', hblocked hB']
    · by_cases hR' : R'
      · by_cases hB : B <;> simp [hD, hB', hR', hB, hreviewed hR']
      · by_cases hB : B
        · simp [hD, hB', hR', hB]
        · by_cases hR : R <;> simp [hD, hB', hR', hB, hR]

theorem statusOf_statusIn
    (h : Projects (programTrackerPin localeCompare items edges) items edges primary named out)
    (hids : (items.map (·.id)).Nodup) (state : Option ItemState) :
    StatusOf (programTrackerPin localeCompare items edges) items edges primary id
      (statusIn (itemsById out.items) out.edges id state)
      (statusIn (itemsById items) edges id state) := by
  have hblocker : (∃ e ∈ out.edges, Blocking (itemsById out.items) e ∧ e.toRef = id) ↔
      KnownBlocker (programTrackerPin localeCompare items edges) items edges primary id :=
    exists_known_iff h (fun _ => Blocking.not_parent) fun _ he => h.blocking_iff hids he
  have hreview : (∃ e ∈ out.edges, Reviewing (itemsById out.items) e ∧ e.toRef = id) ↔
      KnownReview (programTrackerPin localeCompare items edges) items edges primary id :=
    exists_known_iff h (fun _ => Reviewing.not_parent) fun _ he => h.reviewing_iff hids he
  have hblocks : (∃ e ∈ out.edges, Blocking (itemsById out.items) e ∧ e.toRef = id) →
      ∃ e ∈ edges, Blocking (itemsById items) e ∧ e.toRef = id := by
    intro hshown
    obtain ⟨e, he, hinto, -⟩ := hblocker.mp hshown
    exact ⟨e, he, hinto⟩
  have hreviews : (∃ e ∈ out.edges, Reviewing (itemsById out.items) e ∧ e.toRef = id) →
      ∃ e ∈ edges, Reviewing (itemsById items) e ∧ e.toRef = id := by
    intro hshown
    obtain ⟨e, he, hinto, -⟩ := hreview.mp hshown
    exact ⟨e, he, hinto⟩
  obtain ⟨hdone, hblocked, hright, hB, hR⟩ := status_compare (isDone state = true) hblocks hreviews
    (rfl : statusIn (itemsById out.items) out.edges id state = _)
    (rfl : statusIn (itemsById items) edges id state = _)
  refine ⟨hdone, hblocked, ?_, fun hprimary => hright.mpr ⟨fun hstatus => ?_, fun hstatus => ?_⟩⟩
  · rw [hright, hblocker, hreview]
  -- every edge into a primary child is known
  · obtain ⟨e, he, hinto⟩ := hB hstatus
    exact hblocker.mpr ⟨e, he, hinto, Or.inr (Or.inl (hinto.2 ▸ hprimary))⟩
  · obtain ⟨e, he, hinto⟩ := hR hstatus
    exact hreview.mpr ⟨e, he, hinto, Or.inr (Or.inl (hinto.2 ▸ hprimary))⟩

/-- A tracker's progress in a window, against its progress on the board. -/
structure ReadsProgress (localeCompare : String → String → Ordering) (pin : TrackerPin)
    (items : List ItemDTO) (edges : List EdgeDTO) (primary : ItemDTO → Bool) (out : Projection)
    (t : Ref) : Prop where
  children : ∀ id,
    id ∈ (progress (programRollup (itemsById out.items) localeCompare t out.edges)).map Prod.fst ↔
      id ∈ (progress (programRollup (itemsById items) localeCompare t edges)).map Prod.fst
  status : ∀ id shown status,
    (id, shown) ∈ progress (programRollup (itemsById out.items) localeCompare t out.edges) →
    (id, status) ∈ progress (programRollup (itemsById items) localeCompare t edges) →
      StatusOf pin items edges primary id shown status

theorem readsProgress_of_projects
    (h : Projects (programTrackerPin localeCompare items edges) items edges primary named out)
    (hids : (items.map (·.id)).Nodup) (hkeys : (edges.map contractEdgeKey).Nodup)
    (ht : t ∈ (programTrackerPin localeCompare items edges).trackerIds)
    (compare : String → String → Ordering) :
    ReadsProgress compare (programTrackerPin localeCompare items edges) items edges primary out
      t := by
  have hchild := childState_pinned h hids hkeys ht
  refine ⟨fun id => ?_, fun id shown status hshown hstatus => ?_⟩
  · simp only [List.mem_map, Prod.exists, exists_and_right, exists_eq_right,
      mem_progress_programRollup, hchild]
    constructor
    · rintro ⟨status, state, hstate, -⟩
      exact ⟨_, state, hstate, rfl⟩
    · rintro ⟨status, state, hstate, -⟩
      exact ⟨_, state, hstate, rfl⟩
  · obtain ⟨state, hstate, rfl⟩ := mem_progress_programRollup.mp hshown
    obtain ⟨state', hstate', rfl⟩ := mem_progress_programRollup.mp hstatus
    rw [hchild, hstate', Option.some.injEq] at hstate
    exact hstate ▸ statusOf_statusIn h hids state'

end Progress

/-! ## The windows of a store -/

section Store

variable {P : Type}

/-- **A pinned tracker's progress in both windows of a store.** -/
theorem pinned_progress (localeCompare compare : String → String → Ordering) (cfg : AppConfig)
    (s : Store P) (activities : List DetailedActivity) (range : TimeRange) {generatedAt : String}
    {windowed : Projection} {t : Ref}
    (hwindowed : buildWindowedProjection localeCompare (boardItems cfg s) (fullEdges cfg s)
      generatedAt = some windowed)
    (ht : t ∈ (boardPin localeCompare cfg s).trackerIds) :
    (∃ since, cutoffIso contractItemWindowDays generatedAt = some since ∧
      ReadsProgress compare (boardPin localeCompare cfg s) (boardItems cfg s) (fullEdges cfg s)
        (itemActiveSince since) windowed t) ∧
    ReadsProgress compare (boardPin localeCompare cfg s) (boardItems cfg s) (fullEdges cfg s)
      (itemUpdatedInRange range)
      (buildRangeProjection localeCompare (boardItems cfg s) (fullEdges cfg s) activities
        range).1 t := by
  have hids := nodup_boardItems cfg s
  have hkeys := nodup_fullEdges cfg s
  refine ⟨?_, readsProgress_of_projects
    (projects_buildRangeProjection hids hkeys activities range) hids hkeys ht compare⟩
  unfold buildWindowedProjection at hwindowed
  obtain ⟨since, hsince, rfl⟩ := Option.map_eq_some_iff.mp hwindowed
  have hedges := List.Nodup.of_map contractEdgeKey hkeys
  exact ⟨since, hsince,
    readsProgress_of_projects (projects_windowSince hids hedges since) hids hkeys ht compare⟩

end Store

open BlockedChild in
theorem pinned_progress_blockedChild :
    (∃ since, cutoffIso contractItemWindowDays generatedAt = some since ∧
      ReadsProgress textOrder (boardPin textOrder OneChild.config store)
        (boardItems OneChild.config store) (fullEdges OneChild.config store)
        (itemActiveSince since) windowed (refOfEndpoint (OneChild.endpoint "T"))) ∧
    ReadsProgress textOrder (boardPin textOrder OneChild.config store)
      (boardItems OneChild.config store) (fullEdges OneChild.config store)
      (itemUpdatedInRange range)
      (buildRangeProjection textOrder (boardItems OneChild.config store)
        (fullEdges OneChild.config store) [] range).1 (refOfEndpoint (OneChild.endpoint "T")) :=
  pinned_progress textOrder textOrder OneChild.config store [] range windowed_eq tracker_pinned

end SymphonyBoard
