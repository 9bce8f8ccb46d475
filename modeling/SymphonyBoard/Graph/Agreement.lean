import SymphonyBoard.Graph.Frontier
import SymphonyBoard.Graph.Sufficient
/-!
# Frontier reads and the whole graph

What `readGraphNeighborhoodSnapshot` answers against the neighbourhood of
all live items and edges. A read that nothing cut reaches the same refs at
the same hops with the same items (`node_read_iff`), and its edges are the
ones with an end that was traversed. The two then differ by the edges
between two items that only a mention of the focus reaches, whose own edges
are never read (`agrees_iff`).
-/

namespace SymphonyBoard

variable {P : Type}

/-- The neighbourhood of all live items and edges. -/
def fullNeighborhood (localeCompare : String → String → Ordering) (cfg : AppConfig) (s : Store P)
    (generatedAt : String) (focusRef : Ref) (depth : ℕ) (mode : GraphNeighborhoodMentionMode) :
    Except String GraphNeighborhoodResponse :=
  buildGraphNeighborhood localeCompare (configuredRepoRefs cfg) s.listLiveItems s.listLabels
    s.listLiveEdges generatedAt focusRef depth mode graphNeighborhoodMaxNodes
    graphNeighborhoodMaxEdges

/-- The same item, its labels in any order. -/
def SameItem (a b : Option ItemDTO) : Prop :=
  a.map (fun i => { i with labels := [] }) = b.map (fun i => { i with labels := [] }) ∧
    ∀ x ∈ a, ∀ y ∈ b, x.labels.Perm y.labels

/-- Two responses with the same nodes, hops and edges. -/
structure SameGraph (r f : GraphNeighborhoodResponse) : Prop where
  nodes : ∀ ref hop, (∃ n ∈ r.nodes, n.ref = ref ∧ n.hop = hop) ↔
    ∃ n ∈ f.nodes, n.ref = ref ∧ n.hop = hop
  items : ∀ n ∈ r.nodes, ∀ m ∈ f.nodes, n.ref = m.ref → SameItem n.item m.item
  edges : ∀ e, e ∈ r.edges ↔ e ∈ f.edges

/-- A response that holds every eligible edge between two of its nodes. -/
def HoldsInduced (cfg : AppConfig) (s : Store P) (mode : GraphNeighborhoodMentionMode)
    (focusRef : Ref) (r : GraphNeighborhoodResponse) : Prop :=
  ∀ e ∈ fullEdges cfg s, EligibleEdge mode focusRef e → (∃ n ∈ r.nodes, n.ref = e.fromRef) →
    (∃ n ∈ r.nodes, n.ref = e.toRef) → e ∈ r.edges

/-- Where no cap is hit the response is the whole graph's; where it is
complete it holds every edge among its nodes. -/
structure Agrees (cfg : AppConfig) (s : Store P) (mode : GraphNeighborhoodMentionMode)
    (focusRef : Ref) (r f : GraphNeighborhoodResponse) : Prop where
  same : r.Uncut → f.Uncut → SameGraph r f
  induced : r.complete = true → HoldsInduced cfg s mode focusRef r

/-- A ref that a mention of the focus reaches and the traversal does not. -/
def MentionLeaf (localeCompare : String → String → Ordering) (cfg : AppConfig) (s : Store P)
    (focusRef : Ref) (depth : ℕ) (ref : Ref) : Prop :=
  MentionedBy (fullEdges cfg s) focusRef ref ∧
    ¬Near localeCompare .direct cfg s focusRef depth ref

/-- No structural edge joins two such refs. -/
def NoLeafEdge (localeCompare : String → String → Ordering) (cfg : AppConfig) (s : Store P)
    (focusRef : Ref) (depth : ℕ) (mode : GraphNeighborhoodMentionMode) : Prop :=
  mode = .direct → ∀ e ∈ fullEdges cfg s, e.type ≠ .mentions →
    ¬(MentionLeaf localeCompare cfg s focusRef depth e.fromRef ∧
      MentionLeaf localeCompare cfg s focusRef depth e.toRef)

variable {localeCompare : String → String → Ordering} {cfg : AppConfig} {s : Store P}
  {mode : GraphNeighborhoodMentionMode} {focusRef generatedAt : String} {depth : ℕ}
  {st : FrontierRead} {r f : GraphNeighborhoodResponse}

/-! ## The graph that was read -/

/-- The rows that were read are all admitted. -/
theorem mem_mapEdges_read (hsound : Sound (configuredRepoRefs cfg) s mode focusRef st) {e : EdgeDTO} :
    e ∈ mapEdges (some (configuredRepoRefs cfg)) st.itemsByRef.values st.edgesByKey.entries ↔
      e ∈ st.edgesByKey.entries.map toEdgeDTO := by
  rw [mem_mapEdges, List.mem_map]
  constructor
  · rintro ⟨row, hrow, -, -, rfl⟩
    exact ⟨row, hrow, rfl⟩
  · rintro ⟨row, hrow, rfl⟩
    have hadmits : ∀ end' : ItemEndpoint, refOfEndpoint end' ∈ rowRefs row →
        AdmitsEndpoint (some (configuredRepoRefs cfg)) st.itemsByRef.values end' := by
      intro end' hend
      have hfull := hsound.admits ((hsound.rows row hrow).2.2 _ hend)
      refine ⟨hfull.source, fun item hitem hkey => hfull.row item ?_ hkey⟩
      obtain ⟨ref, hget⟩ := OrdMap.mem_values_iff.mp hitem
      exact mem_listLiveItems.mpr (hsound.items ref item hget).1
    exact ⟨row, hrow, hadmits _ List.mem_cons_self,
      hadmits _ (List.mem_cons_of_mem _ List.mem_cons_self), rfl⟩

/-- The edges read are the eligible ones with an end within the depth. -/
theorem mem_edges_read (hread : ReadAll localeCompare cfg s mode focusRef depth st) {e : EdgeDTO} :
    e ∈ st.edgesByKey.entries.map toEdgeDTO ↔
      e ∈ fullEdges cfg s ∧ EligibleEdge mode focusRef e ∧
        (Near localeCompare mode cfg s focusRef depth e.fromRef ∨
          Near localeCompare mode cfg s focusRef depth e.toRef) := by
  rw [List.mem_map, mem_fullEdges]
  have hnear : ∀ row : EdgeRecord, (∃ ref ∈ rowRefs row, Near localeCompare mode cfg s focusRef depth
      ref) ↔ Near localeCompare mode cfg s focusRef depth (toEdgeDTO row).fromRef ∨
        Near localeCompare mode cfg s focusRef depth (toEdgeDTO row).toRef := by
    intro row
    simp [rowRefs, toEdgeDTO]
  constructor
  · rintro ⟨row, hrow, rfl⟩
    obtain ⟨hlive, ⟨hfrom, hto⟩, heligible, hseen⟩ := (hread row).mp hrow
    exact ⟨⟨row, hlive, hfrom, hto, rfl⟩, heligible, (hnear row).mp hseen⟩
  · rintro ⟨⟨row, hlive, hfrom, hto, rfl⟩, heligible, hseen⟩
    exact ⟨row, (hread row).mpr ⟨hlive, ⟨hfrom, hto⟩, heligible, (hnear row).mpr hseen⟩, rfl⟩

/-- **What was read reaches what the full graph reaches.** -/
theorem hopAt_read (hread : ReadAll localeCompare cfg s mode focusRef depth st) {ref : Ref}
    {hop : ℕ} :
    HopAt localeCompare mode (st.edgesByKey.entries.map toEdgeDTO) focusRef depth ref hop ↔
      HopAt localeCompare mode (fullEdges cfg s) focusRef depth ref hop := by
  refine hopAt_congr (fun k hk ref => within_read hread ?_ hk) fun ref => ?_
  · exact fun k hk ref hnear => hnear.mono (by omega)
  · -- the mentions of the focus are read with the focus
    unfold MentionedBy
    simp only [mem_edges_read hread]
    refine exists_congr fun e => ⟨fun ⟨⟨he, _⟩, hrest⟩ => ⟨he, hrest⟩, ?_⟩
    rintro ⟨he, htype, hother⟩
    refine ⟨⟨he, ?_⟩, htype, hother⟩
    have hfocus : Near localeCompare mode cfg s focusRef depth focusRef := within_start depth
    rcases otherRef_eq_some.mp hother with ⟨hfrom, -⟩ | ⟨hto, -⟩
    · exact ⟨Or.inr (Or.inr (Or.inl hfrom)), Or.inl (hfrom ▸ hfocus)⟩
    · exact ⟨Or.inr (Or.inr (Or.inr hto)), Or.inr (hto ▸ hfocus)⟩

/-! ## The items of what was read -/

/-- What is reached is allowed. -/
theorem allowed_of_hopAt (hsound : Sound (configuredRepoRefs cfg) s mode focusRef st) {ref : Ref}
    {hop : ℕ}
    (h : HopAt localeCompare mode (st.edgesByKey.entries.map toEdgeDTO) focusRef depth ref hop) :
    ref ∈ st.allowedRefs := by
  have hother : ∀ e ∈ st.edgesByKey.entries.map toEdgeDTO, ∀ x y, otherRef e x = some y →
      y ∈ st.allowedRefs := by
    intro e he x y hxy
    obtain ⟨row, hrow, rfl⟩ := List.mem_map.mp he
    exact (hsound.rows row hrow).2.2 y (mem_rowRefs_of_otherRef hxy).2
  have hwithin : ∀ k ref, Within (neighboursOf localeCompare mode
      (st.edgesByKey.entries.map toEdgeDTO)) focusRef k ref → ref ∈ st.allowedRefs := by
    intro k
    induction k with
    | zero =>
      rintro ref rfl
      exact hsound.focus
    | succ k ih =>
      rintro ref (hnear | ⟨x, -, hlinked⟩)
      · exact ih ref hnear
      · obtain ⟨e, he, -, hxy⟩ := linked_neighboursOf.mp hlinked
        exact hother e he x ref hxy
  rcases h with ⟨-, hnear, -⟩ | ⟨-, -, ⟨e, he, -, hxy⟩, -⟩
  · exact hwithin hop ref hnear
  · exact hother e he focusRef ref hxy

theorem labels_listLabels (row : ItemRecord) :
    (toItemDTO s.listLabels row).labels = (s.itemLabels.get? row.1).getD [] := by
  unfold toItemDTO Store.listLabels
  simp only
  rw [OrdMap.filter_flatMap_entries s.itemLabels Prod.snd row.1]
  cases s.itemLabels.get? row.1 with
  | none => rfl
  | some labels => rfl

/-- The labels of an item among those read are its labels, by name. -/
theorem labels_listLabelsByItemIds {items : List ItemRecord} {row : ItemRecord} (hrow : row ∈ items)
    (hlive : row ∈ s.liveItems) :
    (toItemDTO (s.listLabelsByItemIds items) row).labels =
      sortBy (on textOrder (·.name)) ((s.itemLabels.get? row.1).getD []) := by
  unfold toItemDTO Store.listLabelsByItemIds
  simp only
  let read : OrdMap ItemEndpoint ItemRow :=
    ⟨s.items.entries.filter fun r => decide (r.1 ∈ items.map Prod.fst),
      (List.filter_sublist.map Prod.fst).nodup s.items.nodup⟩
  have hget : read.get? row.1 = some row.2 := by
    refine OrdMap.mem_entries_iff.mp (List.mem_filter.mpr ⟨(List.mem_filter.mp hlive).1, ?_⟩)
    exact decide_eq_true (List.mem_map_of_mem hrow)
  have hlabels := OrdMap.filter_flatMap_entries read
    (fun r => sortBy (on textOrder (·.name)) ((s.itemLabels.get? r.1).getD [])) row.1
  rw [hget] at hlabels
  exact hlabels

/-- **An allowed ref has the item it has in the full graph.** -/
theorem sameItem_read (hsound : Sound (configuredRepoRefs cfg) s mode focusRef st) {ref : Ref}
    (href : ref ∈ st.allowedRefs) :
    SameItem ((OrdMap.index (·.id) (mapItems (some (configuredRepoRefs cfg)) st.itemsByRef.values
        (s.listLabelsByItemIds st.itemsByRef.values))).get? ref)
      ((OrdMap.index (·.id) (mapItems (some (configuredRepoRefs cfg)) s.listLiveItems
        s.listLabels)).get? ref) := by
  have hvalues : ∀ row ∈ st.itemsByRef.values, row ∈ s.liveItems := by
    intro row hrow
    obtain ⟨key, hget⟩ := OrdMap.mem_values_iff.mp hrow
    exact (hsound.items key row hget).1
  have hread := @OrdMap.get?_index_eq_some Ref ItemDTO _ (·.id) _
    (@mapItems_id_inj P cfg s (s.listLabelsByItemIds st.itemsByRef.values) _ hvalues)
  have hfull := @OrdMap.get?_index_eq_some Ref ItemDTO _ (·.id) _
    (@mapItems_id_inj P cfg s s.listLabels _ fun row hrow => mem_listLiveItems.mp hrow)
  obtain ⟨e, -, rfl, hadmits⟩ := hsound.allowed ref href
  by_cases hrow : ∃ row ∈ s.liveItems, row.1 = e
  · obtain ⟨row, hlive, rfl⟩ := hrow
    have hallowed := hadmits.row row (mem_listLiveItems.mpr hlive) rfl
    have hloaded : row ∈ st.itemsByRef.values :=
      OrdMap.mem_values_iff.mpr ⟨_, hsound.loaded row hlive href⟩
    have hlist := mem_listLiveItems.mpr hlive
    rw [(@hread (refOfEndpoint row.1) _).mpr
        ⟨mem_mapItems.mpr ⟨row, hloaded, hallowed, rfl⟩, rfl⟩,
      (@hfull (refOfEndpoint row.1) _).mpr ⟨mem_mapItems.mpr ⟨row, hlist, hallowed, rfl⟩, rfl⟩]
    refine ⟨rfl, ?_⟩
    rintro _ ⟨⟩ _ ⟨⟩
    rw [labels_listLabels, labels_listLabelsByItemIds hloaded hlive]
    exact sortBy_perm _ _
  · have hnone : ∀ {rows : List ItemRecord} {labels : List LabelRecord} {item : ItemDTO},
        (∀ row ∈ rows, row ∈ s.liveItems) →
        ¬(item ∈ mapItems (some (configuredRepoRefs cfg)) rows labels ∧
          item.id = refOfEndpoint e) := by
      rintro rows labels item hlive ⟨hitem, hid⟩
      obtain ⟨row, hmem, -, rfl⟩ := mem_mapItems.mp hitem
      exact hrow ⟨row, hlive row hmem, refOfEndpoint_injective hid⟩
    rw [Option.eq_none_iff_forall_ne_some.mpr fun item hget => hnone hvalues (hread.mp hget),
      Option.eq_none_iff_forall_ne_some.mpr fun item hget =>
        hnone (fun row hrow => mem_listLiveItems.mp hrow) (hfull.mp hget)]
    refine ⟨rfl, ?_⟩
    rintro _ ⟨⟩

/-! ## The response that was read -/

theorem pathsNonEmpty_of_accepted {isValidTimezone : String → Bool}
    (c : AcceptedConfig isValidTimezone) : PathsNonEmpty (configuredRepoRefs c.cfg) := by
  intro repo hrepo
  obtain ⟨source, hsource, hrepo⟩ := List.mem_flatMap.mp hrepo
  obtain ⟨entry, hentry, rfl⟩ := List.mem_map.mp hrepo
  exact c.path_ne hsource hentry

theorem sound_start {focusRow : ItemRecord}
    (hfocus : LiveFocus (configuredRepoRefs cfg) s focusRef focusRow) :
    Sound (configuredRepoRefs cfg) s mode focusRef (FrontierRead.start focusRef focusRow) := by
  have hadmits : AdmitsEndpoint (some (configuredRepoRefs cfg)) s.listLiveItems focusRow.1 := by
    refine ⟨sourceAllowed_of_repoAllowed hfocus.allowed, fun row hrow hkey => ?_⟩
    rw [Store.liveItems_key (mem_listLiveItems.mp hrow) hfocus.live hkey]
    exact hfocus.allowed
  unfold FrontierRead.start
  refine ⟨List.mem_singleton_self _, ?_, ?_, ?_, fun row hrow => absurd hrow List.not_mem_nil,
    fun ref href => href⟩
  · intro ref href
    rw [List.mem_singleton.mp href]
    exact ⟨focusRow.1, hfocus.named, hfocus.ref, hadmits⟩
  · intro ref row hget
    rw [OrdMap.get?_set] at hget
    split at hget
    · obtain rfl := Option.some.inj hget
      exact ⟨hfocus.live, hfocus.allowed⟩
    · cases hget
  · intro row hlive href
    have hkey : row.1 = focusRow.1 :=
      refOfEndpoint_injective ((List.mem_singleton.mp href).trans hfocus.ref.symm)
    rw [Store.liveItems_key hlive hfocus.live hkey, OrdMap.get?_set, if_pos hfocus.ref.symm]

theorem exact_start {focusRow : ItemRecord} :
    Exact localeCompare cfg s mode focusRef depth 0 (FrontierRead.start focusRef focusRow) := by
  unfold FrontierRead.start
  refine ⟨?_, ?_, ?_⟩
  · simp
  · intro _ ref
    rw [List.mem_singleton]
    exact ⟨fun href => ⟨href, fun j hj => absurd hj (Nat.not_lt_zero j)⟩, And.left⟩
  · intro row
    simp [OrdMap.empty]

/-- What a response nothing cut is built from. -/
structure ReadResponse (localeCompare : String → String → Ordering) (cfg : AppConfig) (s : Store P)
    (mode : GraphNeighborhoodMentionMode) (focusRef : Ref) (depth : ℕ) (st : FrontierRead)
    (r : GraphNeighborhoodResponse) : Prop where
  sound : Sound (configuredRepoRefs cfg) s mode focusRef st
  all : ReadAll localeCompare cfg s mode focusRef depth st
  built : BuiltNeighborhood localeCompare mode (st.edgesByKey.entries.map toEdgeDTO)
    (OrdMap.index (·.id) (mapItems (some (configuredRepoRefs cfg)) st.itemsByRef.values
      (s.listLabelsByItemIds st.itemsByRef.values))) focusRef depth r

/-- A crowded read does not fit a response. -/
theorem not_crowded {edges : List EdgeDTO} {byRef : OrdMap Ref ItemDTO}
    (hbuilt : BuiltNeighborhood localeCompare mode edges byRef focusRef depth r)
    (hedges : ∀ e, e ∈ edges ↔ e ∈ st.edgesByKey.entries.map toEdgeDTO)
    (hlength : r.nodes.length ≤ graphNeighborhoodMaxNodes) :
    ¬Crowded localeCompare mode focusRef depth st := by
  rintro ⟨refs, hnodup, hmany, hwithin⟩
  have hsubset : refs ⊆ r.nodes.map (·.ref) := by
    intro ref href
    have hnear := (within_neighboursOf_congr hedges depth ref).mpr (hwithin ref href)
    obtain ⟨hop, hhop, hat⟩ := exists_atDistance hnear
    exact List.mem_map.mpr ⟨⟨ref, hop, byRef.get? ref⟩,
      (hbuilt.nodes _).mpr ⟨Or.inl ⟨hhop, hat⟩, rfl⟩, rfl⟩
  have hle := (List.subperm_of_subset hnodup hsubset).length_le
  rw [List.length_map] at hle
  omega

theorem BuiltNeighborhood.congr {edges edges' : List EdgeDTO} {byRef : OrdMap Ref ItemDTO}
    (hbuilt : BuiltNeighborhood localeCompare mode edges byRef focusRef depth r)
    (hedges : ∀ e, e ∈ edges ↔ e ∈ edges') :
    BuiltNeighborhood localeCompare mode edges' byRef focusRef depth r := by
  have hhop : ∀ ref hop, HopAt localeCompare mode edges focusRef depth ref hop ↔
      HopAt localeCompare mode edges' focusRef depth ref hop := by
    intro ref hop
    refine hopAt_congr (fun k _ ref => within_neighboursOf_congr hedges k ref) fun ref => ?_
    unfold MentionedBy
    simp only [hedges]
  refine ⟨fun n => ?_, fun e => ?_⟩
  · rw [hbuilt.nodes, hhop]
  · rw [hbuilt.edges, hedges]
    simp only [hhop]

theorem readResponse_of_uncut (hpaths : PathsNonEmpty (configuredRepoRefs cfg))
    (hnamed : NamedEnds s)
    (h : readGraphNeighborhoodSnapshot localeCompare s mode cfg generatedAt focusRef depth = .ok r)
    (huncut : r.Uncut) : ∃ st, ReadResponse localeCompare cfg s mode focusRef depth st r := by
  unfold readGraphNeighborhoodSnapshot at h
  obtain ⟨focusRow, hfocusRow, h⟩ := except_bind_eq_ok h
  simp only at h
  obtain ⟨response, hresponse, h⟩ := except_bind_eq_ok h
  obtain rfl := Except.ok.inj h
  have hfocus := readGraphFocus_ok hfocusRow
  have hstart : Sound (configuredRepoRefs cfg) s mode focusRef
      (FrontierRead.start focusRef focusRow) := sound_start hfocus
  have hexact : Exact localeCompare cfg s mode focusRef depth 0
      (FrontierRead.start focusRef focusRow) := exact_start
  have houtcome := outcome_run hpaths hnamed (depth + 1) (Nat.zero_add _) hstart
    (fun _ ref href => List.mem_singleton.mp href) (Or.inl hexact)
  obtain ⟨hnodes, hedges⟩ := huncut
  simp only [withLimitReasons, mem_orderedReasons, List.mem_append, not_or] at hnodes hedges
  have hcap := eq_false_of_not_mem_ite hedges.2
  have hbuilt := (built_of_uncut (by decide) hresponse ⟨hnodes.1, hedges.1⟩).congr
    fun e => mem_mapEdges_read houtcome.sound
  have hroom := length_nodes_le (by decide) hresponse
  refine ⟨_, houtcome.sound, ?_, ⟨hbuilt.nodes, hbuilt.edges⟩⟩
  exact (houtcome.read hcap).resolve_right (not_crowded hbuilt (fun e => Iff.rfl) hroom)

section Uncut

variable (hread : ReadResponse localeCompare cfg s mode focusRef depth st r)
include hread

/-- **A read that nothing cut has the nodes of the full graph.** -/
theorem node_read_iff {ref : Ref} {hop : ℕ} :
    (∃ n ∈ r.nodes, n.ref = ref ∧ n.hop = hop) ↔
      HopAt localeCompare mode (fullEdges cfg s) focusRef depth ref hop := by
  rw [← hopAt_read hread.all]
  constructor
  · rintro ⟨n, hn, rfl, rfl⟩
    exact ((hread.built.nodes n).mp hn).1
  · intro hhop
    have hnode := (hread.built.nodes ⟨ref, hop, (OrdMap.index (·.id) (mapItems
      (some (configuredRepoRefs cfg)) st.itemsByRef.values
      (s.listLabelsByItemIds st.itemsByRef.values))).get? ref⟩).mpr ⟨hhop, rfl⟩
    exact ⟨_, hnode, rfl, rfl⟩

/-- Its edges are those of the full graph with an end that was traversed. -/
theorem edge_read_iff {e : EdgeDTO} :
    e ∈ r.edges ↔ e ∈ fullEdges cfg s ∧ EligibleEdge mode focusRef e ∧
      ((∃ hop, HopAt localeCompare mode (fullEdges cfg s) focusRef depth e.fromRef hop) ∧
        ∃ hop, HopAt localeCompare mode (fullEdges cfg s) focusRef depth e.toRef hop) ∧
      (Near localeCompare mode cfg s focusRef depth e.fromRef ∨
        Near localeCompare mode cfg s focusRef depth e.toRef) := by
  rw [hread.built.edges, mem_edges_read hread.all]
  simp only [hopAt_read hread.all]
  constructor
  · rintro ⟨⟨he, heligible, hnear⟩, -, hends⟩
    exact ⟨he, heligible, hends, hnear⟩
  · rintro ⟨he, heligible, hends, hnear⟩
    exact ⟨⟨he, heligible, hnear⟩, heligible, hends⟩

/-- An eligible edge between two nodes is missing when it joins two mention
leaves, and not otherwise. -/
theorem missing_iff {e : EdgeDTO} (he : e ∈ fullEdges cfg s) (heligible : EligibleEdge mode focusRef e)
    (hfrom : ∃ hop, HopAt localeCompare mode (fullEdges cfg s) focusRef depth e.fromRef hop)
    (hto : ∃ hop, HopAt localeCompare mode (fullEdges cfg s) focusRef depth e.toRef hop) :
    e ∉ r.edges ↔ mode = .direct ∧ MentionLeaf localeCompare cfg s focusRef depth e.fromRef ∧
      MentionLeaf localeCompare cfg s focusRef depth e.toRef := by
  have hend : ∀ ref, (∃ hop, HopAt localeCompare mode (fullEdges cfg s) focusRef depth ref hop) →
      ¬Near localeCompare mode cfg s focusRef depth ref →
        mode = .direct ∧ MentionLeaf localeCompare cfg s focusRef depth ref := by
    rintro ref ⟨hop, ⟨hhop, hat⟩ | ⟨hmode, -, hmention, hfar⟩⟩ hnot
    · exact absurd (hat.1.mono hhop) hnot
    · exact ⟨hmode, hmention, hmode ▸ hfar⟩
  rw [edge_read_iff hread]
  constructor
  · intro hmissing
    have hnot := not_or.mp fun hnear => hmissing ⟨he, heligible, ⟨hfrom, hto⟩, hnear⟩
    obtain ⟨hmode, hleafFrom⟩ := hend _ hfrom hnot.1
    exact ⟨hmode, hleafFrom, (hend _ hto hnot.2).2⟩
  · rintro ⟨rfl, hleafFrom, hleafTo⟩ ⟨-, -, -, hnear | hnear⟩
    · exact hleafFrom.2 hnear
    · exact hleafTo.2 hnear

/-- A complete read holds every edge among its nodes exactly when no edge
joins two mention leaves. -/
theorem holdsInduced_iff :
    HoldsInduced cfg s mode focusRef r ↔ NoLeafEdge localeCompare cfg s focusRef depth mode := by
  have hnode : ∀ ref, (∃ n ∈ r.nodes, n.ref = ref) ↔
      ∃ hop, HopAt localeCompare mode (fullEdges cfg s) focusRef depth ref hop := by
    intro ref
    simp only [← node_read_iff hread]
    exact ⟨fun ⟨n, hn, href⟩ => ⟨n.hop, n, hn, href, rfl⟩, fun ⟨_, n, hn, href, _⟩ => ⟨n, hn, href⟩⟩
  unfold HoldsInduced NoLeafEdge
  simp only [hnode]
  constructor
  · rintro h rfl e he htype ⟨hleafFrom, hleafTo⟩
    have heligible : EligibleEdge .direct focusRef e := Or.inr (Or.inl htype)
    have hfrom : ∃ hop, HopAt localeCompare .direct (fullEdges cfg s) focusRef depth e.fromRef hop :=
      ⟨1, Or.inr ⟨rfl, rfl, hleafFrom⟩⟩
    have hto : ∃ hop, HopAt localeCompare .direct (fullEdges cfg s) focusRef depth e.toRef hop :=
      ⟨1, Or.inr ⟨rfl, rfl, hleafTo⟩⟩
    exact (missing_iff hread he heligible hfrom hto).mpr ⟨rfl, hleafFrom, hleafTo⟩
      (h e he heligible hfrom hto)
  · intro h e he heligible hfrom hto
    by_contra hmissing
    obtain ⟨hmode, hleafFrom, hleafTo⟩ := (missing_iff hread he heligible hfrom hto).mp hmissing
    refine h hmode e he (fun htype => ?_) ⟨hleafFrom, hleafTo⟩
    -- a mention that is eligible touches the focus, which is no leaf
    have hfocus : Near localeCompare .direct cfg s focusRef depth focusRef := within_start depth
    rcases heligible with hall | hstructural | heq | heq
    · rw [hmode] at hall
      cases hall
    · exact hstructural htype
    · exact hleafFrom.2 (heq ▸ hfocus)
    · exact hleafTo.2 (heq ▸ hfocus)

end Uncut

theorem sameGraph_iff_holdsInduced
    (hread : ReadResponse localeCompare cfg s mode focusRef depth st r)
    (hfull : BuiltNeighborhood localeCompare mode (fullEdges cfg s) (fullItems cfg s) focusRef depth
      f) : SameGraph r f ↔ HoldsInduced cfg s mode focusRef r := by
  have hnode : ∀ ref hop, (∃ n ∈ f.nodes, n.ref = ref ∧ n.hop = hop) ↔
      HopAt localeCompare mode (fullEdges cfg s) focusRef depth ref hop := by
    intro ref hop
    constructor
    · rintro ⟨n, hn, rfl, rfl⟩
      exact ((hfull.nodes n).mp hn).1
    · intro hhop
      have hnode := (hfull.nodes ⟨ref, hop, (fullItems cfg s).get? ref⟩).mpr ⟨hhop, rfl⟩
      exact ⟨_, hnode, rfl, rfl⟩
  have hreached : ∀ ref, (∃ n ∈ r.nodes, n.ref = ref) ↔
      ∃ hop, HopAt localeCompare mode (fullEdges cfg s) focusRef depth ref hop := by
    intro ref
    simp only [← node_read_iff hread]
    exact ⟨fun ⟨n, hn, href⟩ => ⟨n.hop, n, hn, href, rfl⟩, fun ⟨_, n, hn, href, _⟩ => ⟨n, hn, href⟩⟩
  constructor
  · intro h e he heligible hfrom hto
    rw [hreached] at hfrom hto
    exact (h.edges e).mpr ((hfull.edges e).mpr ⟨he, heligible, hfrom, hto⟩)
  · intro h
    refine ⟨fun ref hop => by rw [node_read_iff hread, hnode], ?_, fun e => ?_⟩
    · intro n hn m hm href
      obtain ⟨hhop, hitem⟩ := (hread.built.nodes n).mp hn
      obtain ⟨-, hitem'⟩ := (hfull.nodes m).mp hm
      rw [hitem, hitem', ← href]
      exact sameItem_read hread.sound (allowed_of_hopAt hread.sound hhop)
    · rw [hfull.edges]
      constructor
      · intro he
        obtain ⟨hedge, heligible, ⟨hfrom, hto⟩, -⟩ := (edge_read_iff hread).mp he
        exact ⟨hedge, heligible, hfrom, hto⟩
      · rintro ⟨hedge, heligible, hfrom, hto⟩
        exact h e hedge heligible ((hreached _).mpr hfrom) ((hreached _).mpr hto)

/-- The whole graph has an answer where the read has one. -/
theorem exists_fullNeighborhood
    (h : readGraphNeighborhoodSnapshot localeCompare s mode cfg generatedAt focusRef depth = .ok r) :
    ∃ f, fullNeighborhood localeCompare cfg s generatedAt focusRef depth mode = .ok f := by
  unfold readGraphNeighborhoodSnapshot at h
  obtain ⟨focusRow, hfocusRow, h⟩ := except_bind_eq_ok h
  simp only at h
  obtain ⟨response, hresponse, -⟩ := except_bind_eq_ok h
  have hfocus := readGraphFocus_ok hfocusRow
  have hitem : ((fullItems cfg s).get? focusRef).isSome := by
    have hmem : toItemDTO s.listLabels focusRow ∈
        mapItems (some (configuredRepoRefs cfg)) s.listLiveItems s.listLabels :=
      mem_mapItems.mpr ⟨focusRow, mem_listLiveItems.mpr hfocus.live, hfocus.allowed, rfl⟩
    have hget := (OrdMap.get?_index_eq_some
      (mapItems_id_inj fun row hrow => mem_listLiveItems.mp hrow)).mpr ⟨hmem, hfocus.ref⟩
    exact Option.isSome_iff_exists.mpr ⟨_, hget⟩
  unfold buildGraphNeighborhood at hresponse
  simp only at hresponse
  split at hresponse
  · cases hresponse
  · rename_i hdepth
    unfold fullNeighborhood buildGraphNeighborhood
    simp only
    rw [if_neg hdepth, if_neg fun hnone => ?_]
    · exact ⟨_, rfl⟩
    · rw [Option.isNone_iff_eq_none] at hnone
      unfold fullItems at hitem
      rw [hnone.1] at hitem
      cases hitem

/-- **Frontier reads agree with the whole graph exactly when no structural
edge joins two items that only a mention of the focus reaches**, wherever
the claim says anything: no cap is hit, or the response is complete. -/
theorem agrees_iff {isValidTimezone : String → Bool} (c : AcceptedConfig isValidTimezone)
    (localeCompare : String → String → Ordering) (s : Store P)
    (mode : GraphNeighborhoodMentionMode) (generatedAt : String) (focusRef : Ref) (depth : ℕ)
    (r : GraphNeighborhoodResponse) (hnamed : NamedEnds s)
    (h : readGraphNeighborhoodSnapshot localeCompare s mode c.cfg generatedAt focusRef depth =
      .ok r) :
    ∃ f, fullNeighborhood localeCompare c.cfg s generatedAt focusRef depth mode = .ok f ∧
      (r.Uncut ∧ f.Uncut ∨ r.complete = true →
        (Agrees c.cfg s mode focusRef r f ↔
          NoLeafEdge localeCompare c.cfg s focusRef depth mode)) := by
  obtain ⟨f, hf⟩ := exists_fullNeighborhood h
  refine ⟨f, hf, fun hsays => ?_⟩
  have huncut : r.Uncut := by
    rcases hsays with ⟨huncut, -⟩ | hcomplete
    · exact huncut
    · exact ⟨not_mem_limitReasons_of_complete hcomplete _,
        not_mem_limitReasons_of_complete hcomplete _⟩
  obtain ⟨st, hread⟩ := readResponse_of_uncut (pathsNonEmpty_of_accepted c) hnamed h huncut
  have hinduced := holdsInduced_iff hread
  have hsame : f.Uncut → (SameGraph r f ↔ HoldsInduced c.cfg s mode focusRef r) := fun hfuncut =>
    sameGraph_iff_holdsInduced hread (built_of_uncut (by decide) hf hfuncut)
  rw [← hinduced]
  constructor
  · intro hagrees
    rcases hsays with ⟨-, hfuncut⟩ | hcomplete
    · exact (hsame hfuncut).mp (hagrees.same huncut hfuncut)
    · exact hagrees.induced hcomplete
  · exact fun hholds => ⟨fun _ hfuncut => (hsame hfuncut).mpr hholds, fun _ => hholds⟩

/-! ## An item that mentions two others -/

namespace TwoMentions

open OneChild

/-- The configuration file. -/
def raw : Json :=
  .obj [("db_path", .str "data/board.db"), ("sources", .arr [.obj [
    ("source_id", .str "github:github.com"), ("kind", .str "github"),
    ("host", .str "github.com"), ("token_env", .str "GITHUB_TOKEN"),
    ("graphql_url", .str "https://api.github.com/graphql"),
    ("projects", .arr [.str "org/app"])]])]

/-- The file passes `validateConfig`. -/
def accepted : AcceptedConfig (· = "UTC") where
  raw := raw
  label := "config"
  cfg := config
  typed := by rfl
  accepted := by decide

/-- `F` mentions `A` and `B`; `A` relates to `B`, or to an item elsewhere. -/
def store (related : String) : Store Unit :=
  { Store.empty .sqlite with
    items := ((OrdMap.empty.set (endpoint "F") (issue "F")).set (endpoint "A") (issue "A")).set
      (endpoint "B") (issue "B")
    edges := ((OrdMap.empty.set (.mentions, endpoint "F", endpoint "A") edge).set
      (.mentions, endpoint "F", endpoint "B") edge).set
      (.relates, endpoint "A", endpoint related) edge }

/-- The answer for the focus, with one item beside it. -/
def read (related : String) : Except String GraphNeighborhoodResponse :=
  readGraphNeighborhoodSnapshot textOrder (store related) .direct config
    "2026-06-01T08:00:00.000Z" (refOfEndpoint (endpoint "F")) 1

/-- One direction of a page, by a sort that the kernel computes. -/
def sideRows (s : Store Unit) (side : EdgeSide) (sourceId : String) (externalIds : List String) :
    List EdgeRecord :=
  List.insertionSort (fun a b =>
      ((compareLex (on textOrder fun e : EdgeRecord => (side.near e).externalId) <|
        compareLex (on textOrder fun e => (side.far e).sourceId.val) <|
        compareLex (on textOrder fun e => (side.far e).externalId) <|
          on textOrder fun e => e.1.1.text) a b).isLE)
    (s.liveEdges.filter fun e =>
      (side.near e).sourceId.val = sourceId && decide ((side.near e).externalId ∈ externalIds))

/-- A page of the edges at the references, sorted by insertion so that it evaluates. -/
def page (s : Store Unit) (sourceId : String) (externalIds : List String) (limit : ℕ) :
    BoundedEdgeRows :=
  let refs := externalIds.filter (· ≠ "")
  if refs = [] ∨ limit = 0 then ⟨[], false⟩
  else
    let fromRows := (sideRows s fromSide sourceId refs).take (limit + 1)
    let toRows := (sideRows s toSide sourceId refs).take (limit + 1)
    let sorted := List.insertionSort (fun a b => (edgeRowOrder textOrder a b).isLE)
      (OrdMap.index Prod.fst (fromRows ++ toRows)).values
    { rows := sorted.take limit
      truncated := decide (limit < fromRows.length) || decide (limit < toRows.length) ||
        decide (limit < sorted.length) }

theorem page_eq (s : Store Unit) (sourceId : String) (externalIds : List String) (limit : ℕ) :
    s.listLiveEdgesForSourceRefs textOrder sourceId externalIds limit =
      page s sourceId externalIds limit := by
  unfold Store.listLiveEdgesForSourceRefs page sideRows Store.listLiveEdgesOnSide edgeRowOrder
  simp only [sortBy_eq_insertionSort]

/-- The groups' pages one after another, within what is left of the limit. -/
def readPages (s : Store Unit) :
    List (String × List String) → ℕ → List EdgeRecord × Bool
  | [], _ => ([], false)
  | (sourceId, externalIds) :: groups, remaining =>
    if remaining = 0 then ([], true)
    else if (page s sourceId externalIds remaining).truncated then
      ((page s sourceId externalIds remaining).rows, true)
    else
      let rest := readPages s groups (remaining - (page s sourceId externalIds remaining).rows.length)
      ((page s sourceId externalIds remaining).rows ++ rest.1, rest.2)

theorem readEdges_eq_readPages (s : Store Unit) (groups : List (String × List String))
    (remaining : ℕ) : s.readEdges textOrder groups remaining = readPages s groups remaining := by
  induction groups generalizing remaining with
  | nil => rfl
  | cons g groups ih =>
    unfold Store.readEdges readPages
    simp only [ih, page_eq]

theorem read_complete {related : String} (h : related ∈ ["B", "C"]) :
    ∃ r, read related = .ok r ∧ r.complete = true := by
  have hcomplete : (read related).toOption.map (·.complete) = some true := by
    unfold read readGraphNeighborhoodSnapshot readGraphFocus buildGraphNeighborhood
    simp only [FrontierRead.run, FrontierRead.step, FrontierRead.taken, FrontierRead.take,
      FrontierRead.rowsAt, FrontierRead.page, FrontierRead.found, FrontierRead.next,
      readEdges_eq_readPages, Store.readItems, refsBySource, graphNodes,
      Store.listLabelsByItemIds, Store.listLiveItemsBySourceRefs, compareEdges, compareNodes,
      selectedEdges, sortBy_eq_insertionSort]
    revert related
    decide +kernel
  cases hread : read related with
  | error message =>
    rw [hread] at hcomplete
    cases hcomplete
  | ok r =>
    rw [hread] at hcomplete
    exact ⟨r, rfl, Option.some.inj hcomplete⟩

theorem namedEnds {related : String} (h : related ∈ ["B", "C"]) : NamedEnds (store related) := by
  unfold NamedEnds ItemEndpoint.Named
  revert related
  decide +kernel

/-- Only their mentions reach `A` and `B`. -/
theorem mentionLeaf {ref : Ref}
    (h : ref ∈ [refOfEndpoint (endpoint "A"), refOfEndpoint (endpoint "B")]) :
    MentionLeaf textOrder config (store "B") (refOfEndpoint (endpoint "F")) 1 ref := by
  have hmentioned : MentionedBy (fullEdges config (store "B")) (refOfEndpoint (endpoint "F")) ref := by
    unfold MentionedBy fullEdges Store.listLiveItems
    simp only [sortBy_eq_insertionSort]
    revert ref
    decide +kernel
  have hother : ref ≠ refOfEndpoint (endpoint "F") := by
    clear hmentioned
    revert ref
    decide
  have hapart : ¬∃ e ∈ fullEdges config (store "B"), Traversed .direct e ∧
      otherRef e (refOfEndpoint (endpoint "F")) = some ref := by
    unfold fullEdges Store.listLiveItems
    simp only [sortBy_eq_insertionSort]
    clear hmentioned hother
    revert ref
    decide +kernel
  refine ⟨hmentioned, ?_⟩
  rintro (hfocus | ⟨x, rfl, hlinked⟩)
  · exact hother hfocus
  · exact hapart (linked_neighboursOf.mp hlinked)

theorem leafEdge : ∃ e ∈ fullEdges config (store "B"), e.type ≠ .mentions ∧
    e.fromRef = refOfEndpoint (endpoint "A") ∧ e.toRef = refOfEndpoint (endpoint "B") := by
  unfold fullEdges Store.listLiveItems
  simp only [sortBy_eq_insertionSort]
  decide +kernel

end TwoMentions

open OneChild TwoMentions in
theorem agrees_iff_apart : ∃ r, TwoMentions.read "C" = .ok r ∧ ∃ f,
    fullNeighborhood textOrder config (TwoMentions.store "C") "2026-06-01T08:00:00.000Z"
      (refOfEndpoint (endpoint "F")) 1 .direct = .ok f ∧
    (r.Uncut ∧ f.Uncut ∨ r.complete = true →
      (Agrees config (TwoMentions.store "C") .direct (refOfEndpoint (endpoint "F")) r f ↔
        NoLeafEdge textOrder config (TwoMentions.store "C") (refOfEndpoint (endpoint "F")) 1
          .direct)) := by
  obtain ⟨r, hread, -⟩ := TwoMentions.read_complete (by decide : "C" ∈ ["B", "C"])
  have hnamed : NamedEnds (TwoMentions.store "C") := TwoMentions.namedEnds (by decide)
  exact ⟨r, hread, agrees_iff accepted textOrder _ .direct _ _ 1 r hnamed hread⟩

open OneChild TwoMentions in
/-- `A` relates to `B`: the complete response shows both and not their
edge. -/
theorem not_agrees : ¬∀ (isValidTimezone : String → Bool) (c : AcceptedConfig isValidTimezone)
    (P : Type) (localeCompare : String → String → Ordering) (s : Store P)
    (mode : GraphNeighborhoodMentionMode) (generatedAt : String) (focusRef : Ref) (depth : ℕ)
    (r f : GraphNeighborhoodResponse), NamedEnds s →
      readGraphNeighborhoodSnapshot localeCompare s mode c.cfg generatedAt focusRef depth = .ok r →
      fullNeighborhood localeCompare c.cfg s generatedAt focusRef depth mode = .ok f →
      Agrees c.cfg s mode focusRef r f := by
  intro h
  obtain ⟨r, hread, hcomplete⟩ := TwoMentions.read_complete (by decide : "B" ∈ ["B", "C"])
  have hnamed : NamedEnds (TwoMentions.store "B") := TwoMentions.namedEnds (by decide)
  obtain ⟨f, hfull⟩ := exists_fullNeighborhood hread
  have hagrees := h _ accepted _ _ _ _ _ _ _ r f hnamed hread hfull
  have huncut : r.Uncut := ⟨not_mem_limitReasons_of_complete hcomplete _,
    not_mem_limitReasons_of_complete hcomplete _⟩
  obtain ⟨st, hresponse⟩ :=
    readResponse_of_uncut (pathsNonEmpty_of_accepted accepted) hnamed hread huncut
  obtain ⟨e, he, htype, hfrom, hto⟩ := leafEdge
  refine (holdsInduced_iff hresponse).mp (hagrees.induced hcomplete) rfl e he htype ⟨?_, ?_⟩
  · exact mentionLeaf (by rw [hfrom]; exact List.mem_cons_self)
  · exact mentionLeaf (by rw [hto]; exact List.mem_cons_of_mem _ List.mem_cons_self)

end SymphonyBoard
