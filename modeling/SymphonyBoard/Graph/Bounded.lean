import SymphonyBoard.Graph.Connected
import SymphonyBoard.Graph.Validator
/-!
# A neighbourhood under its caps

Where the node cap turns nothing away, a response holds exactly what lies
within the depth, each ref at its distance, and says that the depth cut
something exactly when something lies one link beyond it. Under any caps it
keeps to them, its edges end at its nodes, and the client accepts it as long
as the caps are none above its own.
-/

namespace SymphonyBoard

/-- `positiveLimit`: a limit that is not a whole number above zero is not
given. -/
def positiveLimit (value : Option ℚ) (fallback : ℕ) : ℕ :=
  match value with
  | none => fallback
  | some q => if q.den = 1 ∧ 0 < q then q.num.toNat else fallback

theorem positiveLimit_pos (value : Option ℚ) {fallback : ℕ} (h : 0 < fallback) :
    0 < positiveLimit value fallback := by
  unfold positiveLimit
  cases value with
  | none => exact h
  | some q =>
    simp only
    split
    · next hq =>
      have hnum : 0 < q.num := Rat.num_pos.mpr hq.2
      omega
    · exact h

variable {localeCompare : String → String → Ordering} {mode : GraphNeighborhoodMentionMode}
  {edges : List EdgeDTO} {focusRef : Ref} {depth maxNodes maxEdges : ℕ}

/-! ## What is reached under a cap -/

/-- Every hop is within the depth. -/
theorem hop_le_reach (hroom : 0 < maxNodes) (hdepth : 1 ≤ depth) {ref : Ref} {hop : ℕ}
    (h : (reach localeCompare mode edges focusRef depth maxNodes).1.hops.get? ref = some hop) :
    hop ≤ depth := by
  have hsearch : ∀ ref hop, (search (neighboursOf localeCompare mode edges) depth maxNodes
      focusRef).hops.get? ref = some hop → hop ≤ depth := fun ref hop hget =>
    ((searching_search hroom focusRef).sound ref hop hget).2
  have hmentions : ∀ (es : List EdgeDTO) (st : Reached),
      (∀ ref hop, st.hops.get? ref = some hop → hop ≤ depth) → ∀ ref hop,
      (es.foldl (Reached.mention maxNodes focusRef) st).hops.get? ref = some hop → hop ≤ depth := by
    intro es
    induction es with
    | nil => exact fun st h => h
    | cons e es ih =>
      refine fun st h => ih _ fun ref hop hget => ?_
      unfold Reached.mention at hget
      split at hget
      · exact h ref hop hget
      · split at hget
        · exact h ref hop hget
        · split at hget
          · exact h ref hop hget
          · split at hget
            · exact h ref hop hget
            · rw [OrdMap.get?_set] at hget
              split at hget
              · rw [← Option.some.inj hget]
                exact hdepth
              · exact h ref hop hget
  cases mode with
  | all => exact hsearch ref hop h
  | direct => exact hmentions edges _ hsearch ref hop h

theorem orderedReasons_nodup (reasons : List GraphNeighborhoodLimitReason) :
    (orderedReasons reasons).Nodup := List.Nodup.filter _ (by decide)

/-- What the edge cap keeps are edges there are, each once. -/
theorem exists_perm_selectedEdges (reached : Reached) (induced : List EdgeDTO) (maxEdges : ℕ) :
    ∃ es : List EdgeDTO, es.Perm induced ∧
      selectedEdges localeCompare reached induced maxEdges = es.take maxEdges := by
  refine ⟨_, ?_, rfl⟩
  refine ((sortBy_perm _ _).append (sortBy_perm _ _)).trans ?_
  have hsplit := List.filter_append_perm (fun e => decide (edgeKey e ∈ reached.tree)) induced
  simp only [← decide_not] at hsplit
  exact hsplit

/-- **The depth reason is honest.** -/
theorem beyondDepth_reach (hroom : 0 < maxNodes)
    (hcut : (reach localeCompare mode edges focusRef depth maxNodes).1.beyondRoom = false) :
    (reach localeCompare mode edges focusRef depth maxNodes).2 = true ↔
      ∃ ref, AtDistance (neighboursOf localeCompare mode edges) focusRef (depth + 1) ref := by
  have hbefore : (search (neighboursOf localeCompare mode edges) depth maxNodes
      focusRef).beyondRoom = false := by
    cases mode with
    | all => exact hcut
    | direct =>
      by_contra hbefore
      rw [reach_direct, beyondRoom_mentions edges _ (by simpa using hbefore)] at hcut
      cases hcut
  exact beyondDepth_search hroom hbefore

/-! ## The response -/

/-- A neighbourhood under its caps. -/
structure BoundedNeighborhood (localeCompare : String → String → Ordering)
    (mode : GraphNeighborhoodMentionMode) (edges : List EdgeDTO) (focusRef : Ref)
    (depth maxNodes maxEdges : ℕ) (r : GraphNeighborhoodResponse) : Prop where
  nodes : .nodes ∉ r.limitReasons → ∀ ref hop, (∃ n ∈ r.nodes, n.ref = ref ∧ n.hop = hop) ↔
    HopAt localeCompare mode edges focusRef depth ref hop
  depthReason : .nodes ∉ r.limitReasons → (.depth ∈ r.limitReasons ↔
    ∃ ref, AtDistance (neighboursOf localeCompare mode edges) focusRef (depth + 1) ref)
  nodeCount : r.nodes.length ≤ maxNodes
  edgeCount : r.edges.length ≤ maxEdges
  ends : ∀ e ∈ r.edges, ∀ ref, e.fromRef = ref ∨ e.toRef = ref → ∃ n ∈ r.nodes, n.ref = ref
  accepted : maxNodes ≤ graphNeighborhoodMaxNodes → maxEdges ≤ graphNeighborhoodMaxEdges →
    isGraphNeighborhood (r.json maxNodes maxEdges) = true

/-- What the builder makes of sorted edges and of the items by ref. -/
def builtResponse (localeCompare : String → String → Ordering)
    (mode : GraphNeighborhoodMentionMode) (edges : List EdgeDTO) (byRef : OrdMap Ref ItemDTO)
    (generatedAt : String) (focusRef : Ref) (depth maxNodes maxEdges : ℕ) :
    GraphNeighborhoodResponse :=
  let reached := (reach localeCompare mode edges focusRef depth maxNodes).1
  let induced := inducedEdges mode focusRef reached.hops edges
  let selected := selectedEdges localeCompare reached induced maxEdges
  let nodes := graphNodes localeCompare reached.hops.entries byRef
  let beyondDepth := (reach localeCompare mode edges focusRef depth maxNodes).2
  { generatedAt, focusRef
    requestedDepth := depth
    reachedDepth := reachedDepth nodes
    limitReasons := orderedReasons ((if beyondDepth then [.depth] else []) ++
      (if reached.beyondRoom then [.nodes] else []) ++
      if selected.length < induced.length then [.edges] else [])
    nodes
    edges := selected }

section Built

variable {byRef : OrdMap Ref ItemDTO} {generatedAt : String}

theorem exists_node_builtResponse {ref : Ref} {hop : ℕ} :
    (∃ n ∈ (builtResponse localeCompare mode edges byRef generatedAt focusRef depth maxNodes
        maxEdges).nodes, n.ref = ref ∧ n.hop = hop) ↔
      (reach localeCompare mode edges focusRef depth maxNodes).1.hops.get? ref = some hop := by
  constructor
  · rintro ⟨n, hn, rfl, rfl⟩
    exact OrdMap.mem_entries_iff.mp (mem_graphNodes.mp hn).1
  · intro h
    exact ⟨⟨ref, hop, byRef.get? ref⟩, mem_graphNodes.mpr ⟨OrdMap.mem_entries_iff.mpr h, rfl⟩, rfl,
      rfl⟩

theorem mem_limitReasons_builtResponse :
    (.depth ∈ (builtResponse localeCompare mode edges byRef generatedAt focusRef depth maxNodes
        maxEdges).limitReasons ↔ (reach localeCompare mode edges focusRef depth maxNodes).2 = true) ∧
      (.nodes ∈ (builtResponse localeCompare mode edges byRef generatedAt focusRef depth maxNodes
        maxEdges).limitReasons ↔
          (reach localeCompare mode edges focusRef depth maxNodes).1.beyondRoom = true) := by
  simp only [builtResponse, mem_orderedReasons, List.mem_append]
  constructor
  · split <;> split <;> split <;> simp_all
  · split <;> split <;> split <;> simp_all

theorem mem_edges_builtResponse {e : EdgeDTO}
    (he : e ∈ (builtResponse localeCompare mode edges byRef generatedAt focusRef depth maxNodes
      maxEdges).edges) :
    e ∈ inducedEdges mode focusRef (reach localeCompare mode edges focusRef depth maxNodes).1.hops
      edges := by
  obtain ⟨es, hperm, hes⟩ := @exists_perm_selectedEdges localeCompare
    (reach localeCompare mode edges focusRef depth maxNodes).1 (inducedEdges mode focusRef
      (reach localeCompare mode edges focusRef depth maxNodes).1.hops edges) maxEdges
  unfold builtResponse at he
  simp only [hes] at he
  exact hperm.mem_iff.mp (List.mem_of_mem_take he)

/-- Every edge ends at nodes. -/
theorem ends_builtResponse {e : EdgeDTO}
    (he : e ∈ (builtResponse localeCompare mode edges byRef generatedAt focusRef depth maxNodes
      maxEdges).edges) {ref : Ref} (href : e.fromRef = ref ∨ e.toRef = ref) :
    ∃ n ∈ (builtResponse localeCompare mode edges byRef generatedAt focusRef depth maxNodes
      maxEdges).nodes, n.ref = ref := by
  obtain ⟨-, -, hfrom, hto⟩ := mem_inducedEdges.mp (mem_edges_builtResponse he)
  have hreached : ((reach localeCompare mode edges focusRef depth maxNodes).1.hops.get? ref).isSome := by
    rcases href with rfl | rfl
    · exact hfrom
    · exact hto
  obtain ⟨hop, hhop⟩ := Option.isSome_iff_exists.mp hreached
  obtain ⟨n, hn, hnref, -⟩ := exists_node_builtResponse.mpr hhop
  exact ⟨n, hn, hnref⟩

theorem nodup_keys_builtResponse (hkeys : (edges.map edgeKey).Nodup) :
    ((builtResponse localeCompare mode edges byRef generatedAt focusRef depth maxNodes
      maxEdges).edges.map edgeKey).Nodup := by
  obtain ⟨es, hperm, hes⟩ := @exists_perm_selectedEdges localeCompare
    (reach localeCompare mode edges focusRef depth maxNodes).1 (inducedEdges mode focusRef
      (reach localeCompare mode edges focusRef depth maxNodes).1.hops edges) maxEdges
  have hinduced : ((inducedEdges mode focusRef (reach localeCompare mode edges focusRef depth
      maxNodes).1.hops edges).map edgeKey).Nodup := by
    unfold inducedEdges
    exact hkeys.sublist ((List.filter_sublist.trans List.filter_sublist).map _)
  have hall : (es.map edgeKey).Nodup := (hperm.map _).nodup_iff.mpr hinduced
  unfold builtResponse
  simp only [hes]
  exact hall.sublist ((List.take_sublist _ _).map _)

/-- **The client accepts what the builder makes, under caps of its own or
less.** -/
theorem accepted_builtResponse (hroom : 0 < maxNodes) (hedgeRoom : 0 < maxEdges)
    (hdepth : 1 ≤ depth ∧ depth ≤ 5) (hfocus : focusRef ≠ "")
    (hends : ∀ e ∈ edges, e.fromRef ≠ "" ∧ e.toRef ≠ "") (hkeys : (edges.map edgeKey).Nodup)
    (hitem : ∀ ref item, byRef.get? ref = some item → item.id = ref ∧ item.projectPath.isSome)
    (hnodeCap : maxNodes ≤ 200) (hedgeCap : maxEdges ≤ 500) :
    AcceptedResponse (builtResponse localeCompare mode edges byRef generatedAt focusRef depth maxNodes
      maxEdges) maxNodes maxEdges := by
  have hrooted : Rooted mode edges focusRef
      (reach localeCompare mode edges focusRef depth maxNodes).1 := rooted_reach hroom
  refine {
    focusRef := hfocus
    requestedDepth := hdepth
    limitReasons := orderedReasons_nodup _
    nodeLimit := ⟨hroom, hnodeCap⟩
    edgeLimit := ⟨hedgeRoom, hedgeCap⟩
    nodeCount := ?_
    edgeCount := List.length_take_le _ _
    refs := ?_
    nodes := fun n hn => ?_
    focus := exists_node_builtResponse.mpr hrooted.focus
    reachedDepth := rfl
    ends := fun e he ref => ends_builtResponse he
    keys := nodup_keys_builtResponse hkeys }
  · unfold builtResponse graphNodes
    rw [length_sortBy, List.length_map]
    exact length_reach hroom
  · unfold builtResponse graphNodes
    refine ((sortBy_perm _ _).map _).nodup_iff.mpr ?_
    rw [List.map_map]
    exact (reach _ _ _ _ _ _).1.hops.nodup
  · obtain ⟨hentry, hnode⟩ := mem_graphNodes.mp hn
    have hget := OrdMap.mem_entries_iff.mp hentry
    refine ⟨?_, hop_le_reach hroom hdepth.1 hget, fun item hsome => hitem n.ref item ?_⟩
    · rcases hrooted.parent n.ref n.hop hget with ⟨href, -⟩ | ⟨e, he, -, -, p, j, hother, -⟩
      · rw [href]
        exact hfocus
      · rcases otherRef_eq_some.mp hother with ⟨hfrom, -⟩ | ⟨hto, -⟩
        · exact hfrom ▸ (hends e he).1
        · exact hto ▸ (hends e he).2
    · rw [← hnode, hsome]

end Built

section Response

variable {configuredRepos : List RepoRef} {items : List ItemRecord} {labels : List LabelRecord}
  {edgeRows : List EdgeRecord} {generatedAt : String} {r : GraphNeighborhoodResponse}

/-- The order of the edges does not matter to a distance. -/
theorem atDistance_sortBy {hop : ℕ} {ref : Ref} :
    AtDistance (neighboursOf localeCompare mode (sortBy (compareEdges localeCompare) edges)) focusRef
        hop ref ↔
      AtDistance (neighboursOf localeCompare mode edges) focusRef hop ref := by
  unfold AtDistance
  simp only [within_neighboursOf_congr fun e => @mem_sortBy _ (compareEdges localeCompare) _ _]

theorem hopAt_sortBy {hop : ℕ} {ref : Ref} :
    HopAt localeCompare mode (sortBy (compareEdges localeCompare) edges) focusRef depth ref hop ↔
      HopAt localeCompare mode edges focusRef depth ref hop := by
  refine hopAt_congr (fun k _ ref => within_neighboursOf_congr (fun e => mem_sortBy) k ref)
    fun ref => ?_
  unfold MentionedBy
  simp only [mem_sortBy]

theorem buildGraphNeighborhood_eq_ok
    (h : buildGraphNeighborhood localeCompare configuredRepos items labels edgeRows generatedAt
      focusRef depth mode maxNodes maxEdges = .ok r) :
    (1 ≤ depth ∧ depth ≤ 5) ∧ focusRef ≠ "" ∧
      r = builtResponse localeCompare mode
        (sortBy (compareEdges localeCompare) (mapEdges (some configuredRepos) items edgeRows))
        (OrdMap.index (·.id) (mapItems (some configuredRepos) items labels)) generatedAt focusRef
        depth maxNodes maxEdges := by
  unfold buildGraphNeighborhood at h
  simp only at h
  split at h
  · cases h
  · next hdepth =>
    split at h
    · cases h
    · next hfound =>
      refine ⟨by omega, ?_, (Except.ok.inj h).symm⟩
      rintro rfl
      refine hfound ⟨?_, fun e he _ => ?_⟩
      · cases hget : (OrdMap.index (·.id) (mapItems (some configuredRepos) items labels)).get? "" with
        | none => rfl
        | some item => exact absurd rfl (item_of_index hget).2.2
      · obtain ⟨hfrom, hto⟩ := ends_ne_empty (mem_sortBy.mp he)
        unfold otherRef
        rw [if_neg hfrom, if_neg hto]

/-- **A neighbourhood is breadth-first, and honest about what its caps cut.**
The client accepts it under caps that are none above its own. -/
theorem buildGraphNeighborhood_bounded (localeCompare : String → String → Ordering)
    (configuredRepos : List RepoRef) (items : List ItemRecord) (labels : List LabelRecord)
    (edgeRows : List EdgeRecord) (hkeys : (edgeRows.map Prod.fst).Nodup) (generatedAt : String)
    (focusRef : Ref) (depth : ℕ) (mode : GraphNeighborhoodMentionMode) (nodeLimit edgeLimit : Option ℚ)
    (r : GraphNeighborhoodResponse)
    (h : buildGraphNeighborhood localeCompare configuredRepos items labels edgeRows generatedAt
      focusRef depth mode (positiveLimit nodeLimit graphNeighborhoodMaxNodes)
      (positiveLimit edgeLimit graphNeighborhoodMaxEdges) = .ok r) :
    BoundedNeighborhood localeCompare mode (mapEdges (some configuredRepos) items edgeRows) focusRef
      depth (positiveLimit nodeLimit graphNeighborhoodMaxNodes)
      (positiveLimit edgeLimit graphNeighborhoodMaxEdges) r := by
  have hroom : 0 < positiveLimit nodeLimit graphNeighborhoodMaxNodes :=
    positiveLimit_pos nodeLimit (by decide)
  have hedgeRoom : 0 < positiveLimit edgeLimit graphNeighborhoodMaxEdges :=
    positiveLimit_pos edgeLimit (by decide)
  have hcount := length_nodes_le hroom h
  obtain ⟨hdepth, hfocus, rfl⟩ := buildGraphNeighborhood_eq_ok h
  have hsortedKeys : ((sortBy (compareEdges localeCompare)
      (mapEdges (some configuredRepos) items edgeRows)).map edgeKey).Nodup :=
    ((sortBy_perm _ _).map _).nodup_iff.mpr (nodup_keys_mapEdges hkeys)
  refine ⟨fun hnodes ref hop => ?_, fun hnodes => ?_, hcount, List.length_take_le _ _,
    fun e he ref => ends_builtResponse he, fun hnodeCap hedgeCap => ?_⟩
  · have hcut := Bool.eq_false_iff.mpr fun h => hnodes (mem_limitReasons_builtResponse.2.mpr h)
    rw [exists_node_builtResponse, get?_reach hroom hcut, hopAt_sortBy]
  · have hcut := Bool.eq_false_iff.mpr fun h => hnodes (mem_limitReasons_builtResponse.2.mpr h)
    rw [mem_limitReasons_builtResponse.1, beyondDepth_reach hroom hcut]
    exact exists_congr fun ref => atDistance_sortBy
  · refine isGraphNeighborhood_iff.mpr (accepted_builtResponse hroom hedgeRoom hdepth hfocus
      (fun e he => ends_ne_empty (mem_sortBy.mp he)) hsortedKeys (fun ref item hget => ?_) hnodeCap
      hedgeCap)
    exact ⟨(item_of_index hget).1, (item_of_index hget).2.1⟩

end Response

/-! ## Mentions of the focus -/

namespace DirectMentions

open OneChild

/-- The focus of the read. -/
def focus : Ref := refOfEndpoint (endpoint "F")

/-- The focus relates to `A` and `A` to `B`; the focus mentions `B` and `C`. -/
def rows : List EdgeRecord :=
  [((.relates, endpoint "F", endpoint "A"), edge), ((.relates, endpoint "A", endpoint "B"), edge),
    ((.mentions, endpoint "F", endpoint "B"), edge), ((.mentions, endpoint "F", endpoint "C"), edge)]

/-- The edges of the store, as they are sent. -/
def allEdges : List EdgeDTO := mapEdges (some (configuredRepoRefs config)) [] rows

/-- The neighborhood, with a limit on its nodes. -/
def build (nodeLimit : Option ℚ) : Except String GraphNeighborhoodResponse :=
  buildGraphNeighborhood textOrder (configuredRepoRefs config) [] [] rows "" focus 2 .direct
    (positiveLimit nodeLimit graphNeighborhoodMaxNodes)
    (positiveLimit none graphNeighborhoodMaxEdges)

theorem nodup_rows : (rows.map Prod.fst).Nodup := by decide

/-- `B` is at hop 2 and `C` at hop 1. -/
theorem build_uncut : ∃ r, build none = .ok r ∧ .nodes ∉ r.limitReasons ∧
    (∃ n ∈ r.nodes, n.ref = refOfEndpoint (endpoint "B") ∧ n.hop = 2) ∧
    ∃ n ∈ r.nodes, n.ref = refOfEndpoint (endpoint "C") ∧ n.hop = 1 := by
  have hbuilt : (build none).toOption.map (fun r => (decide (.nodes ∈ r.limitReasons),
      r.nodes.any fun n => n.ref = refOfEndpoint (endpoint "B") && n.hop = 2,
      r.nodes.any fun n => n.ref = refOfEndpoint (endpoint "C") && n.hop = 1)) =
        some (false, true, true) := by
    unfold build buildGraphNeighborhood reach neighboursOf graphNodes selectedEdges compareEdges
      compareNodes
    simp only [sortBy_eq_insertionSort]
    decide +kernel
  cases hr : build none with
  | error message =>
    rw [hr] at hbuilt
    cases hbuilt
  | ok r =>
    rw [hr] at hbuilt
    obtain ⟨hnodes, hnear⟩ := Prod.mk.inj (Option.some.inj hbuilt)
    obtain ⟨hfirst, hsecond⟩ := Prod.mk.inj hnear
    refine ⟨r, rfl, of_decide_eq_false hnodes, ?_, ?_⟩
    · simpa using hfirst
    · simpa using hsecond

theorem build_above : ∃ r, build (some 201) = .ok r := by
  unfold build buildGraphNeighborhood
  simp only
  rw [if_neg (by decide), if_neg]
  · exact ⟨_, rfl⟩
  · simp only [sortBy_eq_insertionSort]
    unfold compareEdges
    decide +kernel

/-- No edge that is followed joins `C` to the focus. -/
theorem c_apart : ¬Within (neighboursOf textOrder .direct allEdges) focus 1
    (refOfEndpoint (endpoint "C")) := by
  have hother : refOfEndpoint (endpoint "C") ≠ focus := by decide
  have hapart : ¬∃ e ∈ allEdges, Traversed .direct e ∧
      otherRef e focus = some (refOfEndpoint (endpoint "C")) := by decide +kernel
  rintro (hfocus | ⟨x, rfl, hlinked⟩)
  · exact hother hfocus
  · exact hapart (linked_neighboursOf.mp hlinked)

/-- A mention joins `B` to the focus. -/
theorem b_near : Within (neighboursOf textOrder .all
    (allEdges.filter fun e => EligibleEdge .direct focus e)) focus 1
      (refOfEndpoint (endpoint "B")) := by
  have hjoins : ∃ e ∈ allEdges.filter fun e => EligibleEdge .direct focus e, Traversed .all e ∧
      otherRef e focus = some (refOfEndpoint (endpoint "B")) := by decide +kernel
  exact Or.inr ⟨focus, rfl, linked_neighboursOf.mpr hjoins⟩

end DirectMentions

open OneChild DirectMentions in
theorem buildGraphNeighborhood_bounded_mentions : ∃ r, build none = .ok r ∧
    BoundedNeighborhood textOrder .direct allEdges DirectMentions.focus 2 graphNeighborhoodMaxNodes
      graphNeighborhoodMaxEdges r := by
  obtain ⟨r, hr, -⟩ := build_uncut
  exact ⟨r, hr, buildGraphNeighborhood_bounded textOrder _ [] [] DirectMentions.rows nodup_rows "" _ 2
    .direct none none r hr⟩

open OneChild DirectMentions in
/-- A mention of the focus is returned at hop 1 however far it lies by the
edges that are followed, and a ref they reach keeps the hop they give it
though a mention is nearer. A node cap above the client's own is told to
it. -/
theorem not_buildGraphNeighborhood_bounded :
    (¬∀ (localeCompare : String → String → Ordering) (configuredRepos : List RepoRef)
      (items : List ItemRecord) (labels : List LabelRecord) (edgeRows : List EdgeRecord)
      (generatedAt : String) (focusRef : Ref) (depth : ℕ) (mode : GraphNeighborhoodMentionMode)
      (r : GraphNeighborhoodResponse), (edgeRows.map Prod.fst).Nodup →
      buildGraphNeighborhood localeCompare configuredRepos items labels edgeRows generatedAt focusRef
        depth mode (positiveLimit none graphNeighborhoodMaxNodes)
        (positiveLimit none graphNeighborhoodMaxEdges) = .ok r →
      .nodes ∉ r.limitReasons → ∀ ref hop, (∃ n ∈ r.nodes, n.ref = ref ∧ n.hop = hop) ↔
        hop ≤ depth ∧ AtDistance (neighboursOf localeCompare mode
          (mapEdges (some configuredRepos) items edgeRows)) focusRef hop ref) ∧
    (¬∀ (localeCompare : String → String → Ordering) (configuredRepos : List RepoRef)
      (items : List ItemRecord) (labels : List LabelRecord) (edgeRows : List EdgeRecord)
      (generatedAt : String) (focusRef : Ref) (depth : ℕ) (mode : GraphNeighborhoodMentionMode)
      (r : GraphNeighborhoodResponse), (edgeRows.map Prod.fst).Nodup →
      buildGraphNeighborhood localeCompare configuredRepos items labels edgeRows generatedAt focusRef
        depth mode (positiveLimit none graphNeighborhoodMaxNodes)
        (positiveLimit none graphNeighborhoodMaxEdges) = .ok r →
      .nodes ∉ r.limitReasons → ∀ ref hop, (∃ n ∈ r.nodes, n.ref = ref ∧ n.hop = hop) ↔
        hop ≤ depth ∧ AtDistance (neighboursOf localeCompare .all
          ((mapEdges (some configuredRepos) items edgeRows).filter fun e =>
            EligibleEdge mode focusRef e)) focusRef hop ref) ∧
    ¬∀ (localeCompare : String → String → Ordering) (configuredRepos : List RepoRef)
      (items : List ItemRecord) (labels : List LabelRecord) (edgeRows : List EdgeRecord)
      (generatedAt : String) (focusRef : Ref) (depth : ℕ) (mode : GraphNeighborhoodMentionMode)
      (nodeLimit edgeLimit : Option ℚ) (r : GraphNeighborhoodResponse),
      (edgeRows.map Prod.fst).Nodup →
      buildGraphNeighborhood localeCompare configuredRepos items labels edgeRows generatedAt focusRef
        depth mode (positiveLimit nodeLimit graphNeighborhoodMaxNodes)
        (positiveLimit edgeLimit graphNeighborhoodMaxEdges) = .ok r →
      isGraphNeighborhood (r.json (positiveLimit nodeLimit graphNeighborhoodMaxNodes)
        (positiveLimit edgeLimit graphNeighborhoodMaxEdges)) = true := by
  obtain ⟨r, hr, huncut, hb, hc⟩ := build_uncut
  refine ⟨fun h => ?_, fun h => ?_, fun h => ?_⟩
  · have hnodes := h textOrder _ _ _ _ _ _ _ .direct r nodup_rows hr huncut
    exact c_apart ((hnodes _ _).mp hc).2.1
  · have hnodes := h textOrder _ _ _ _ _ _ _ .direct r nodup_rows hr huncut
    exact ((hnodes _ _).mp hb).2.2 1 (by decide) b_near
  · obtain ⟨r', hr'⟩ := build_above
    have haccepted := h textOrder _ _ _ _ _ _ _ .direct _ _ r' nodup_rows hr'
    have hlimit := (isGraphNeighborhood_iff.mp haccepted).nodeLimit.2
    exact absurd hlimit (by decide)

end SymphonyBoard
