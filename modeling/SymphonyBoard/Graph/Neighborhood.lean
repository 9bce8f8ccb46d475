import SymphonyBoard.Common.Search
import SymphonyBoard.Graph.Response
import SymphonyBoard.Model.Edges
/-!
# The neighbourhood of an item

`buildGraphNeighborhood` of `src/server/graph-neighborhood.ts`: a
breadth-first traversal of the admitted edges, taken as undirected, and the
edges among what it reaches. Where mentions are direct they are not
traversed; those at the focus add their other end as a leaf at hop 1.
`built_of_uncut` says what a response no cap cut holds.
-/

namespace SymphonyBoard

/-- How far mentions are followed. -/
inductive GraphNeighborhoodMentionMode
  | all
  | direct
deriving DecidableEq, Repr

/-- What two edges must differ in to be two. -/
def edgeKey (e : EdgeDTO) : EdgeKey := (e.type, e.fromRef, e.toRef)

/-- The other end of an edge. -/
def otherRef (e : EdgeDTO) (ref : Ref) : Option Ref :=
  if e.fromRef = ref then some e.toRef
  else if e.toRef = ref then some e.fromRef
  else none

/-- An edge the traversal follows. -/
def Traversed (mode : GraphNeighborhoodMentionMode) (e : EdgeDTO) : Prop :=
  mode = .all ∨ e.type ≠ .mentions

/-- An edge the response may hold. -/
def EligibleEdge (mode : GraphNeighborhoodMentionMode) (focusRef : Ref) (e : EdgeDTO) : Prop :=
  mode = .all ∨ e.type ≠ .mentions ∨ e.fromRef = focusRef ∨ e.toRef = focusRef

instance (mode : GraphNeighborhoodMentionMode) : DecidablePred (Traversed mode) :=
  fun _ => inferInstanceAs (Decidable (_ ∨ _))

instance (mode : GraphNeighborhoodMentionMode) (focusRef : Ref) :
    DecidablePred (EligibleEdge mode focusRef) := fun _ => inferInstanceAs (Decidable (_ ∨ _ ∨ _))

section Builder

variable (localeCompare : String → String → Ordering)

/-- The neighbours of a ref, each with the edge to it, by ref and then
edge. -/
def neighboursOf (mode : GraphNeighborhoodMentionMode) (edges : List EdgeDTO) (ref : Ref) :
    List (Ref × EdgeKey) :=
  (sortBy (compareLex (on localeCompare Prod.fst) (on (compareEdges localeCompare) Prod.snd))
    ((edges.filter fun e => Traversed mode e).filterMap fun e =>
      (otherRef e ref).map fun other => (other, e))).map fun n => (n.1, edgeKey n.2)

/-- What has been reached, and whether the room ran out. -/
structure Reached where
  hops : OrdMap Ref ℕ
  tree : List EdgeKey
  beyondRoom : Bool

/-- A mention of the focus adds its other end. -/
def Reached.mention (maxNodes : ℕ) (focusRef : Ref) (st : Reached) (e : EdgeDTO) : Reached :=
  if e.type ≠ .mentions then st
  else
    match otherRef e focusRef with
    | none => st
    | some other =>
      if (st.hops.get? other).isSome then { st with tree := st.tree ++ [edgeKey e] }
      else if maxNodes ≤ st.hops.entries.length then { st with beyondRoom := true }
      else { st with hops := st.hops.set other 1, tree := st.tree ++ [edgeKey e] }

/-- The traversal, and the mentions after it. -/
def reach (mode : GraphNeighborhoodMentionMode) (edges : List EdgeDTO) (focusRef : Ref)
    (depth maxNodes : ℕ) : Reached × Bool :=
  let traversal := search (neighboursOf localeCompare mode edges) depth maxNodes focusRef
  let reached : Reached := ⟨traversal.hops, traversal.tree, traversal.beyondRoom⟩
  (match mode with
    | .all => reached
    | .direct => edges.foldl (Reached.mention maxNodes focusRef) reached,
    traversal.beyondDepth)

/-- How far an edge is from the focus: the distance of its farther end. -/
def edgeDistance (hops : OrdMap Ref ℕ) (e : EdgeDTO) : ℕ :=
  max ((hops.get? e.fromRef).getD 0) ((hops.get? e.toRef).getD 0)

/-- Spanning-tree edges before the others, each nearest first. -/
def selectedEdges (reached : Reached) (induced : List EdgeDTO) (maxEdges : ℕ) : List EdgeDTO :=
  let order := compareLex (on numberOrder (edgeDistance reached.hops)) (compareEdges localeCompare)
  (sortBy order (induced.filter fun e => decide (edgeKey e ∈ reached.tree)) ++
    sortBy order (induced.filter fun e => decide (edgeKey e ∉ reached.tree))).take maxEdges

/-- The edges kept first, nearest first. -/
def treeEdges (reached : Reached) (induced : List EdgeDTO) : List EdgeDTO :=
  sortBy (compareLex (on numberOrder (edgeDistance reached.hops)) (compareEdges localeCompare))
    (induced.filter fun e => decide (edgeKey e ∈ reached.tree))

/-- The edges between two items of the neighborhood that the mode lets through. -/
def inducedEdges (mode : GraphNeighborhoodMentionMode) (focusRef : Ref) (hops : OrdMap Ref ℕ)
    (edges : List EdgeDTO) : List EdgeDTO :=
  (edges.filter fun e => EligibleEdge mode focusRef e).filter fun e =>
    (hops.get? e.fromRef).isSome && (hops.get? e.toRef).isSome

/-- `buildGraphNeighborhood`: the items within the depth, nearest first, and
the edges among them. -/
def buildGraphNeighborhood (configuredRepos : List RepoRef) (items : List ItemRecord)
    (labels : List LabelRecord) (edgeRows : List EdgeRecord) (generatedAt : String)
    (focusRef : Ref) (depth : ℕ) (mode : GraphNeighborhoodMentionMode) (maxNodes maxEdges : ℕ) :
    Except String GraphNeighborhoodResponse :=
  let edges := sortBy (compareEdges localeCompare) (mapEdges (some configuredRepos) items edgeRows)
  let byRef := OrdMap.index (·.id) (mapItems (some configuredRepos) items labels)
  if depth < 1 ∨ 5 < depth then .error "depth must be an integer from 1 to 5"
  else if (byRef.get? focusRef).isNone ∧
      ∀ e ∈ edges, Traversed mode e → otherRef e focusRef = none then
    .error (notFound focusRef)
  else
    let (reached, beyondDepth) := reach localeCompare mode edges focusRef depth maxNodes
    let induced := inducedEdges mode focusRef reached.hops edges
    let selected := selectedEdges localeCompare reached induced maxEdges
    let nodes := graphNodes localeCompare reached.hops.entries byRef
    .ok {
      generatedAt, focusRef
      requestedDepth := depth
      reachedDepth := reachedDepth nodes
      limitReasons := orderedReasons ((if beyondDepth then [.depth] else []) ++
        (if reached.beyondRoom then [.nodes] else []) ++
        if selected.length < induced.length then [.edges] else [])
      nodes
      edges := selected }

end Builder

/-! ## What the traversal reaches -/

variable {localeCompare : String → String → Ordering} {mode : GraphNeighborhoodMentionMode}
  {edges : List EdgeDTO} {focusRef : Ref} {depth maxNodes maxEdges : ℕ}

theorem otherRef_eq_some {e : EdgeDTO} {x y : Ref} :
    otherRef e x = some y ↔ e.fromRef = x ∧ e.toRef = y ∨ e.toRef = x ∧ e.fromRef = y := by
  unfold otherRef
  by_cases hfrom : e.fromRef = x
  · rw [if_pos hfrom, Option.some.injEq]
    constructor
    · exact fun hto => Or.inl ⟨hfrom, hto⟩
    · rintro (⟨-, hto⟩ | ⟨hto, hfrom'⟩)
      · exact hto
      · rw [hto, ← hfrom, hfrom']
  · rw [if_neg hfrom]
    by_cases hto : e.toRef = x
    · simp [hfrom, hto]
    · simp [hfrom, hto]

/-- A followed edge joins two refs. -/
def Joins (mode : GraphNeighborhoodMentionMode) (edges : List EdgeDTO) (x y : Ref) : Prop :=
  ∃ e ∈ edges, Traversed mode e ∧ otherRef e x = some y

theorem linked_neighboursOf {x y : Ref} :
    Linked (neighboursOf localeCompare mode edges) x y ↔ Joins mode edges x y := by
  unfold Linked neighboursOf Joins
  simp only [List.mem_map, mem_sortBy, List.mem_filterMap, List.mem_filter, decide_eq_true_eq,
    Option.map_eq_some_iff]
  constructor
  · rintro ⟨_, ⟨_, ⟨e, ⟨he, htraversed⟩, other, hother, rfl⟩, rfl⟩, rfl⟩
    exact ⟨e, he, htraversed, hother⟩
  · rintro ⟨e, he, htraversed, hother⟩
    exact ⟨_, ⟨_, ⟨e, ⟨he, htraversed⟩, y, hother, rfl⟩, rfl⟩, rfl⟩

/-- A mention of the focus. -/
def MentionedBy (edges : List EdgeDTO) (focusRef ref : Ref) : Prop :=
  ∃ e ∈ edges, e.type = .mentions ∧ otherRef e focusRef = some ref

/-- The hop a ref is at, if it is reached. -/
def HopAt (localeCompare : String → String → Ordering) (mode : GraphNeighborhoodMentionMode)
    (edges : List EdgeDTO) (focusRef : Ref) (depth : ℕ) (ref : Ref) (hop : ℕ) : Prop :=
  hop ≤ depth ∧ AtDistance (neighboursOf localeCompare mode edges) focusRef hop ref ∨
    mode = .direct ∧ hop = 1 ∧ MentionedBy edges focusRef ref ∧
      ¬Within (neighboursOf localeCompare mode edges) focusRef depth ref

theorem beyondRoom_mentions (es : List EdgeDTO) (st : Reached) (h : st.beyondRoom = true) :
    (es.foldl (Reached.mention maxNodes focusRef) st).beyondRoom = true := by
  induction es generalizing st with
  | nil => exact h
  | cons e es ih =>
    refine ih _ ?_
    unfold Reached.mention
    split
    · exact h
    · split
      · exact h
      · split
        · exact h
        · split
          · rfl
          · exact h

/-- The mentions that the room did not cut add the refs not reached
before, at hop 1. -/
theorem get?_mentions (es : List EdgeDTO) (st : Reached)
    (hcut : (es.foldl (Reached.mention maxNodes focusRef) st).beyondRoom = false) (ref : Ref)
    (hop : ℕ) :
    (es.foldl (Reached.mention maxNodes focusRef) st).hops.get? ref = some hop ↔
      st.hops.get? ref = some hop ∨
        (st.hops.get? ref = none ∧ hop = 1 ∧ MentionedBy es focusRef ref) := by
  induction es generalizing st with
  | nil => simp [MentionedBy]
  | cons e es ih =>
    rw [List.foldl_cons] at hcut ⊢
    rw [ih _ hcut]
    have hmid : (st.mention maxNodes focusRef e).beyondRoom = false := by
      by_contra hmid
      rw [beyondRoom_mentions es _ (by simpa using hmid)] at hcut
      cases hcut
    have hcons : MentionedBy (e :: es) focusRef ref ↔
        (e.type = .mentions ∧ otherRef e focusRef = some ref) ∨ MentionedBy es focusRef ref := by
      unfold MentionedBy
      rw [List.exists_mem_cons_iff]
    rw [hcons]
    unfold Reached.mention at hmid ⊢
    by_cases htype : e.type = .mentions
    · rw [if_neg (by simpa using htype)] at hmid ⊢
      cases hother : otherRef e focusRef with
      | none => simp
      | some other =>
        rw [hother] at hmid
        simp only at hmid ⊢
        -- an end that is known keeps its distance; a new one gets distance 1
        by_cases hknown : (st.hops.get? other).isSome = true
        · rw [if_pos hknown] at hmid ⊢
          have hne : st.hops.get? ref = none → other ≠ ref := fun hnone heq => by
            rw [heq, hnone] at hknown
            cases hknown
          simp only [Option.some.injEq]
          constructor
          · rintro (h | ⟨hnone, hhop, h⟩)
            · exact Or.inl h
            · exact Or.inr ⟨hnone, hhop, Or.inr h⟩
          · rintro (h | ⟨hnone, hhop, ⟨-, heq⟩ | h⟩)
            · exact Or.inl h
            · exact absurd heq (hne hnone)
            · exact Or.inr ⟨hnone, hhop, h⟩
        · rw [if_neg hknown] at hmid ⊢
          split at hmid
          · cases hmid
          · rename_i hroom
            rw [if_neg hroom]
            simp only [OrdMap.get?_set, Option.some.injEq]
            by_cases heq : other = ref
            · subst heq
              have hnone : st.hops.get? other = none := by simpa using hknown
              simp [hnone, htype, eq_comm]
            · simp [heq]
    · rw [if_pos (by simpa using htype)]
      simp [htype]

/-- **What a traversal no cap cut reaches.** -/
theorem get?_reach (hroom : 0 < maxNodes)
    (hcut : (reach localeCompare mode edges focusRef depth maxNodes).1.beyondRoom = false)
    {ref : Ref} {hop : ℕ} :
    (reach localeCompare mode edges focusRef depth maxNodes).1.hops.get? ref = some hop ↔
      HopAt localeCompare mode edges focusRef depth ref hop := by
  unfold reach at hcut ⊢
  unfold HopAt
  simp only at hcut ⊢
  cases mode with
  | all =>
    simp only at hcut ⊢
    rw [get?_search hroom hcut]
    simp
  | direct =>
    simp only at hcut ⊢
    have hbefore : (search (neighboursOf localeCompare .direct edges) depth maxNodes
        focusRef).beyondRoom = false := by
      by_contra hbefore
      rw [beyondRoom_mentions edges _ (by simpa using hbefore)] at hcut
      cases hcut
    rw [get?_mentions edges _ hcut]
    simp only [get?_search hroom hbefore, true_and]
    refine or_congr_right ⟨?_, ?_⟩
    · rintro ⟨hnone, hhop, hmention⟩
      refine ⟨hhop, hmention, fun hwithin => ?_⟩
      obtain ⟨j, hj, hat⟩ := exists_atDistance hwithin
      rw [(get?_search hroom hbefore).mpr ⟨hj, hat⟩] at hnone
      cases hnone
    · rintro ⟨hhop, hmention, hfar⟩
      refine ⟨?_, hhop, hmention⟩
      cases hget : (search (neighboursOf localeCompare .direct edges) depth maxNodes
          focusRef).hops.get? ref with
      | none => rfl
      | some j =>
        obtain ⟨hj, hat⟩ := (get?_search hroom hbefore).mp hget
        exact absurd (hat.1.mono hj) hfar

theorem length_mentions (es : List EdgeDTO) (st : Reached)
    (h : st.hops.entries.length ≤ maxNodes) :
    (es.foldl (Reached.mention maxNodes focusRef) st).hops.entries.length ≤ maxNodes := by
  induction es generalizing st with
  | nil => exact h
  | cons e es ih =>
    refine ih _ ?_
    unfold Reached.mention
    split
    · exact h
    · split
      · exact h
      · rename_i other _
        split
        · exact h
        · rename_i hnew
          split
          · exact h
          · have hnone : st.hops.get? other = none := by simpa using hnew
            rw [OrdMap.entries_set_of_none _ hnone, List.length_append, List.length_singleton]
            omega

theorem length_reach (hroom : 0 < maxNodes) :
    (reach localeCompare mode edges focusRef depth maxNodes).1.hops.entries.length ≤ maxNodes := by
  have hsearch : (search (neighboursOf localeCompare mode edges) depth maxNodes
      focusRef).hops.entries.length ≤ maxNodes := length_search hroom
  cases mode with
  | all => exact hsearch
  | direct => exact length_mentions _ _ hsearch

/-- Mentions of refs there is room for are all taken. -/
theorem housed_mentions {known : List Ref} (hlength : known.length ≤ maxNodes) (es : List EdgeDTO)
    (st : Reached) (hes : ∀ e ∈ es, ∀ other, otherRef e focusRef = some other → other ∈ known)
    (hknown : ∀ ref k, st.hops.get? ref = some k → ref ∈ known) (hcut : st.beyondRoom = false) :
    (es.foldl (Reached.mention maxNodes focusRef) st).beyondRoom = false ∧
      (∀ key ∈ st.tree, key ∈ (es.foldl (Reached.mention maxNodes focusRef) st).tree) ∧
      ∀ e ∈ es, e.type = .mentions → (otherRef e focusRef).isSome →
        edgeKey e ∈ (es.foldl (Reached.mention maxNodes focusRef) st).tree := by
  induction es generalizing st with
  | nil => exact ⟨hcut, fun key hkey => hkey, fun e he => absurd he List.not_mem_nil⟩
  | cons e es ih =>
    have hstep : (∀ ref k, (st.mention maxNodes focusRef e).hops.get? ref = some k → ref ∈ known) ∧
        (st.mention maxNodes focusRef e).beyondRoom = false ∧
        (∀ key ∈ st.tree, key ∈ (st.mention maxNodes focusRef e).tree) ∧
        (e.type = .mentions → (otherRef e focusRef).isSome →
          edgeKey e ∈ (st.mention maxNodes focusRef e).tree) := by
      unfold Reached.mention
      split
      · rename_i hother
        exact ⟨hknown, hcut, fun key hkey => hkey, fun htype => absurd htype hother⟩
      · split
        · rename_i hnone
          refine ⟨hknown, hcut, fun key hkey => hkey, fun _ hsome => ?_⟩
          rw [hnone] at hsome
          cases hsome
        · rename_i other hother
          split
          · exact ⟨hknown, hcut, fun key hkey => List.mem_append_left _ hkey,
              fun _ _ => List.mem_append_right _ (List.mem_singleton_self _)⟩
          · rename_i hnew
            have hmem := hes e List.mem_cons_self other hother
            have hnone : st.hops.get? other = none := by simpa using hnew
            -- a new end is one of the known, so there is room for it
            have hlt := length_lt_of_new hmem hnone hknown
            rw [if_neg (by omega)]
            refine ⟨fun ref k hk => ?_, hcut, fun key hkey => List.mem_append_left _ hkey,
              fun _ _ => List.mem_append_right _ (List.mem_singleton_self _)⟩
            rw [OrdMap.get?_set] at hk
            split at hk
            · rename_i heq
              exact heq ▸ hmem
            · exact hknown ref k hk
    obtain ⟨hknown', hcut', hkept, htaken⟩ := hstep
    obtain ⟨hlate, hkept', htaken'⟩ := ih (st.mention maxNodes focusRef e)
      (fun e' he' => hes e' (List.mem_cons_of_mem _ he')) hknown' hcut'
    refine ⟨hlate, fun key hkey => hkept' key (hkept key hkey), fun e' he' htype hsome => ?_⟩
    rcases List.mem_cons.mp he' with rfl | he'
    · exact hkept' _ (htaken htype hsome)
    · exact htaken' e' he' htype hsome

/-- The order of the edges does not matter. -/
theorem within_neighboursOf_congr {es es' : List EdgeDTO} (h : ∀ e, e ∈ es ↔ e ∈ es') (k : ℕ)
    (ref : Ref) :
    Within (neighboursOf localeCompare mode es) focusRef k ref ↔
      Within (neighboursOf localeCompare mode es') focusRef k ref := by
  refine @within_congr _ _ _ _ _ _ k (fun _ _ x _ y => ?_) _ (Nat.le_refl k) _
  rw [linked_neighboursOf, linked_neighboursOf]
  unfold Joins
  simp only [h]

theorem hopAt_congr {es es' : List EdgeDTO}
    (hwithin : ∀ k ≤ depth, ∀ ref, Within (neighboursOf localeCompare mode es) focusRef k ref ↔
      Within (neighboursOf localeCompare mode es') focusRef k ref)
    (hmentions : ∀ ref, MentionedBy es focusRef ref ↔ MentionedBy es' focusRef ref) {ref : Ref}
    {hop : ℕ} :
    HopAt localeCompare mode es focusRef depth ref hop ↔
      HopAt localeCompare mode es' focusRef depth ref hop := by
  unfold HopAt AtDistance
  rw [hmentions, hwithin depth (Nat.le_refl depth)]
  refine or_congr_left (and_congr_right fun hhop => ?_)
  rw [hwithin hop hhop]
  exact and_congr_right fun _ => forall₂_congr fun j hj => not_congr (hwithin j (by omega) ref)

/-! ## What an uncut response holds -/

/-- No cap cut the response. -/
def GraphNeighborhoodResponse.Uncut (r : GraphNeighborhoodResponse) : Prop :=
  .nodes ∉ r.limitReasons ∧ .edges ∉ r.limitReasons

/-- A response with the neighbourhood some edges make, and the item of each
ref it reaches. -/
structure BuiltNeighborhood (localeCompare : String → String → Ordering)
    (mode : GraphNeighborhoodMentionMode) (edges : List EdgeDTO) (byRef : OrdMap Ref ItemDTO)
    (focusRef : Ref) (depth : ℕ) (r : GraphNeighborhoodResponse) : Prop where
  nodes : ∀ n, n ∈ r.nodes ↔
    HopAt localeCompare mode edges focusRef depth n.ref n.hop ∧ n.item = byRef.get? n.ref
  edges : ∀ e, e ∈ r.edges ↔ e ∈ edges ∧ EligibleEdge mode focusRef e ∧
    (∃ hop, HopAt localeCompare mode edges focusRef depth e.fromRef hop) ∧
      ∃ hop, HopAt localeCompare mode edges focusRef depth e.toRef hop

theorem mem_inducedEdges {hops : OrdMap Ref ℕ} {e : EdgeDTO} :
    e ∈ inducedEdges mode focusRef hops edges ↔
      e ∈ edges ∧ EligibleEdge mode focusRef e ∧ (hops.get? e.fromRef).isSome ∧
        (hops.get? e.toRef).isSome := by
  unfold inducedEdges
  simp only [List.mem_filter, Bool.and_eq_true, decide_eq_true_eq, and_assoc]

/-- What the edge cap did not cut is every edge there is. -/
theorem mem_selectedEdges {reached : Reached} {induced : List EdgeDTO}
    (h : ¬(selectedEdges localeCompare reached induced maxEdges).length < induced.length)
    {e : EdgeDTO} : e ∈ selectedEdges localeCompare reached induced maxEdges ↔ e ∈ induced := by
  unfold selectedEdges at h ⊢
  simp only at h ⊢
  have hall := (List.filter_append_perm (fun e => decide (edgeKey e ∈ reached.tree)) induced).length_eq
  simp only [← decide_not] at hall
  rw [List.length_append] at hall
  rw [List.length_take, List.length_append, length_sortBy, length_sortBy, hall] at h
  rw [List.take_of_length_le]
  · rw [List.mem_append, mem_sortBy, mem_sortBy, List.mem_filter, List.mem_filter,
      decide_eq_true_eq, decide_eq_true_eq, ← and_or_left, and_iff_left (Classical.em _)]
  · rw [List.length_append, length_sortBy, length_sortBy, hall]
    omega

variable {configuredRepos : List RepoRef} {items : List ItemRecord} {labels : List LabelRecord}
  {edgeRows : List EdgeRecord} {generatedAt : String} {r : GraphNeighborhoodResponse}

theorem length_nodes_le (hroom : 0 < maxNodes)
    (h : buildGraphNeighborhood localeCompare configuredRepos items labels edgeRows generatedAt
      focusRef depth mode maxNodes maxEdges = .ok r) : r.nodes.length ≤ maxNodes := by
  unfold buildGraphNeighborhood at h
  simp only at h
  split at h
  · cases h
  · split at h
    · cases h
    · obtain rfl := Except.ok.inj h
      unfold graphNodes
      rw [length_sortBy, List.length_map]
      exact length_reach hroom

/-- **A response that no cap cut is the neighbourhood.** -/
theorem built_of_uncut (hroom : 0 < maxNodes)
    (h : buildGraphNeighborhood localeCompare configuredRepos items labels edgeRows generatedAt
      focusRef depth mode maxNodes maxEdges = .ok r) (huncut : r.Uncut) :
    BuiltNeighborhood localeCompare mode (mapEdges (some configuredRepos) items edgeRows)
      (OrdMap.index (·.id) (mapItems (some configuredRepos) items labels)) focusRef depth r := by
  unfold buildGraphNeighborhood at h
  simp only at h
  split at h
  · cases h
  · split at h
    · cases h
    · obtain rfl := Except.ok.inj h
      obtain ⟨hnodes, hedges⟩ := huncut
      simp only [mem_orderedReasons, List.mem_append, not_or] at hnodes hedges
      obtain ⟨⟨-, hroomCut⟩, -⟩ := hnodes
      obtain ⟨-, hedgeCut⟩ := hedges
      have hreach := fun ref hop => @get?_reach localeCompare mode _ focusRef depth maxNodes hroom
        (eq_false_of_not_mem_ite hroomCut) ref hop
      have hhop : ∀ ref hop, HopAt localeCompare mode
            (sortBy (compareEdges localeCompare) (mapEdges (some configuredRepos) items edgeRows))
            focusRef depth ref hop ↔
          HopAt localeCompare mode (mapEdges (some configuredRepos) items edgeRows) focusRef depth
            ref hop := by
        intro ref hop
        refine hopAt_congr (fun k _ ref => within_neighboursOf_congr (fun e => mem_sortBy) k ref)
          fun ref => ?_
        unfold MentionedBy
        simp only [mem_sortBy]
      constructor
      · intro n
        rw [mem_graphNodes, OrdMap.mem_entries_iff, hreach, hhop]
      · intro e
        have hcut : ¬_ < _ := fun hlt => hedgeCut (by rw [if_pos hlt]; exact List.mem_singleton_self _)
        rw [mem_selectedEdges hcut, mem_inducedEdges, mem_sortBy]
        simp only [Option.isSome_iff_exists, hreach, hhop]

end SymphonyBoard
