import Mathlib.Logic.Relation
import SymphonyBoard.Graph.Neighborhood
import SymphonyBoard.Graph.Sufficient
/-!
# A neighbourhood response is connected

Every item the traversal reaches hangs on one a link nearer, or is a
mention of the focus (`rooted_reach`), by edges that the builder keeps
before all others. In direct mode these are not a tree: every mention of
the focus to an item reached counts as one, so that there can be more of
them than the edge cap, and an item can lose all its edges. What is
connected are the responses in which none does (`connected_iff`).
-/

namespace SymphonyBoard

/-- Two references joined by a drawn edge. -/
def JoinedBy (edges : List EdgeDTO) (x y : Ref) : Prop := ∃ e ∈ edges, otherRef e x = some y

/-- The edges of a response join its focus to every node. -/
def ConnectedResponse (r : GraphNeighborhoodResponse) : Prop :=
  ∀ n ∈ r.nodes, Relation.ReflTransGen (JoinedBy r.edges) r.focusRef n.ref

/-- An edge joins a ref to another one. -/
def JoinsOther (e : EdgeDTO) (ref : Ref) : Prop := ∃ p, otherRef e ref = some p ∧ p ≠ ref

/-- The edge cap leaves every ref reached, the focus apart, one of the edges
kept first. -/
def KeepsTreeEdge (localeCompare : String → String → Ordering) (mode : GraphNeighborhoodMentionMode)
    (edges : List EdgeDTO) (focusRef : Ref) (depth maxNodes maxEdges : ℕ) : Prop :=
  let reached := (reach localeCompare mode edges focusRef depth maxNodes).1
  ∀ ref, (reached.hops.get? ref).isSome → ref ≠ focusRef →
    ∃ e ∈ (treeEdges localeCompare reached (inducedEdges mode focusRef reached.hops edges)).take
      maxEdges, JoinsOther e ref

variable {localeCompare : String → String → Ordering} {mode : GraphNeighborhoodMentionMode}
  {edges : List EdgeDTO} {focusRef : Ref} {depth maxNodes maxEdges : ℕ}

/-! ## What is reached is rooted at the focus -/

/-- Every ref reached hangs on one a link nearer by an edge kept first, and
those edges are such links or touch the focus. -/
structure Rooted (mode : GraphNeighborhoodMentionMode) (edges : List EdgeDTO) (focusRef : Ref)
    (st : Reached) : Prop where
  focus : st.hops.get? focusRef = some 0
  parent : ∀ ref k, st.hops.get? ref = some k → ref = focusRef ∧ k = 0 ∨
    ∃ e ∈ edges, EligibleEdge mode focusRef e ∧ edgeKey e ∈ st.tree ∧
      ∃ p j, otherRef e ref = some p ∧ st.hops.get? p = some j ∧ k = j + 1
  links : ∀ e, edgeKey e ∈ st.tree → (e.fromRef = focusRef ∨ e.toRef = focusRef) ∨
    ∃ x j y, otherRef e x = some y ∧ st.hops.get? x = some j ∧ st.hops.get? y = some (j + 1)

theorem otherRef_symm {e : EdgeDTO} {x y : Ref} (h : otherRef e x = some y) :
    otherRef e y = some x := by
  rw [otherRef_eq_some] at h ⊢
  exact h.symm.imp (fun ⟨hx, hy⟩ => ⟨hy, hx⟩) fun ⟨hx, hy⟩ => ⟨hy, hx⟩

/-- The key of an edge tells its ends. -/
theorem otherRef_congr {e e' : EdgeDTO} (h : edgeKey e = edgeKey e') (ref : Ref) :
    otherRef e ref = otherRef e' ref := by
  unfold edgeKey at h
  simp only [Prod.mk.injEq] at h
  unfold otherRef
  rw [h.2.1, h.2.2]

theorem mem_neighboursOf {ref other : Ref} {key : EdgeKey} :
    (other, key) ∈ neighboursOf localeCompare mode edges ref ↔
      ∃ e ∈ edges, Traversed mode e ∧ otherRef e ref = some other ∧ edgeKey e = key := by
  unfold neighboursOf
  simp only [List.mem_map, mem_sortBy, List.mem_filterMap, List.mem_filter, decide_eq_true_eq,
    Option.map_eq_some_iff, Prod.mk.injEq]
  constructor
  · rintro ⟨_, ⟨e, ⟨he, htraversed⟩, other', hother, rfl⟩, rfl, rfl⟩
    exact ⟨e, he, htraversed, hother, rfl⟩
  · rintro ⟨e, he, htraversed, hother, rfl⟩
    exact ⟨_, ⟨e, ⟨he, htraversed⟩, other, hother, rfl⟩, rfl, rfl⟩

theorem rooted_search (hroom : 0 < maxNodes) :
    Rooted mode edges focusRef
      ⟨(search (neighboursOf localeCompare mode edges) depth maxNodes focusRef).hops,
        (search (neighboursOf localeCompare mode edges) depth maxNodes focusRef).tree,
        (search (neighboursOf localeCompare mode edges) depth maxNodes focusRef).beyondRoom⟩ := by
  have htree : Treed (neighboursOf localeCompare mode edges) focusRef
      (search (neighboursOf localeCompare mode edges) depth maxNodes focusRef) :=
    treed_search hroom
  refine ⟨(searching_run maxNodes (searching_start hroom focusRef)).start, ?_, ?_⟩
  · intro ref k hk
    refine (htree.parent ref k hk).imp_right ?_
    rintro ⟨x, j, t, rfl, hx, hmem, ht⟩
    obtain ⟨e, he, htraversed, hother, rfl⟩ := mem_neighboursOf.mp hmem
    exact ⟨e, he, htraversed.imp_right Or.inl, ht, x, j, otherRef_symm hother, hx, rfl⟩
  · intro e ht
    obtain ⟨x, j, y, hx, hy, hmem⟩ := htree.links _ ht
    obtain ⟨e', -, -, hother, hkey⟩ := mem_neighboursOf.mp hmem
    exact Or.inr ⟨x, j, y, (otherRef_congr hkey x).symm.trans hother, hx, hy⟩

theorem rooted_mention {st : Reached} {e : EdgeDTO} (he : e ∈ edges)
    (h : Rooted mode edges focusRef st) :
    Rooted mode edges focusRef (st.mention maxNodes focusRef e) := by
  unfold Reached.mention
  split
  · exact h
  · split
    · exact h
    · rename_i other hother
      have hfocus : e.fromRef = focusRef ∨ e.toRef = focusRef := by
        rcases otherRef_eq_some.mp hother with ⟨hfrom, -⟩ | ⟨hto, -⟩
        · exact Or.inl hfrom
        · exact Or.inr hto
      have hends : ∀ e', edgeKey e' = edgeKey e →
          e'.fromRef = focusRef ∨ e'.toRef = focusRef := by
        intro e' hkey
        unfold edgeKey at hkey
        simp only [Prod.mk.injEq] at hkey
        rw [hkey.2.1, hkey.2.2]
        exact hfocus
      split
      · -- the other end is known: only the link is new
        refine ⟨h.focus, fun ref k hk => ?_, fun e' hkey => ?_⟩
        · refine (h.parent ref k hk).imp_right ?_
          rintro ⟨e', he', heligible, hkey, hrest⟩
          exact ⟨e', he', heligible, List.mem_append_left _ hkey, hrest⟩
        · rcases List.mem_append.mp hkey with hkey | hkey
          · exact h.links e' hkey
          · exact Or.inl (hends e' (List.mem_singleton.mp hkey))
      · rename_i hnew
        split
        · exact ⟨h.focus, h.parent, h.links⟩
        · -- the other end is found now, one step from the focus
          have hnone : st.hops.get? other = none := by simpa using hnew
          have hkept : ∀ ref k, st.hops.get? ref = some k →
              (st.hops.set other 1).get? ref = some k := by
            intro ref k hk
            have hne : other ≠ ref := fun heq => by rw [heq, hk] at hnone; cases hnone
            rw [OrdMap.get?_set, if_neg hne]
            exact hk
          refine ⟨hkept _ _ h.focus, fun ref k hk => ?_, fun e' hkey => ?_⟩
          · simp only at hk ⊢
            rw [OrdMap.get?_set] at hk
            split at hk
            · rename_i heq
              obtain rfl := Option.some.inj hk
              refine Or.inr ⟨e, he, Or.inr (Or.inr hfocus),
                List.mem_append_right _ (List.mem_singleton_self _), focusRef, 0, ?_,
                hkept _ _ h.focus, rfl⟩
              exact otherRef_symm (heq ▸ hother)
            · refine (h.parent ref k hk).imp_right ?_
              rintro ⟨e', he', heligible, hkey, p, j, hp, hj, rfl⟩
              exact ⟨e', he', heligible, List.mem_append_left _ hkey, p, j, hp, hkept _ _ hj, rfl⟩
          · rcases List.mem_append.mp hkey with hkey | hkey
            · refine (h.links e' hkey).imp_right ?_
              rintro ⟨x, j, y, hother', hx, hy⟩
              exact ⟨x, j, y, hother', hkept _ _ hx, hkept _ _ hy⟩
            · exact Or.inl (hends e' (List.mem_singleton.mp hkey))

theorem reach_direct :
    (reach localeCompare .direct edges focusRef depth maxNodes).1 =
      edges.foldl (Reached.mention maxNodes focusRef)
        ⟨(search (neighboursOf localeCompare .direct edges) depth maxNodes focusRef).hops,
          (search (neighboursOf localeCompare .direct edges) depth maxNodes focusRef).tree,
          (search (neighboursOf localeCompare .direct edges) depth maxNodes focusRef).beyondRoom⟩ :=
  rfl

/-- **What is reached is rooted at the focus.** -/
theorem rooted_reach (hroom : 0 < maxNodes) :
    Rooted mode edges focusRef (reach localeCompare mode edges focusRef depth maxNodes).1 := by
  have hsearch : Rooted mode edges focusRef
      ⟨(search (neighboursOf localeCompare mode edges) depth maxNodes focusRef).hops,
        (search (neighboursOf localeCompare mode edges) depth maxNodes focusRef).tree,
        (search (neighboursOf localeCompare mode edges) depth maxNodes focusRef).beyondRoom⟩ :=
    rooted_search hroom
  have hmentions : ∀ (es : List EdgeDTO) (st : Reached), (∀ e ∈ es, e ∈ edges) →
      Rooted mode edges focusRef st →
      Rooted mode edges focusRef (es.foldl (Reached.mention maxNodes focusRef) st) := by
    intro es
    induction es with
    | nil => exact fun st _ h => h
    | cons e es ih =>
      intro st hes h
      exact ih _ (fun e' he' => hes e' (List.mem_cons_of_mem _ he'))
        (rooted_mention (hes e List.mem_cons_self) h)
  unfold reach
  cases mode with
  | all => exact hsearch
  | direct => exact hmentions edges _ (fun e he => he) hsearch

/-! ## The edges kept first -/

theorem edgeDistance_eq {hops : OrdMap Ref ℕ} {e : EdgeDTO} {x y : Ref} {j k : ℕ}
    (hother : otherRef e x = some y) (hx : hops.get? x = some j) (hy : hops.get? y = some k) :
    edgeDistance hops e = max j k := by
  unfold edgeDistance
  rcases otherRef_eq_some.mp hother with ⟨rfl, rfl⟩ | ⟨rfl, rfl⟩
  · rw [hx, hy]
    rfl
  · rw [hx, hy, max_comm]
    rfl

/-- The two ends of an edge. -/
theorem ends_of_otherRef {e : EdgeDTO} {x y x' y' : Ref} (h : otherRef e x = some y)
    (h' : otherRef e x' = some y') : x' = x ∧ y' = y ∨ x' = y ∧ y' = x := by
  rcases otherRef_eq_some.mp h with ⟨rfl, rfl⟩ | ⟨rfl, rfl⟩
  · exact (otherRef_eq_some.mp h').imp (fun ⟨hx, hy⟩ => ⟨hx.symm, hy.symm⟩)
      fun ⟨hx, hy⟩ => ⟨hx.symm, hy.symm⟩
  · exact (otherRef_eq_some.mp h').symm.imp (fun ⟨hx, hy⟩ => ⟨hx.symm, hy.symm⟩)
      fun ⟨hx, hy⟩ => ⟨hx.symm, hy.symm⟩

section Kept

variable {reached : Reached}

theorem mem_treeEdges {e : EdgeDTO} :
    e ∈ treeEdges localeCompare reached (inducedEdges mode focusRef reached.hops edges) ↔
      e ∈ inducedEdges mode focusRef reached.hops edges ∧ edgeKey e ∈ reached.tree := by
  unfold treeEdges
  rw [mem_sortBy, List.mem_filter, decide_eq_true_eq]

/-- The edge a ref hangs on is kept first, at the ref's own distance. -/
theorem exists_parentEdge (h : Rooted mode edges focusRef reached) {ref : Ref} {k : ℕ}
    (hk : reached.hops.get? ref = some k) (hne : ref ≠ focusRef) :
    ∃ e ∈ treeEdges localeCompare reached (inducedEdges mode focusRef reached.hops edges),
      edgeDistance reached.hops e = k ∧
        ∃ p j, otherRef e ref = some p ∧ reached.hops.get? p = some j ∧ j < k := by
  obtain ⟨e, he, heligible, hkey, p, j, hother, hp, rfl⟩ :=
    (h.parent ref k hk).resolve_left fun heq => hne heq.1
  refine ⟨e, mem_treeEdges.mpr ⟨mem_inducedEdges.mpr ⟨he, heligible, ?_⟩, hkey⟩, ?_, p, j, hother,
    hp, Nat.lt_succ_self j⟩
  · rcases otherRef_eq_some.mp hother with ⟨rfl, rfl⟩ | ⟨rfl, rfl⟩
    · exact ⟨Option.isSome_of_eq_some hk, Option.isSome_of_eq_some hp⟩
    · exact ⟨Option.isSome_of_eq_some hp, Option.isSome_of_eq_some hk⟩
  · rw [edgeDistance_eq hother hk hp]
    omega

/-- What the cap keeps of the edges kept first is no further than what it
cuts. -/
theorem edgeDistance_le_of_cut [Std.TransCmp localeCompare] {e e' : EdgeDTO} {n : ℕ}
    (he : e ∈ (treeEdges localeCompare reached (inducedEdges mode focusRef reached.hops edges)).take n)
    (he' : e' ∈ treeEdges localeCompare reached (inducedEdges mode focusRef reached.hops edges))
    (hcut : e' ∉ (treeEdges localeCompare reached
      (inducedEdges mode focusRef reached.hops edges)).take n) :
    edgeDistance reached.hops e ≤ edgeDistance reached.hops e' := by
  unfold treeEdges at he he' hcut
  rw [← List.take_append_drop n (sortBy _ _), List.mem_append] at he'
  have hsorted := @pairwise_sortBy _ (compareLex (on numberOrder (edgeDistance reached.hops))
    (compareEdges localeCompare)) inferInstance ((inducedEdges mode focusRef reached.hops
      edges).filter fun e => decide (edgeKey e ∈ reached.tree))
  rw [← List.take_append_drop n (sortBy _ _), List.pairwise_append] at hsorted
  have hle := hsorted.2.2 e he e' (he'.resolve_left hcut)
  by_contra hlt
  have hgt : numberOrder (edgeDistance reached.hops e) (edgeDistance reached.hops e') = .gt :=
    compare_gt_iff_gt.mpr (by omega)
  unfold compareLex on at hle
  rw [hgt] at hle
  cases hle

end Kept

/-! ## Connected responses -/

/-- Along a path from the focus the last edge to a ref comes from another
one. -/
theorem exists_joinsOther {x ref : Ref} (h : Relation.ReflTransGen (JoinedBy edges) x ref) :
    ref = x ∨ ∃ e ∈ edges, JoinsOther e ref := by
  induction h with
  | refl => exact Or.inl rfl
  | @tail b c _ hbc ih =>
    obtain ⟨e, he, hother⟩ := hbc
    by_cases hsame : b = c
    · exact hsame ▸ ih
    · exact Or.inr ⟨e, he, b, otherRef_symm hother, hsame⟩

/-- A cap that all the edges kept first fit under cuts none of them. -/
theorem keepsTreeEdge_of_length (hroom : 0 < maxNodes)
    (h : (treeEdges localeCompare (reach localeCompare mode edges focusRef depth maxNodes).1
      (inducedEdges mode focusRef (reach localeCompare mode edges focusRef depth maxNodes).1.hops
        edges)).length ≤ maxEdges) :
    KeepsTreeEdge localeCompare mode edges focusRef depth maxNodes maxEdges := by
  have hrooted : Rooted mode edges focusRef
      (reach localeCompare mode edges focusRef depth maxNodes).1 := rooted_reach hroom
  intro ref hreached hne
  obtain ⟨k, hk⟩ := Option.isSome_iff_exists.mp hreached
  obtain ⟨u, hu, -, p, j, hp, hj, hlt⟩ :=
    @exists_parentEdge localeCompare _ _ _ _ hrooted _ _ hk hne
  rw [List.take_of_length_le h]
  refine ⟨u, hu, p, hp, fun heq => ?_⟩
  rw [heq, hk] at hj
  have hsame := Option.some.inj hj
  omega

section Response

variable [Std.TransCmp localeCompare]

/-- Where every ref keeps an edge, each is joined to the focus: the parent's
edge is kept, or what is kept is no further and leads nearer. -/
theorem joined_of_keepsTreeEdge (hroom : 0 < maxNodes)
    (h : KeepsTreeEdge localeCompare mode edges focusRef depth maxNodes maxEdges) {kept : List EdgeDTO}
    (hkept : ∀ e ∈ (treeEdges localeCompare
        (reach localeCompare mode edges focusRef depth maxNodes).1 (inducedEdges mode focusRef
          (reach localeCompare mode edges focusRef depth maxNodes).1.hops edges)).take maxEdges,
      e ∈ kept) {ref : Ref} {k : ℕ}
    (hk : (reach localeCompare mode edges focusRef depth maxNodes).1.hops.get? ref = some k) :
    Relation.ReflTransGen (JoinedBy kept) focusRef ref := by
  have hrooted : Rooted mode edges focusRef
      (reach localeCompare mode edges focusRef depth maxNodes).1 := rooted_reach hroom
  unfold KeepsTreeEdge at h
  simp only at h
  generalize (reach localeCompare mode edges focusRef depth maxNodes).1 = reached
    at h hkept hk hrooted
  induction k using Nat.strong_induction_on generalizing ref with
  | _ k ih =>
    by_cases hne : ref = focusRef
    · rw [hne]
    · obtain ⟨u, hu, hdistance, p, j, hp, hj, hlt⟩ :=
        @exists_parentEdge localeCompare _ _ _ _ hrooted _ _ hk hne
      -- the edge to the parent is kept, or an edge kept in its place goes as near
      by_cases hcut : u ∈ (treeEdges localeCompare reached
          (inducedEdges mode focusRef reached.hops edges)).take maxEdges
      · exact (ih j hlt hj).tail ⟨u, hkept u hcut, otherRef_symm hp⟩
      · obtain ⟨e, he, p', hother, hp'⟩ := h ref (Option.isSome_of_eq_some hk) hne
        have hle := edgeDistance_le_of_cut he hu hcut
        obtain ⟨-, hkey⟩ := mem_treeEdges.mp (List.mem_of_mem_take he)
        have hstep : JoinedBy kept p' ref := ⟨e, hkept e he, otherRef_symm hother⟩
        rcases hrooted.links e hkey with hfocus | ⟨x, i, y, hxy, hx, hy⟩
        · -- an edge at the focus joins the ref to it
          have hend : p' = focusRef := by
            rcases otherRef_eq_some.mp hother with ⟨hfrom, hto⟩ | ⟨hto, hfrom⟩
            · rcases hfocus with heq | heq
              · exact absurd (hfrom.symm.trans heq) hne
              · exact hto.symm.trans heq
            · rcases hfocus with heq | heq
              · exact hfrom.symm.trans heq
              · exact absurd (hto.symm.trans heq) hne
          rw [hend] at hstep
          exact Relation.ReflTransGen.single hstep
        · rw [edgeDistance_eq hxy hx hy, hdistance] at hle
          rcases ends_of_otherRef hxy hother with ⟨rfl, rfl⟩ | ⟨rfl, rfl⟩
          · rw [hx] at hk
            have := Option.some.inj hk
            omega
          · rw [hy] at hk
            have := Option.some.inj hk
            exact (ih i (by omega) hx).tail hstep

variable {configuredRepos : List RepoRef} {items : List ItemRecord} {labels : List LabelRecord}
  {edgeRows : List EdgeRecord} {generatedAt : String} {r : GraphNeighborhoodResponse}

/-- **A response is connected exactly when the edge cap leaves every item
reached one of the edges kept first.** -/
theorem connected_iff_of_room (hroom : 0 < maxNodes)
    (h : buildGraphNeighborhood localeCompare configuredRepos items labels edgeRows generatedAt
      focusRef depth mode maxNodes maxEdges = .ok r) :
    ConnectedResponse r ↔ KeepsTreeEdge localeCompare mode
      (sortBy (compareEdges localeCompare) (mapEdges (some configuredRepos) items edgeRows))
      focusRef depth maxNodes maxEdges := by
  unfold buildGraphNeighborhood at h
  simp only at h
  split at h
  · cases h
  · split at h
    · cases h
    · obtain rfl := Except.ok.inj h
      generalize sortBy (compareEdges localeCompare)
        (mapEdges (some configuredRepos) items edgeRows) = edges
      constructor
      · intro hconnected ref hreached hne
        obtain ⟨k, hk⟩ := Option.isSome_iff_exists.mp hreached
        have hnode := hconnected
          ⟨ref, k, (OrdMap.index (·.id) (mapItems (some configuredRepos) items labels)).get? ref⟩
          (mem_graphNodes.mpr ⟨OrdMap.mem_entries_iff.mpr hk, rfl⟩)
        obtain ⟨e, he, hjoins⟩ := (exists_joinsOther hnode).resolve_left hne
        unfold selectedEdges at he
        rw [List.take_append, List.mem_append] at he
        rcases he with he | hextra
        · exact ⟨e, he, hjoins⟩
        · -- an extra edge is kept only after all of those kept first
          have hlength : 0 < maxEdges - (treeEdges localeCompare
              (reach localeCompare mode edges focusRef depth maxNodes).1 (inducedEdges mode focusRef
                (reach localeCompare mode edges focusRef depth maxNodes).1.hops edges)).length := by
            by_contra hnone
            have hzero := Nat.eq_zero_of_not_pos hnone
            unfold treeEdges at hzero
            rw [hzero, List.take_zero] at hextra
            cases hextra
          exact keepsTreeEdge_of_length hroom (by omega) ref hreached hne
      · intro hkeeps n hn
        obtain ⟨hentry, -⟩ := mem_graphNodes.mp hn
        refine joined_of_keepsTreeEdge hroom hkeeps (fun e he => ?_)
          (OrdMap.mem_entries_iff.mp hentry)
        unfold selectedEdges
        rw [List.take_append]
        exact List.mem_append_left _ he

end Response

/-- **A response under the default limits is connected exactly when its edge
cap leaves every item reached one of the edges kept first.** -/
theorem connected_iff (localeCompare : String → String → Ordering) [Std.TransCmp localeCompare]
    (configuredRepos : List RepoRef) (items : List ItemRecord) (labels : List LabelRecord)
    (edgeRows : List EdgeRecord) (generatedAt : String) (focusRef : Ref) (depth : ℕ)
    (mode : GraphNeighborhoodMentionMode) (r : GraphNeighborhoodResponse)
    (h : buildGraphNeighborhood localeCompare configuredRepos items labels edgeRows generatedAt
      focusRef depth mode graphNeighborhoodMaxNodes graphNeighborhoodMaxEdges = .ok r) :
    ConnectedResponse r ↔ KeepsTreeEdge localeCompare mode
      (sortBy (compareEdges localeCompare) (mapEdges (some configuredRepos) items edgeRows))
      focusRef depth graphNeighborhoodMaxNodes graphNeighborhoodMaxEdges :=
  connected_iff_of_room (by decide) h

/-! ## An item with many mentions -/

namespace ManyMentions

open OneChild

/-- The focus of the read. -/
def focus : Ref := refOfEndpoint (endpoint "y")

/-- Mentioned once, by the focus, and in no other edge. -/
def last : Ref := refOfEndpoint (endpoint "z")

/-- The name of the `i`th item near the focus. -/
def name (i : ℕ) : String := String.ofList (List.replicate (i + 1) 'a')

/-- The `i`th item near the focus. -/
def near (i : ℕ) : Ref := refOfEndpoint (endpoint (name i))

/-- The edges of one item: it relates to the focus, mentions it, and is
mentioned by it. -/
def rowsOf (i : ℕ) : List EdgeRecord :=
  [((.relates, endpoint (name i), endpoint "y"), edge),
    ((.mentions, endpoint (name i), endpoint "y"), edge),
    ((.mentions, endpoint "y", endpoint (name i)), edge)]

/-- The focus mentions the last item. -/
def lastRow : EdgeRecord := ((.mentions, endpoint "y", endpoint "z"), edge)

theorem mem_rowsOf {i : ℕ} {row : EdgeRecord} :
    row ∈ rowsOf i ↔ row = ((.relates, endpoint (name i), endpoint "y"), edge) ∨
      row = ((.mentions, endpoint (name i), endpoint "y"), edge) ∨
        row = ((.mentions, endpoint "y", endpoint (name i)), edge) := by
  unfold rowsOf
  simp only [List.mem_cons, List.not_mem_nil, or_false]

/-- As many items as there is room for. -/
def rows : List EdgeRecord := (List.range 198).flatMap rowsOf ++ [lastRow]

/-- The edges of the store, as they are sent. -/
def allEdges : List EdgeDTO :=
  sortBy (compareEdges textOrder) (mapEdges (some (configuredRepoRefs config)) [] rows)

theorem mem_allEdges {e : EdgeDTO} :
    e ∈ allEdges ↔ (∃ i < 198, ∃ row ∈ rowsOf i, toEdgeDTO row = e) ∨ e = toEdgeDTO lastRow := by
  unfold allEdges
  rw [mem_sortBy, mem_mapEdges]
  have hends : ∀ externalId, AdmitsEndpoint (some (configuredRepoRefs config)) []
      (endpoint externalId) := fun externalId => ⟨rfl, fun row hrow => absurd hrow List.not_mem_nil⟩
  unfold rows
  simp only [List.mem_append, List.mem_flatMap, List.mem_range, List.mem_singleton]
  constructor
  · rintro ⟨row, ⟨i, hi, hrow⟩ | rfl, -, -, rfl⟩
    · exact Or.inl ⟨i, hi, row, hrow, rfl⟩
    · exact Or.inr rfl
  · rintro (⟨i, hi, row, hrow, rfl⟩ | rfl)
    · refine ⟨row, Or.inl ⟨i, hi, hrow⟩, ?_, ?_, rfl⟩
      · rcases mem_rowsOf.mp hrow with rfl | rfl | rfl
        · exact hends _
        · exact hends _
        · exact hends _
      · rcases mem_rowsOf.mp hrow with rfl | rfl | rfl
        · exact hends _
        · exact hends _
        · exact hends _
    · exact ⟨lastRow, Or.inr rfl, hends _, hends _, rfl⟩

theorem textOrder_near {i : ℕ} {c : Char} (hc : 'a' < c) :
    textOrder (near i) (refOfEndpoint (endpoint (String.ofList [c]))) = .lt := by
  unfold textOrder String.compare
  rw [compareOfLessAndEq_eq_lt]
  have hnear : (near i).toList =
      (sourceId.val.toList ++ ['|']) ++ 'a' :: List.replicate i 'a' := by
    simp [near, name, refOfEndpoint, refOf, endpoint, List.replicate_succ]
  have hother : (refOfEndpoint (endpoint (String.ofList [c]))).toList =
      (sourceId.val.toList ++ ['|']) ++ [c] := by
    simp [refOfEndpoint, refOf, endpoint]
  show (near i).toList < (refOfEndpoint (endpoint (String.ofList [c]))).toList
  rw [hnear, hother]
  exact List.append_left_lt (List.cons_lt_cons_iff.mpr (Or.inl hc))

theorem near_inj {i j : ℕ} (h : near i = near j) : i = j := by
  have hname : name i = name j := congrArg ItemEndpoint.externalId (refOfEndpoint_injective h)
  unfold name at hname
  have hlength := congrArg List.length (String.ofList_injective hname)
  simpa using hlength

/-- The other end of an edge at the focus, and at the last item. -/
theorem otherRef_allEdges {e : EdgeDTO} (he : e ∈ allEdges) :
    (∃ i < 198, otherRef e focus = some (near i) ∧ otherRef e last = none) ∨
      e = toEdgeDTO lastRow := by
  have hfocus : ∀ i, near i ≠ focus := fun i heq => by
    have hlt := textOrder_near (i := i) (by decide : 'a' < 'y')
    rw [show String.ofList ['y'] = "y" from rfl] at hlt
    unfold focus at heq
    rw [heq] at hlt
    exact absurd hlt (by decide)
  have hlast : ∀ i, near i ≠ last := fun i heq => by
    have hlt := textOrder_near (i := i) (by decide : 'a' < 'z')
    rw [show String.ofList ['z'] = "z" from rfl] at hlt
    unfold last at heq
    rw [heq] at hlt
    exact absurd hlt (by decide)
  have hapart : focus ≠ last := by decide
  rcases mem_allEdges.mp he with ⟨i, hi, row, hrow, rfl⟩ | rfl
  · refine Or.inl ⟨i, hi, ?_⟩
    have hends : (toEdgeDTO row).fromRef = near i ∧ (toEdgeDTO row).toRef = focus ∨
        (toEdgeDTO row).fromRef = focus ∧ (toEdgeDTO row).toRef = near i := by
      rcases mem_rowsOf.mp hrow with rfl | rfl | rfl
      · exact Or.inl ⟨rfl, rfl⟩
      · exact Or.inl ⟨rfl, rfl⟩
      · exact Or.inr ⟨rfl, rfl⟩
    unfold otherRef
    rcases hends with ⟨hfrom, hto⟩ | ⟨hfrom, hto⟩
    · rw [hfrom, hto]
      simp [hfocus i, hlast i, hapart]
    · rw [hfrom, hto]
      simp [hlast i, hapart]
  · exact Or.inr rfl

/-- The focus, the last item, and the others. -/
def known : List Ref := focus :: last :: (List.range 198).map near

theorem length_known : known.length ≤ graphNeighborhoodMaxNodes := by
  unfold known
  rw [List.length_cons, List.length_cons, List.length_map, List.length_range]
  decide

theorem near_mem_known {i : ℕ} (hi : i < 198) : near i ∈ known :=
  List.mem_cons_of_mem _ (List.mem_cons_of_mem _
    (List.mem_map_of_mem (List.mem_range.mpr hi)))

theorem other_mem_known {e : EdgeDTO} (he : e ∈ allEdges) {x y : Ref}
    (hother : otherRef e x = some y) : y ∈ known := by
  rcases otherRef_allEdges he with ⟨i, hi, hnear, -⟩ | rfl
  · rcases ends_of_otherRef hnear hother with ⟨-, rfl⟩ | ⟨-, rfl⟩
    · exact near_mem_known hi
    · exact List.mem_cons_self
  · have hlast : otherRef (toEdgeDTO lastRow) focus = some last := by decide
    rcases ends_of_otherRef hlast hother with ⟨-, rfl⟩ | ⟨-, rfl⟩
    · exact List.mem_cons_of_mem _ List.mem_cons_self
    · exact List.mem_cons_self

/-- The search over all the store's edges. -/
def traversal : Search Ref EdgeKey :=
  search (neighboursOf textOrder .direct allEdges) 1 graphNeighborhoodMaxNodes focus

/-- What the search reaches. -/
def reached : Reached := (reach textOrder .direct allEdges focus 1 graphNeighborhoodMaxNodes).1

theorem housed_traversal : Housed known traversal := by
  refine housed_search (by decide) length_known List.mem_cons_self fun x _ n hn => ?_
  obtain ⟨e, he, -, hother, -⟩ := mem_neighboursOf.mp (show (n.1, n.2) ∈ _ from hn)
  exact other_mem_known he hother

/-- There is room for them all, and every mention of the focus counts. -/
theorem reached_uncut : reached.beyondRoom = false ∧ (∀ key ∈ traversal.tree, key ∈ reached.tree) ∧
    ∀ e ∈ allEdges, e.type = .mentions → (otherRef e focus).isSome → edgeKey e ∈ reached.tree := by
  have hhoused := housed_traversal
  unfold reached
  rw [reach_direct]
  unfold traversal at hhoused ⊢
  generalize search (neighboursOf textOrder .direct allEdges) 1 graphNeighborhoodMaxNodes focus =
    found at hhoused
  exact housed_mentions length_known allEdges ⟨found.hops, found.tree, found.beyondRoom⟩
    (fun e he other hother => other_mem_known he hother) hhoused.1 hhoused.2

theorem hop_reached {ref : Ref} {hop : ℕ} : reached.hops.get? ref = some hop ↔
    HopAt textOrder .direct allEdges focus 1 ref hop :=
  get?_reach (by decide) reached_uncut.1

theorem relates_mem {i : ℕ} (hi : i < 198) :
    toEdgeDTO ((.relates, endpoint (name i), endpoint "y"), edge) ∈ allEdges :=
  mem_allEdges.mpr (Or.inl ⟨i, hi, _, mem_rowsOf.mpr (Or.inl rfl), rfl⟩)

theorem near_ne_focus (i : ℕ) : near i ≠ focus := by
  intro heq
  have hlt := textOrder_near (i := i) (by decide : 'a' < 'y')
  rw [show String.ofList ['y'] = "y" from rfl] at hlt
  unfold focus at heq
  rw [heq] at hlt
  exact absurd hlt (by decide)

/-- The others are one link from the focus. -/
theorem atDistance_near {i : ℕ} (hi : i < 198) :
    AtDistance (neighboursOf textOrder .direct allEdges) focus 1 (near i) := by
  refine ⟨Or.inr ⟨focus, rfl, ?_⟩, ?_⟩
  · rw [linked_neighboursOf]
    exact ⟨_, relates_mem hi, Or.inr EdgeType.noConfusion, otherRef_eq_some.mpr (Or.inr ⟨rfl, rfl⟩)⟩
  · intro j hj hnear
    obtain rfl : j = 0 := by omega
    exact near_ne_focus i hnear

theorem hop_focus : reached.hops.get? focus = some 0 :=
  hop_reached.mpr (Or.inl ⟨Nat.zero_le 1, rfl, fun j hj => absurd hj (Nat.not_lt_zero j)⟩)

theorem hop_near {i : ℕ} (hi : i < 198) : reached.hops.get? (near i) = some 1 :=
  hop_reached.mpr (Or.inl ⟨Nat.le_refl 1, atDistance_near hi⟩)

/-- The last item is reached by its mention alone. -/
theorem hop_last : reached.hops.get? last = some 1 := by
  refine hop_reached.mpr (Or.inr ⟨rfl, rfl, ⟨toEdgeDTO lastRow, mem_allEdges.mpr (Or.inr rfl), rfl,
    by decide⟩, ?_⟩)
  rintro (hfocus | ⟨x, rfl, hlinked⟩)
  · exact absurd (show last = focus from hfocus) (by decide)
  · obtain ⟨e, he, htraversed, hother⟩ := linked_neighboursOf.mp hlinked
    rcases otherRef_allEdges he with ⟨i, -, hnear, hnone⟩ | rfl
    · rw [otherRef_symm hother] at hnone
      cases hnone
    · rcases htraversed with hall | hstructural
      · cases hall
      · exact hstructural rfl

/-- The traversal takes the relation of each of the others. -/
theorem relates_tree {i : ℕ} (hi : i < 198) :
    edgeKey (toEdgeDTO ((.relates, endpoint (name i), endpoint "y"), edge)) ∈ reached.tree := by
  have htree : Treed (neighboursOf textOrder .direct allEdges) focus traversal :=
    treed_search (by decide)
  have hfound := fun ref k => @get?_search _ _ _ (neighboursOf textOrder .direct allEdges) 1
    graphNeighborhoodMaxNodes focus (by decide) housed_traversal.2 ref k
  have hhop : traversal.hops.get? (near i) = some 1 :=
    (hfound _ _).mpr ⟨Nat.le_refl 1, atDistance_near hi⟩
  rcases htree.parent _ _ hhop with ⟨-, hzero⟩ | ⟨x, j, t, hj, hx, hmem, ht⟩
  · cases hzero
  · obtain rfl : j = 0 := by omega
    obtain rfl : x = focus := ((hfound _ _).mp hx).2.1
    obtain ⟨e, he, htraversed, hother, rfl⟩ := mem_neighboursOf.mp hmem
    have hstructural : e.type ≠ .mentions := htraversed.resolve_left (by decide)
    rcases mem_allEdges.mp he with ⟨k, hk, row, hrow, rfl⟩ | rfl
    · rcases mem_rowsOf.mp hrow with rfl | rfl | rfl
      · have hends : otherRef (toEdgeDTO ((.relates, endpoint (name k), endpoint "y"), edge)) focus =
            some (near k) := otherRef_eq_some.mpr (Or.inr ⟨rfl, rfl⟩)
        rw [hends] at hother
        rw [← near_inj (Option.some.inj hother)]
        exact reached_uncut.2.1 _ ht
      · exact absurd rfl hstructural
      · exact absurd rfl hstructural
    · exact absurd rfl hstructural

/-- The edges of the others. -/
def others : List EdgeDTO := ((List.range 198).flatMap rowsOf).map toEdgeDTO

theorem nodup_others : others.Nodup := by
  have hrows : ((List.range 198).flatMap rowsOf).Nodup := by
    rw [List.nodup_flatMap]
    have hne : ∀ i, name i ≠ "y" := fun i heq =>
      near_ne_focus i (congrArg (fun x => refOfEndpoint (endpoint x)) heq)
    refine ⟨fun i _ => ?_, ?_⟩
    · have hapart : endpoint (name i) ≠ endpoint "y" := fun heq =>
        hne i (congrArg ItemEndpoint.externalId heq)
      unfold rowsOf
      simp [hapart]
    · refine List.Pairwise.imp (fun {i j} hij => ?_) List.nodup_range
      intro row hi hj
      have hnear : ∀ {k}, row ∈ rowsOf k → row.1.2.1 = endpoint (name k) ∨
          row.1.2.2 = endpoint (name k) ∧ row.1.2.1 = endpoint "y" := by
        intro k hk
        rcases mem_rowsOf.mp hk with rfl | rfl | rfl
        · exact Or.inl rfl
        · exact Or.inl rfl
        · exact Or.inr ⟨rfl, rfl⟩
      have hinj : ∀ {a b}, endpoint (name a) = endpoint (name b) → a = b := fun heq =>
        near_inj (congrArg refOfEndpoint heq)
      have hend : ∀ {a}, endpoint (name a) ≠ endpoint "y" := fun heq =>
        hne _ (congrArg ItemEndpoint.externalId heq)
      rcases hnear hi with hi | ⟨hi, hfrom⟩
      · rcases hnear hj with hj | ⟨-, hfrom'⟩
        · exact hij (hinj (hi.symm.trans hj))
        · exact hend (hi.symm.trans hfrom')
      · rcases hnear hj with hj | ⟨hj, -⟩
        · exact hend (hj.symm.trans hfrom)
        · exact hij (hinj (hi.symm.trans hj))
  refine List.Nodup.map_on (fun a ha b hb heq => ?_) hrows
  obtain ⟨i, -, hi⟩ := List.mem_flatMap.mp ha
  obtain ⟨j, -, hj⟩ := List.mem_flatMap.mp hb
  have hedge : ∀ {k} {row : EdgeRecord}, row ∈ rowsOf k → row.2 = edge := by
    intro k row hrow
    rcases mem_rowsOf.mp hrow with rfl | rfl | rfl <;> rfl
  have hfrom := refOfEndpoint_injective (congrArg EdgeDTO.fromRef heq)
  have hto := refOfEndpoint_injective (congrArg EdgeDTO.toRef heq)
  have htype : a.1.1 = b.1.1 := congrArg EdgeDTO.type heq
  exact Prod.ext (Prod.ext htype (Prod.ext hfrom hto)) ((hedge hi).trans (hedge hj).symm)

theorem length_others : others.length = 594 := by
  have hthree : ∀ i, (rowsOf i).length = 3 := fun i => rfl
  unfold others
  rw [List.length_map, List.length_flatMap]
  simp only [hthree, List.map_const', List.sum_replicate_nat, List.length_range]

/-- The order the edges are cut in: the nearest first. -/
def order : EdgeDTO → EdgeDTO → Ordering :=
  compareLex (on numberOrder (edgeDistance reached.hops)) (compareEdges textOrder)

theorem distance_one {e : EdgeDTO} {x y : Ref} (hother : otherRef e x = some y)
    (hx : reached.hops.get? x = some 0) (hy : reached.hops.get? y = some 1) :
    edgeDistance reached.hops e = 1 := edgeDistance_eq hother hx hy

theorem last_focus : otherRef (toEdgeDTO lastRow) focus = some last := by decide

/-- An edge from one of the others, or to one from the focus, comes before
the last one. -/
theorem order_lt {e : EdgeDTO} {i : ℕ} (hdistance : edgeDistance reached.hops e = 1)
    (hends : e.fromRef = near i ∨ e.fromRef = focus ∧ e.toRef = near i) :
    order e (toEdgeDTO lastRow) = .lt := by
  have hlast : edgeDistance reached.hops (toEdgeDTO lastRow) = 1 :=
    distance_one last_focus hop_focus hop_last
  have hfrom : (toEdgeDTO lastRow).fromRef = focus := rfl
  have hto : (toEdgeDTO lastRow).toRef = last := rfl
  have hnumber : numberOrder 1 1 = .eq := by decide
  have hsame : textOrder focus focus = .eq := by decide
  have hfirst : textOrder (near i) focus = .lt := textOrder_near (by decide)
  have hsecond : textOrder (near i) last = .lt := textOrder_near (by decide)
  unfold order compareEdges compareLex on
  rcases hends with hend | ⟨hend, hend'⟩
  · simp only [hdistance, hlast, hend, hfrom, hnumber, hfirst]
    rfl
  · simp only [hdistance, hlast, hend, hend', hfrom, hto, hnumber, hsame, hsecond]
    rfl

/-- They are all kept before the last one. -/
theorem mem_tree_others {e : EdgeDTO} (he : e ∈ others) :
    e ∈ treeEdges textOrder reached (inducedEdges .direct focus reached.hops allEdges) ∧
      order e (toEdgeDTO lastRow) = .lt := by
  obtain ⟨row, hrow, rfl⟩ := List.mem_map.mp he
  obtain ⟨i, hi, hrow⟩ := List.mem_flatMap.mp hrow
  have hi := List.mem_range.mp hi
  have hmem : toEdgeDTO row ∈ allEdges := mem_allEdges.mpr (Or.inl ⟨i, hi, row, hrow, rfl⟩)
  have hfocus := Option.isSome_of_eq_some hop_focus
  have hnear := Option.isSome_of_eq_some (hop_near hi)
  rcases mem_rowsOf.mp hrow with rfl | rfl | rfl
  · have hother : otherRef (toEdgeDTO ((.relates, endpoint (name i), endpoint "y"), edge)) focus =
        some (near i) := otherRef_eq_some.mpr (Or.inr ⟨rfl, rfl⟩)
    refine ⟨mem_treeEdges.mpr ⟨mem_inducedEdges.mpr ⟨hmem, Or.inr (Or.inl EdgeType.noConfusion),
      hnear, hfocus⟩, relates_tree hi⟩, ?_⟩
    exact order_lt (distance_one hother hop_focus (hop_near hi)) (Or.inl rfl)
  · have hother : otherRef (toEdgeDTO ((.mentions, endpoint (name i), endpoint "y"), edge)) focus =
        some (near i) := otherRef_eq_some.mpr (Or.inr ⟨rfl, rfl⟩)
    have hkey := reached_uncut.2.2 _ hmem rfl (Option.isSome_of_eq_some hother)
    refine ⟨mem_treeEdges.mpr ⟨mem_inducedEdges.mpr ⟨hmem, Or.inr (Or.inr (Or.inr rfl)), hnear,
      hfocus⟩, hkey⟩, ?_⟩
    exact order_lt (distance_one hother hop_focus (hop_near hi)) (Or.inl rfl)
  · have hother : otherRef (toEdgeDTO ((.mentions, endpoint "y", endpoint (name i)), edge)) focus =
        some (near i) := otherRef_eq_some.mpr (Or.inl ⟨rfl, rfl⟩)
    have hkey := reached_uncut.2.2 _ hmem rfl (Option.isSome_of_eq_some hother)
    refine ⟨mem_treeEdges.mpr ⟨mem_inducedEdges.mpr ⟨hmem, Or.inr (Or.inr (Or.inl rfl)), hfocus,
      hnear⟩, hkey⟩, ?_⟩
    exact order_lt (distance_one hother hop_focus (hop_near hi)) (Or.inr ⟨rfl, rfl⟩)

/-- The cap keeps 500 edges, and the last one comes after 594. -/
theorem not_keepsTreeEdge : ¬KeepsTreeEdge textOrder .direct allEdges focus 1
    graphNeighborhoodMaxNodes graphNeighborhoodMaxEdges := by
  intro h
  obtain ⟨e, he, p, hother, -⟩ := h last (Option.isSome_of_eq_some hop_last) (by decide)
  change e ∈ (treeEdges textOrder reached (inducedEdges .direct focus reached.hops allEdges)).take
    graphNeighborhoodMaxEdges at he
  have hmem : e ∈ allEdges :=
    (mem_inducedEdges.mp (mem_treeEdges.mp (List.mem_of_mem_take he)).1).1
  have hlast : e = toEdgeDTO lastRow := by
    refine (otherRef_allEdges hmem).resolve_left ?_
    rintro ⟨i, -, -, hnone⟩
    rw [hother] at hnone
    cases hnone
  have hsubset : others ⊆ (treeEdges textOrder reached
      (inducedEdges .direct focus reached.hops allEdges)).take graphNeighborhoodMaxEdges := by
    intro o ho
    obtain ⟨htree, hlt⟩ := mem_tree_others ho
    by_contra hcut
    -- what is cut does not come before what is kept
    have htrans : Std.TransCmp order := by
      unfold order
      infer_instance
    have hsorted := @pairwise_sortBy _ order htrans ((inducedEdges .direct focus reached.hops
      allEdges).filter fun e => decide (edgeKey e ∈ reached.tree))
    have htree : o ∈ sortBy order ((inducedEdges .direct focus reached.hops allEdges).filter
      fun e => decide (edgeKey e ∈ reached.tree)) := htree
    rw [← List.take_append_drop graphNeighborhoodMaxEdges (sortBy _ _)] at hsorted htree
    have hdrop := (List.mem_append.mp htree).resolve_left hcut
    have hle := (List.pairwise_append.mp hsorted).2.2 e he o hdrop
    rw [hlast, htrans.eq_swap, hlt] at hle
    cases hle
  have hle := (List.subperm_of_subset nodup_others hsubset).length_le
  rw [length_others, List.length_take] at hle
  have hcap : graphNeighborhoodMaxEdges = 500 := rfl
  omega

theorem exists_response : ∃ r, buildGraphNeighborhood textOrder (configuredRepoRefs config) [] []
    rows "" focus 1 .direct graphNeighborhoodMaxNodes graphNeighborhoodMaxEdges = .ok r := by
  unfold buildGraphNeighborhood
  simp only
  rw [if_neg (by decide), if_neg]
  · exact ⟨_, rfl⟩
  · rintro ⟨-, hnone⟩
    have hother := hnone _ (relates_mem (by decide : 0 < 198)) (Or.inr EdgeType.noConfusion)
    have hends : otherRef (toEdgeDTO ((.relates, endpoint (name 0), endpoint "y"), edge)) focus =
        some (near 0) := otherRef_eq_some.mpr (Or.inr ⟨rfl, rfl⟩)
    rw [hends] at hother
    cases hother

end ManyMentions

open OneChild ManyMentions in
theorem connected_iff_manyMentions : ∃ r, buildGraphNeighborhood textOrder
      (configuredRepoRefs config) [] [] rows "" focus 1 .direct graphNeighborhoodMaxNodes
      graphNeighborhoodMaxEdges = .ok r ∧
    (ConnectedResponse r ↔ KeepsTreeEdge textOrder .direct allEdges focus 1
      graphNeighborhoodMaxNodes graphNeighborhoodMaxEdges) := by
  obtain ⟨r, hr⟩ := exists_response
  exact ⟨r, hr, connected_iff textOrder _ _ _ _ _ _ _ _ r hr⟩

open OneChild ManyMentions in
/-- An item that only one mention of the focus reaches loses that edge to
594 others. -/
theorem not_connected : ¬∀ (localeCompare : String → String → Ordering),
    Std.TransCmp localeCompare → ∀ (configuredRepos : List RepoRef) (items : List ItemRecord)
    (labels : List LabelRecord) (edgeRows : List EdgeRecord) (generatedAt : String)
    (focusRef : Ref) (depth : ℕ) (mode : GraphNeighborhoodMentionMode)
    (r : GraphNeighborhoodResponse),
    buildGraphNeighborhood localeCompare configuredRepos items labels edgeRows generatedAt focusRef
      depth mode graphNeighborhoodMaxNodes graphNeighborhoodMaxEdges = .ok r →
    ConnectedResponse r := by
  intro h
  obtain ⟨r, hr⟩ := exists_response
  have hconnected := h _ inferInstance _ _ _ _ _ _ _ _ r hr
  exact not_keepsTreeEdge ((connected_iff_of_room (by decide) hr).mp hconnected)

end SymphonyBoard
