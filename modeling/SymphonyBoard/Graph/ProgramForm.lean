import Mathlib.Data.List.Duplicate
import SymphonyBoard.Common.Covering
import SymphonyBoard.Graph.Bounded
/-!
# The form of a program response

What the two caps leave of a program: the edges in the order they are kept,
their ends, and the word on whether anything was cut. The builder keeps a
row of the store as often as it is handed one, and the pages of two sources
both hold a row between a child of one and a child of the other.
-/

namespace SymphonyBoard

/-! ## The selection -/

/-- The edges the node cap has room for, in turn. -/
def edgesInRoom (maxNodes : ℕ) : List EdgeDTO → OrdMap Ref ℕ → List EdgeDTO
  | [], _ => []
  | e :: es, hops =>
    if (hops.get? e.fromRef).isSome then e :: edgesInRoom maxNodes es hops
    else if maxNodes ≤ hops.entries.length then edgesInRoom maxNodes es hops
    else e :: edgesInRoom maxNodes es (hops.set e.fromRef 2)

section Selection

variable {maxNodes maxEdges : ℕ}

/-- The first of the other sources, as many as the node cap has room for. -/
def sourcesInRoom (maxNodes : ℕ) (es : List EdgeDTO) (hops : OrdMap Ref ℕ) : List Ref :=
  ((es.map (·.fromRef)).filter fun ref => (hops.get? ref).isNone).eraseDups.take
    (maxNodes - hops.entries.length)

/-- The edges there is room for are the ones from a ref at hand, or from a
source there is room for. -/
theorem edgesInRoom_eq_filter (es : List EdgeDTO) (hops : OrdMap Ref ℕ) :
    edgesInRoom maxNodes es hops = es.filter fun e =>
      (hops.get? e.fromRef).isSome || decide (e.fromRef ∈ sourcesInRoom maxNodes es hops) := by
  induction es generalizing hops with
  | nil => rfl
  | cons e es ih =>
    unfold edgesInRoom
    cases hget : hops.get? e.fromRef with
    | some k =>
      have hsources : sourcesInRoom maxNodes (e :: es) hops = sourcesInRoom maxNodes es hops := by
        unfold sourcesInRoom
        rw [List.map_cons, List.filter_cons_of_neg (by simp [hget])]
      rw [if_pos Option.isSome_some, ih, hsources, List.filter_cons_of_pos (by simp [hget])]
    | none =>
      rw [if_neg (by simp)]
      by_cases hfull : maxNodes ≤ hops.entries.length
      · have hnil : ∀ l, sourcesInRoom maxNodes l hops = [] := by
          intro l
          unfold sourcesInRoom
          rw [Nat.sub_eq_zero_of_le hfull, List.take_zero]
        rw [if_pos hfull, ih, hnil, hnil, List.filter_cons_of_neg (by simp [hget])]
      · -- the source takes a place, and is at hand from here on
        have hsources : sourcesInRoom maxNodes (e :: es) hops =
            e.fromRef :: sourcesInRoom maxNodes es (hops.set e.fromRef 2) := by
          obtain ⟨k, hk⟩ : ∃ k, maxNodes - hops.entries.length = k + 1 :=
            ⟨maxNodes - hops.entries.length - 1, by omega⟩
          have hk' : maxNodes - (hops.set e.fromRef 2).entries.length = k := by
            rw [OrdMap.entries_set_of_none _ hget, List.length_append, List.length_singleton]
            omega
          unfold sourcesInRoom
          rw [hk, hk', List.map_cons, List.filter_cons_of_pos (by simp [hget]), List.eraseDups_cons,
            List.take_succ_cons, List.filter_filter]
          congr 3
          refine List.filter_congr fun ref _ => ?_
          rw [OrdMap.get?_set]
          by_cases href : e.fromRef = ref
          · simp [href]
          · simp [href, Ne.symm href]
        rw [if_neg hfull, ih, hsources, List.filter_cons_of_pos (by simp)]
        congr 1
        refine List.filter_congr fun e' _ => ?_
        rw [OrdMap.get?_set]
        by_cases href : e.fromRef = e'.fromRef
        · simp [href]
        · simp [href, Ne.symm href]

/-- **The edge cap keeps the first of the edges there is room for.** -/
theorem edges_selectProgramEdges (es : List EdgeDTO) (sel : ProgramSelection)
    (h : sel.edges.length ≤ maxEdges) :
    (selectProgramEdges maxNodes maxEdges es sel).edges =
      (sel.edges ++ edgesInRoom maxNodes es sel.hops).take maxEdges := by
  induction es generalizing sel with
  | nil =>
    unfold selectProgramEdges edgesInRoom
    rw [List.append_nil, List.take_of_length_le h]
  | cons e es ih =>
    unfold selectProgramEdges
    by_cases hfull : maxEdges ≤ sel.edges.length
    · rw [if_pos hfull, List.take_append_of_le_length hfull, List.take_of_length_le h]
    · rw [if_neg hfull]
      have hgrown : (sel.edges ++ [e]).length ≤ maxEdges := by
        rw [List.length_append, List.length_singleton]
        omega
      unfold edgesInRoom
      split
      · rw [ih _ hgrown, List.append_assoc, List.singleton_append]
      · split
        · exact ih { sel with reasons := .nodes :: sel.reasons } h
        · rw [ih _ hgrown, List.append_assoc, List.singleton_append]

/-- What a selection does to the hops and adds to the edges. -/
structure Selected (maxNodes : ℕ) (es : List EdgeDTO) (sel sel' : ProgramSelection) : Prop where
  kept : ∀ ref k, sel.hops.get? ref = some k → sel'.hops.get? ref = some k
  found : ∀ ref k, sel'.hops.get? ref = some k → sel.hops.get? ref = some k ∨
    k = 2 ∧ ∃ e ∈ sel'.edges, e.fromRef = ref
  size : sel.hops.entries.length ≤ maxNodes → sel'.hops.entries.length ≤ maxNodes
  full : maxNodes ≤ sel.hops.entries.length → sel'.hops = sel.hops
  old : ∀ e ∈ sel.edges, e ∈ sel'.edges
  new : ∀ e ∈ sel'.edges, e ∈ sel.edges ∨ e ∈ es ∧ (sel'.hops.get? e.fromRef).isSome
  length : sel'.edges.length ≤ sel.edges.length + es.length

theorem selected_selectProgramEdges (es : List EdgeDTO) (sel : ProgramSelection) :
    Selected maxNodes es sel (selectProgramEdges maxNodes maxEdges es sel) := by
  induction es generalizing sel with
  | nil =>
    exact ⟨fun _ _ h => h, fun _ _ h => Or.inl h, id, fun _ => rfl, fun _ h => h,
      fun _ h => Or.inl h, Nat.le_refl _⟩
  | cons e es ih =>
    unfold selectProgramEdges
    split
    · -- no edge is left to give
      exact ⟨fun _ _ h => h, fun _ _ h => Or.inl h, id, fun _ => rfl, fun _ h => h,
        fun _ h => Or.inl h, Nat.le_add_right _ _⟩
    · split
      · -- the source is there already: the edge needs no node
        rename_i hknown
        have h := ih { sel with edges := sel.edges ++ [e] }
        have hlength := h.length
        rw [List.length_append, List.length_singleton] at hlength
        refine ⟨h.kept, h.found, h.size, h.full,
          fun e' he' => h.old e' (List.mem_append_left _ he'), fun e' he' => ?_, ?_⟩
        · rcases h.new e' he' with hold | ⟨hmem, hfrom⟩
          · rcases List.mem_append.mp hold with hold | hnew
            · exact Or.inl hold
            · obtain rfl := List.mem_singleton.mp hnew
              obtain ⟨k, hk⟩ := Option.isSome_iff_exists.mp hknown
              exact Or.inr ⟨List.mem_cons_self, Option.isSome_of_eq_some (h.kept _ k hk)⟩
          · exact Or.inr ⟨List.mem_cons_of_mem e hmem, hfrom⟩
        · rw [List.length_cons]
          omega
      · rename_i hnew
        split
        · -- no room for its source: the edge is passed over
          have h := ih { sel with reasons := .nodes :: sel.reasons }
          have hlength := h.length
          refine ⟨h.kept, h.found, h.size, h.full, h.old, fun e' he' => ?_, ?_⟩
          · rcases h.new e' he' with hold | ⟨hmem, hfrom⟩
            · exact Or.inl hold
            · exact Or.inr ⟨List.mem_cons_of_mem e hmem, hfrom⟩
          · rw [List.length_cons]
            exact Nat.le_succ_of_le hlength
        · -- the source becomes a node
          rename_i hroom
          have h := ih { sel with hops := sel.hops.set e.fromRef 2, edges := sel.edges ++ [e] }
          have hlength := h.length
          rw [List.length_append, List.length_singleton] at hlength
          have hnone : sel.hops.get? e.fromRef = none := by simpa using hnew
          have hself : (sel.hops.set e.fromRef 2).get? e.fromRef = some 2 := by
            rw [OrdMap.get?_set, if_pos rfl]
          refine ⟨fun ref k hk => h.kept ref k ?_, fun ref k hk => ?_, fun hsize => h.size ?_,
            fun hfull => absurd hfull hroom, fun e' he' => h.old e' (List.mem_append_left _ he'),
            fun e' he' => ?_, ?_⟩
          · have hne : e.fromRef ≠ ref := by
              rintro rfl
              rw [hnone] at hk
              cases hk
            rw [OrdMap.get?_set, if_neg hne]
            exact hk
          · rcases h.found ref k hk with hold | hlater
            · rw [OrdMap.get?_set] at hold
              split at hold
              · rename_i heq
                exact Or.inr ⟨(Option.some.inj hold).symm, e,
                  h.old e (List.mem_append_right _ (List.mem_singleton_self e)), heq⟩
              · exact Or.inl hold
            · exact Or.inr hlater
          · simp only
            rw [OrdMap.entries_set_of_none _ hnone, List.length_append, List.length_singleton]
            omega
          · rcases h.new e' he' with hold | ⟨hmem, hfrom⟩
            · rcases List.mem_append.mp hold with hold | hlast
              · exact Or.inl hold
              · obtain rfl := List.mem_singleton.mp hlast
                exact Or.inr ⟨List.mem_cons_self, Option.isSome_of_eq_some (h.kept _ 2 hself)⟩
            · exact Or.inr ⟨List.mem_cons_of_mem e hmem, hfrom⟩
          · rw [List.length_cons]
            omega

theorem mem_edgesInRoom_of_known {e : EdgeDTO} {es : List EdgeDTO} {hops : OrdMap Ref ℕ}
    (he : e ∈ es) (h : (hops.get? e.fromRef).isSome) : e ∈ edgesInRoom maxNodes es hops := by
  induction es generalizing hops with
  | nil => cases he
  | cons e' es ih =>
    unfold edgesInRoom
    split
    · rcases List.mem_cons.mp he with rfl | he
      · exact List.mem_cons_self
      · exact List.mem_cons_of_mem _ (ih he h)
    · rename_i hnew
      have hne : e ≠ e' := by
        rintro rfl
        exact hnew h
      have he := (List.mem_cons.mp he).resolve_left hne
      split
      · exact ih he h
      · refine List.mem_cons_of_mem _ (ih he ?_)
        rw [OrdMap.get?_set]
        split
        · rfl
        · exact h

/-- An edge whose source is reached in the end is one there is room for. -/
theorem mem_edgesInRoom {e : EdgeDTO} {es : List EdgeDTO} {sel : ProgramSelection} (he : e ∈ es)
    (h : ((selectProgramEdges maxNodes maxEdges es sel).hops.get? e.fromRef).isSome) :
    e ∈ edgesInRoom maxNodes es sel.hops := by
  induction es generalizing sel with
  | nil => cases he
  | cons e' es ih =>
    unfold selectProgramEdges at h
    split at h
    · exact mem_edgesInRoom_of_known he h
    · unfold edgesInRoom
      split at h
      · rename_i hknown
        rw [if_pos hknown]
        rcases List.mem_cons.mp he with rfl | he
        · exact List.mem_cons_self
        · exact List.mem_cons_of_mem _ (@ih { sel with edges := sel.edges ++ [e'] } he h)
      · rename_i hnew
        rw [if_neg hnew]
        split at h
        · rename_i hfull
          rw [if_pos hfull]
          rcases List.mem_cons.mp he with rfl | he
          · -- nothing is reached once the room is full
            have hselected : Selected maxNodes es { sel with reasons := .nodes :: sel.reasons }
              (selectProgramEdges maxNodes maxEdges es
                { sel with reasons := .nodes :: sel.reasons }) := selected_selectProgramEdges es _
            rw [hselected.full hfull] at h
            exact absurd h hnew
          · exact @ih { sel with reasons := .nodes :: sel.reasons } he h
        · rename_i hroom
          rw [if_neg hroom]
          rcases List.mem_cons.mp he with rfl | he
          · exact List.mem_cons_self
          · exact List.mem_cons_of_mem _ (@ih { sel with
              hops := sel.hops.set e'.fromRef 2, edges := sel.edges ++ [e'] } he h)

/-- A selection that keeps every edge gives no reason. -/
theorem reasons_selectProgramEdges (es : List EdgeDTO) (sel : ProgramSelection)
    (h : (selectProgramEdges maxNodes maxEdges es sel).edges.length = sel.edges.length + es.length) :
    (selectProgramEdges maxNodes maxEdges es sel).reasons = sel.reasons := by
  induction es generalizing sel with
  | nil => rfl
  | cons e es ih =>
    unfold selectProgramEdges at h ⊢
    rw [List.length_cons] at h
    split at h
    · simp only at h
      omega
    · rename_i hroom
      rw [if_neg hroom]
      split at h
      · rename_i hknown
        rw [if_pos hknown]
        refine ih _ ?_
        rw [h, List.length_append, List.length_singleton]
        omega
      · rename_i hnew
        rw [if_neg hnew]
        split at h
        · have hselected : Selected maxNodes es { sel with reasons := .nodes :: sel.reasons }
            (selectProgramEdges maxNodes maxEdges es
              { sel with reasons := .nodes :: sel.reasons }) := selected_selectProgramEdges es _
          have hlength := hselected.length
          simp only at hlength
          omega
        · rename_i hnodeRoom
          rw [if_neg hnodeRoom]
          refine ih _ ?_
          rw [h, List.length_append, List.length_singleton]
          omega

end Selection

/-! ## What the builder makes -/

/-- The children a tracker's edges name, in the order of the edges. -/
def programChildTargets (edges : List EdgeDTO) (focusRef : Ref) : List Ref :=
  ((programParentEdges edges focusRef).map (·.toRef)).eraseDups

/-- The focus and the children there is room for. -/
def programStart (edges : List EdgeDTO) (focusRef : Ref) (maxNodes : ℕ) : OrdMap Ref ℕ :=
  programHops focusRef ((programChildTargets edges focusRef).take (maxNodes - 1))

/-- The nodes and edges of a program within the caps. -/
def programSelection (edges : List EdgeDTO) (focusRef : Ref) (maxNodes maxEdges : ℕ) :
    ProgramSelection :=
  let hops := programStart edges focusRef maxNodes
  selectProgramEdges maxNodes maxEdges (programCandidates hops edges focusRef)
    { hops, edges := []
      reasons := if maxNodes - 1 < (programChildTargets edges focusRef).length then [.nodes] else [] }

/-- What the builder makes of sorted edges and of the items by ref. -/
def builtProgram (localeCompare : String → String → Ordering) (edges : List EdgeDTO)
    (byRef : OrdMap Ref ItemDTO) (generatedAt : String) (focusRef : Ref) (maxNodes maxEdges : ℕ) :
    GraphNeighborhoodResponse :=
  let sel := programSelection edges focusRef maxNodes maxEdges
  let reached := focusRef :: sel.edges.flatMap fun e => [e.fromRef, e.toRef]
  let nodes := graphNodes localeCompare
    (sel.hops.entries.filter fun h => decide (h.1 ∈ reached)) byRef
  { generatedAt, focusRef
    requestedDepth := 2
    reachedDepth := reachedDepth nodes
    limitReasons := orderedReasons sel.reasons
    nodes
    edges := sel.edges }

section Built

variable {localeCompare : String → String → Ordering} {edges : List EdgeDTO}
variable {byRef : OrdMap Ref ItemDTO} {generatedAt : String} {focusRef : Ref}
variable {maxNodes maxEdges : ℕ}

theorem buildGraphProgram_eq_ok {configuredRepos : List RepoRef} {items : List ItemRecord}
    {labels : List LabelRecord} {edgeRows : List EdgeRecord} {r : GraphNeighborhoodResponse}
    (h : buildGraphProgram localeCompare configuredRepos items labels edgeRows generatedAt focusRef
      maxNodes maxEdges = .ok r) :
    focusRef ≠ "" ∧ r = builtProgram localeCompare
      (sortBy (compareEdges localeCompare) (mapEdges (some configuredRepos) items edgeRows))
      (OrdMap.index (·.id) (mapItems (some configuredRepos) items labels)) generatedAt focusRef
      maxNodes maxEdges := by
  unfold buildGraphProgram at h
  simp only at h
  split at h
  · cases h
  · next hfound =>
    refine ⟨?_, (Except.ok.inj h).symm⟩
    rintro rfl
    refine hfound ⟨?_, fun e he => ends_ne_empty (mem_sortBy.mp he)⟩
    cases hget : (OrdMap.index (·.id) (mapItems (some configuredRepos) items labels)).get? "" with
    | none => rfl
    | some item => exact absurd rfl (item_of_index hget).2.2

theorem focus_not_child : focusRef ∉ programChildTargets edges focusRef := by
  unfold programChildTargets programParentEdges
  simp [List.mem_eraseDups]

theorem mem_programChildTargets {ref : Ref} :
    ref ∈ programChildTargets edges focusRef ↔ IsChildIn edges focusRef ref := by
  unfold programChildTargets
  rw [List.mem_eraseDups]
  exact mem_programChildren

theorem get?_programStart_eq_one {ref : Ref} :
    (programStart edges focusRef maxNodes).get? ref = some 1 ↔
      ref ∈ (programChildTargets edges focusRef).take (maxNodes - 1) := by
  unfold programStart
  rw [get?_programHops]
  by_cases href : ref ∈ (programChildTargets edges focusRef).take (maxNodes - 1)
  · simp [href]
  · rw [if_neg href]
    simp only [href, iff_false]
    split <;> simp

theorem focus_not_kept : focusRef ∉ (programChildTargets edges focusRef).take (maxNodes - 1) :=
  fun h => focus_not_child (List.mem_of_mem_take h)

theorem get?_programStart_focus : (programStart edges focusRef maxNodes).get? focusRef = some 0 := by
  unfold programStart
  rw [get?_programHops, if_neg focus_not_kept, if_pos rfl]

theorem length_programStart (hroom : 0 < maxNodes) :
    (programStart edges focusRef maxNodes).entries.length ≤ maxNodes := by
  have hkeys : (programStart edges focusRef maxNodes).entries.map Prod.fst ⊆
      focusRef :: (programChildTargets edges focusRef).take (maxNodes - 1) := by
    intro ref href
    obtain ⟨b, hb, rfl⟩ := List.mem_map.mp href
    have hget := OrdMap.mem_entries_iff.mp hb
    unfold programStart at hget
    rw [get?_programHops] at hget
    split at hget
    · rename_i hchild
      exact List.mem_cons_of_mem _ hchild
    · split at hget
      · rename_i hfocus
        exact hfocus ▸ List.mem_cons_self
      · cases hget
  have hle := (List.subperm_of_subset (programStart edges focusRef maxNodes).nodup hkeys).length_le
  have htake := List.length_take_le (maxNodes - 1) (programChildTargets edges focusRef)
  rw [List.length_map, List.length_cons] at hle
  omega

theorem selected_programSelection :
    Selected maxNodes (programCandidates (programStart edges focusRef maxNodes) edges focusRef)
      { hops := programStart edges focusRef maxNodes, edges := []
        reasons := if maxNodes - 1 < (programChildTargets edges focusRef).length then [.nodes]
          else [] }
      (programSelection edges focusRef maxNodes maxEdges) := selected_selectProgramEdges _ _

/-- An edge of the program of the children there is room for. -/
theorem mem_candidates {e : EdgeDTO} :
    e ∈ programCandidates (programStart edges focusRef maxNodes) edges focusRef ↔
      e ∈ edges ∧ ProgramEdge focusRef
        (· ∈ (programChildTargets edges focusRef).take (maxNodes - 1)) e :=
  mem_programCandidates (fun _ => get?_programStart_eq_one) focus_not_kept

theorem toRef_of_programEdge {isChild : Ref → Prop} {e : EdgeDTO}
    (h : ProgramEdge focusRef isChild e) : isChild e.toRef := by
  rcases h with ⟨-, -, hchild⟩ | ⟨-, hchild, -⟩
  · exact hchild
  · exact hchild

/-- A selected edge is one of the program, and both its ends are reached. -/
theorem mem_programSelection {e : EdgeDTO}
    (he : e ∈ (programSelection edges focusRef maxNodes maxEdges).edges) :
    e ∈ programCandidates (programStart edges focusRef maxNodes) edges focusRef ∧
      ((programSelection edges focusRef maxNodes maxEdges).hops.get? e.fromRef).isSome ∧
      (programSelection edges focusRef maxNodes maxEdges).hops.get? e.toRef = some 1 := by
  have hselected := @selected_programSelection edges focusRef maxNodes maxEdges
  obtain ⟨hmem, hfrom⟩ := (hselected.new e he).resolve_left List.not_mem_nil
  exact ⟨hmem, hfrom, hselected.kept _ _
    (get?_programStart_eq_one.mpr (toRef_of_programEdge (mem_candidates.mp hmem).2))⟩

theorem mem_nodes_builtProgram {n : GraphNeighborhoodNode} :
    n ∈ (builtProgram localeCompare edges byRef generatedAt focusRef maxNodes maxEdges).nodes ↔
      ((programSelection edges focusRef maxNodes maxEdges).hops.get? n.ref = some n.hop ∧
        (n.ref = focusRef ∨ ∃ e ∈ (programSelection edges focusRef maxNodes maxEdges).edges,
          e.fromRef = n.ref ∨ e.toRef = n.ref)) ∧ n.item = byRef.get? n.ref := by
  unfold builtProgram
  simp only [mem_graphNodes, List.mem_filter, OrdMap.mem_entries_iff, decide_eq_true_eq,
    List.mem_cons, List.mem_flatMap, List.not_mem_nil, or_false, eq_comm (a := n.ref)]

theorem exists_node_builtProgram {ref : Ref} {hop : ℕ} :
    (∃ n ∈ (builtProgram localeCompare edges byRef generatedAt focusRef maxNodes maxEdges).nodes,
        n.ref = ref ∧ n.hop = hop) ↔
      (programSelection edges focusRef maxNodes maxEdges).hops.get? ref = some hop ∧
        (ref = focusRef ∨ ∃ e ∈ (programSelection edges focusRef maxNodes maxEdges).edges,
          e.fromRef = ref ∨ e.toRef = ref) := by
  constructor
  · rintro ⟨n, hn, rfl, rfl⟩
    exact (mem_nodes_builtProgram.mp hn).1
  · intro h
    exact ⟨⟨ref, hop, byRef.get? ref⟩, mem_nodes_builtProgram.mpr ⟨h, rfl⟩, rfl, rfl⟩

/-- Both ends of a selected edge are nodes. -/
theorem ends_builtProgram {e : EdgeDTO}
    (he : e ∈ (programSelection edges focusRef maxNodes maxEdges).edges) {ref : Ref}
    (href : e.fromRef = ref ∨ e.toRef = ref) :
    ∃ n ∈ (builtProgram localeCompare edges byRef generatedAt focusRef maxNodes maxEdges).nodes,
      n.ref = ref := by
  obtain ⟨-, hfrom, hto⟩ := mem_programSelection he
  have hreached : ((programSelection edges focusRef maxNodes maxEdges).hops.get? ref).isSome := by
    rcases href with rfl | rfl
    · exact hfrom
    · exact Option.isSome_of_eq_some hto
  obtain ⟨hop, hhop⟩ := Option.isSome_iff_exists.mp hreached
  obtain ⟨n, hn, hnref, -⟩ := exists_node_builtProgram.mpr ⟨hhop, Or.inr ⟨e, he, href⟩⟩
  exact ⟨n, hn, hnref⟩

theorem focus_builtProgram :
    ∃ n ∈ (builtProgram localeCompare edges byRef generatedAt focusRef maxNodes maxEdges).nodes,
      n.ref = focusRef ∧ n.hop = 0 :=
  exists_node_builtProgram.mpr ⟨selected_programSelection.kept _ _ get?_programStart_focus, Or.inl rfl⟩

theorem hop_le_builtProgram {ref : Ref} {hop : ℕ}
    (h : (programSelection edges focusRef maxNodes maxEdges).hops.get? ref = some hop) : hop ≤ 2 := by
  rcases selected_programSelection.found ref hop h with hstart | ⟨rfl, -⟩
  · unfold programStart at hstart
    simp only [get?_programHops] at hstart
    split at hstart
    · rw [← Option.some.inj hstart]
      exact Nat.le_succ 1
    · split at hstart
      · rw [← Option.some.inj hstart]
        exact Nat.zero_le 2
      · cases hstart
  · exact Nat.le_refl 2

/-! ### The order of the edges -/

/-- Where an edge stands among those a program keeps: parents, blocks between
children, closes, other blocks. -/
def rankAmong (isChild : Ref → Bool) (e : EdgeDTO) : ℕ :=
  match e.type with
  | .parent => 0
  | .closes => 2
  | _ => if isChild e.fromRef then 1 else 3

/-- The children are the nodes at hop 1. -/
def programRank (r : GraphNeighborhoodResponse) : EdgeDTO → ℕ :=
  rankAmong fun ref => r.nodes.any fun n => n.ref = ref && n.hop = 1

theorem pairwise_append_of_rank {rank : EdgeDTO → ℕ} {l l' : List EdgeDTO} (k : ℕ)
    (hl : l.Pairwise fun e e' => rank e ≤ rank e') (hl' : ∀ e ∈ l', rank e = k)
    (hle : ∀ e ∈ l, rank e ≤ k) :
    (l ++ l').Pairwise (fun e e' => rank e ≤ rank e') ∧ ∀ e ∈ l ++ l', rank e ≤ k := by
  constructor
  · rw [List.pairwise_append]
    refine ⟨hl, List.pairwise_of_forall_mem_list fun e he e' he' => ?_, fun e he e' he' => ?_⟩
    · rw [hl' e he, hl' e' he']
    · rw [hl' e' he']
      exact hle e he
  · intro e he
    rcases List.mem_append.mp he with he | he
    · exact hle e he
    · exact Nat.le_of_eq (hl' e he)

theorem pairwise_candidates (hops : OrdMap Ref ℕ) (edges : List EdgeDTO) (focusRef : Ref) :
    (programCandidates hops edges focusRef).Pairwise fun e e' =>
      rankAmong (fun ref => hops.get? ref = some 1) e ≤
        rankAmong (fun ref => hops.get? ref = some 1) e' := by
  -- the four parts of the list, each of one rank
  have hparents : ∀ e ∈ (programParentEdges edges focusRef).filter
      (fun e => decide (hops.get? e.toRef = some 1)),
      rankAmong (fun ref => hops.get? ref = some 1) e = 0 := by
    intro e he
    have htype : e.type = .parent := by
      simp only [programParentEdges, List.mem_filter, Bool.and_eq_true, decide_eq_true_eq] at he
      exact he.1.2.1.1
    rw [rankAmong, htype]
  have hblocks : ∀ e ∈ edgesIntoChild hops edges .blocks, e.type = .blocks := by
    intro e he
    simp only [edgesIntoChild, List.mem_filter, Bool.and_eq_true, decide_eq_true_eq] at he
    exact he.2.1.1
  have hbetween : ∀ e ∈ (edgesIntoChild hops edges .blocks).filter
      (fun e => decide (hops.get? e.fromRef = some 1)),
      rankAmong (fun ref => hops.get? ref = some 1) e = 1 := by
    intro e he
    obtain ⟨he, hchild⟩ := List.mem_filter.mp he
    simp only [rankAmong, hblocks e he, if_pos hchild]
  have hcloses : ∀ e ∈ edgesIntoChild hops edges .closes,
      rankAmong (fun ref => hops.get? ref = some 1) e = 2 := by
    intro e he
    simp only [edgesIntoChild, List.mem_filter, Bool.and_eq_true, decide_eq_true_eq] at he
    rw [rankAmong, he.2.1.1]
  have houtside : ∀ e ∈ (edgesIntoChild hops edges .blocks).filter
      (fun e => !decide (hops.get? e.fromRef = some 1)),
      rankAmong (fun ref => hops.get? ref = some 1) e = 3 := by
    intro e he
    obtain ⟨he, hchild⟩ := List.mem_filter.mp he
    have hnot : ¬decide (hops.get? e.fromRef = some 1) = true := by
      simpa using hchild
    simp only [rankAmong, hblocks e he, if_neg hnot]
  obtain ⟨hfirst, hle⟩ := pairwise_append_of_rank 0 List.Pairwise.nil hparents
    (List.forall_mem_nil _)
  obtain ⟨hsecond, hle⟩ := pairwise_append_of_rank 1 hfirst hbetween
    fun e he => Nat.le_succ_of_le (hle e he)
  obtain ⟨hthird, hle⟩ := pairwise_append_of_rank 2 hsecond hcloses
    fun e he => Nat.le_succ_of_le (hle e he)
  obtain ⟨hfourth, -⟩ := pairwise_append_of_rank 3 hthird houtside
    fun e he => Nat.le_succ_of_le (hle e he)
  rw [List.nil_append] at hfourth
  exact hfourth

/-- For an edge from a node, the children the response shows are the ones
there was room for. -/
theorem programRank_builtProgram {e : EdgeDTO}
    (h : ∃ n ∈ (builtProgram localeCompare edges byRef generatedAt focusRef maxNodes maxEdges).nodes,
      n.ref = e.fromRef) :
    programRank (builtProgram localeCompare edges byRef generatedAt focusRef maxNodes maxEdges) e =
      rankAmong (fun ref => (programStart edges focusRef maxNodes).get? ref = some 1) e := by
  have hchild : ((builtProgram localeCompare edges byRef generatedAt focusRef maxNodes
      maxEdges).nodes.any fun n => n.ref = e.fromRef && n.hop = 1) =
      decide ((programStart edges focusRef maxNodes).get? e.fromRef = some 1) := by
    rw [Bool.eq_iff_iff, List.any_eq_true, decide_eq_true_eq]
    simp only [Bool.and_eq_true, decide_eq_true_eq]
    rw [exists_node_builtProgram]
    constructor
    · rintro ⟨hget, -⟩
      refine (selected_programSelection.found _ 1 hget).resolve_right ?_
      rintro ⟨htwo, -⟩
      cases htwo
    · intro hget
      obtain ⟨n, hn, href⟩ := h
      refine ⟨selected_programSelection.kept _ 1 hget, ?_⟩
      rw [← href]
      exact (mem_nodes_builtProgram.mp hn).1.2
  unfold programRank rankAmong
  simp only [hchild]

/-! ### What is cut -/

/-- The program's edges from the sources there is room for, in the order they
are kept. -/
def programInRoom (edges : List EdgeDTO) (focusRef : Ref) (maxNodes : ℕ) : List EdgeDTO :=
  let start := programStart edges focusRef maxNodes
  let candidates := programCandidates start edges focusRef
  candidates.filter fun e =>
    (start.get? e.fromRef).isSome || decide (e.fromRef ∈ sourcesInRoom maxNodes candidates start)

theorem programInRoom_sublist :
    (programInRoom edges focusRef maxNodes).Sublist
      (programCandidates (programStart edges focusRef maxNodes) edges focusRef) :=
  List.filter_sublist

theorem edges_programSelection :
    (programSelection edges focusRef maxNodes maxEdges).edges =
      (programInRoom edges focusRef maxNodes).take maxEdges := by
  unfold programSelection programInRoom
  simp only
  rw [edges_selectProgramEdges _ _ (Nat.zero_le _), List.nil_append, edgesInRoom_eq_filter]

theorem filter_or_perm {p q : EdgeDTO → Bool} {l : List EdgeDTO}
    (hdisjoint : ∀ e ∈ l, p e = true → q e = false) :
    (l.filter fun e => p e || q e).Perm (l.filter p ++ l.filter q) := by
  have hsplit := (List.filter_append_perm p (l.filter fun e => p e || q e)).symm
  have hp : (l.filter fun e => p e || q e).filter p = l.filter p := by
    rw [List.filter_filter]
    refine List.filter_congr fun e _ => ?_
    cases p e <;> cases q e <;> rfl
  have hq : (l.filter fun e => p e || q e).filter (fun e => !p e) = l.filter q := by
    rw [List.filter_filter]
    refine List.filter_congr fun e he => ?_
    cases hpe : p e with
    | false => cases q e <;> rfl
    | true => simp [hdisjoint e he hpe]
  rw [hp, hq] at hsplit
  exact hsplit

/-- An edge of the program of the children that are in. -/
def isCandidate (hops : OrdMap Ref ℕ) (focusRef : Ref) (e : EdgeDTO) : Bool :=
  let isChild (ref : Ref) : Bool := hops.get? ref = some 1
  if e.type = .parent then
    decide (e.fromRef = focusRef) && decide (e.toRef ≠ focusRef) && isChild e.toRef
  else (e.type = .blocks || e.type = .closes) && isChild e.toRef && decide (e.fromRef ≠ e.toRef)

/-- **The candidates are these edges**, each as often as it was given. -/
theorem candidates_perm_filter (hops : OrdMap Ref ℕ) (edges : List EdgeDTO) (focusRef : Ref) :
    (programCandidates hops edges focusRef).Perm (edges.filter (isCandidate hops focusRef)) := by
  let isChild (ref : Ref) : Bool := hops.get? ref = some 1
  let parents (e : EdgeDTO) : Bool :=
    isChild e.toRef && (e.type = .parent && decide (e.fromRef = focusRef) && decide (e.toRef ≠ focusRef))
  let into (type : EdgeType) (e : EdgeDTO) : Bool :=
    e.type = type && isChild e.toRef && decide (e.fromRef ≠ e.toRef)
  let between (e : EdgeDTO) : Bool := isChild e.fromRef && into .blocks e
  let outside (e : EdgeDTO) : Bool := !isChild e.fromRef && into .blocks e
  have hfilter : edges.filter (isCandidate hops focusRef) = edges.filter fun e =>
      ((parents e || between e) || into .closes e) || outside e := by
    refine List.filter_congr fun e _ => ?_
    simp only [isCandidate, parents, between, into, outside]
    cases htype : e.type <;> cases hto : isChild e.toRef <;> cases hfrom : isChild e.fromRef <;>
      simp_all [isChild]
  have hcandidates : programCandidates hops edges focusRef = ((edges.filter parents ++
      edges.filter between) ++ edges.filter (into .closes)) ++ edges.filter outside := by
    unfold programCandidates programParentEdges edgesIntoChild
    simp only [List.filter_filter]
    rfl
  rw [hfilter, hcandidates]
  refine List.Perm.symm ((filter_or_perm fun e _ h => ?_).trans (List.Perm.append_right _
    ((filter_or_perm fun e _ h => ?_).trans (List.Perm.append_right _
      (filter_or_perm fun e _ h => ?_)))))
  all_goals
    simp only [parents, between, into, outside, Bool.or_eq_true, Bool.and_eq_true,
      decide_eq_true_eq] at h ⊢
    grind

/-- With room for every child, the candidates are the whole program. -/
theorem candidates_perm_scope {hops : OrdMap Ref ℕ}
    (hchild : ∀ ref, hops.get? ref = some 1 ↔ IsChildIn edges focusRef ref) :
    (programCandidates hops edges focusRef).Perm (programScopeEdges edges focusRef) := by
  refine (candidates_perm_filter hops edges focusRef).trans (List.Perm.of_eq ?_)
  unfold programScopeEdges
  refine List.filter_congr fun e _ => ?_
  have hmem : decide (e.toRef ∈ programChildren edges focusRef) = decide (hops.get? e.toRef = some 1) :=
    decide_eq_decide.mpr (mem_programChildren.trans (hchild e.toRef).symm)
  have hne : hops.get? e.toRef = some 1 → e.toRef ≠ focusRef := by
    rw [hchild]
    rintro ⟨_, _, _, _, hto, hne⟩ heq
    exact hne heq.symm
  unfold isCandidate
  simp only [hmem]
  split
  · by_cases hto : hops.get? e.toRef = some 1
    · simp [hto, hne hto]
    · simp [hto]
  · rfl

theorem complete_builtProgram :
    (builtProgram localeCompare edges byRef generatedAt focusRef maxNodes maxEdges).complete = true ↔
      (programSelection edges focusRef maxNodes maxEdges).reasons = [] := by
  unfold GraphNeighborhoodResponse.complete builtProgram
  rw [List.isEmpty_iff, List.eq_nil_iff_forall_not_mem, List.eq_nil_iff_forall_not_mem]
  exact forall_congr' fun reason => not_congr mem_orderedReasons

/-- With every child in, the children are the ones the edges name. -/
theorem child_of_uncut (h : (programChildTargets edges focusRef).length ≤ maxNodes - 1) (ref : Ref) :
    (programStart edges focusRef maxNodes).get? ref = some 1 ↔ IsChildIn edges focusRef ref := by
  rw [get?_programStart_eq_one, List.take_of_length_le h]
  exact mem_programChildTargets

/-- **Complete is to keep the whole program**, each edge as often as it was
given. -/
theorem reasons_eq_nil_iff :
    (programSelection edges focusRef maxNodes maxEdges).reasons = [] ↔
      (programSelection edges focusRef maxNodes maxEdges).edges.Perm
        (programScopeEdges edges focusRef) := by
  constructor
  · intro h
    have hchildren : (programChildTargets edges focusRef).length ≤ maxNodes - 1 := by
      by_contra hcut
      have hreason : .nodes ∈ (programSelection edges focusRef maxNodes maxEdges).reasons := by
        refine mem_reasons_selectProgramEdges _ _ ?_
        simp only
        rw [if_pos (by omega)]
        exact List.mem_singleton_self _
      rw [h] at hreason
      cases hreason
    have hnone : ∀ reason, reason ∉ (programSelection edges focusRef maxNodes maxEdges).reasons := by
      intro reason
      rw [h]
      exact List.not_mem_nil
    obtain ⟨hkept, -⟩ := selectProgramEdges_uncut _ _ (hnone .nodes) (hnone .edges)
    have hedges : (programSelection edges focusRef maxNodes maxEdges).edges =
        programCandidates (programStart edges focusRef maxNodes) edges focusRef := hkept
    rw [hedges]
    exact candidates_perm_scope (child_of_uncut hchildren)
  · intro hperm
    have hchildren : (programChildTargets edges focusRef).length ≤ maxNodes - 1 := by
      by_contra hcut
      -- the parent edge of a child that is cut is of the program, and not kept
      obtain ⟨ref, href⟩ := List.exists_mem_of_ne_nil
        ((programChildTargets edges focusRef).drop (maxNodes - 1))
        (fun hnil => hcut (List.drop_eq_nil_iff.mp hnil))
      obtain ⟨e, he, htype, hfrom, hto, hne⟩ :=
        mem_programChildTargets.mp (List.mem_of_mem_drop href)
      have hscope : e ∈ programScopeEdges edges focusRef := by
        refine mem_programScopeEdges.mpr ⟨he, Or.inl ⟨htype, hfrom, ?_⟩⟩
        rw [hto]
        exact ⟨e, he, htype, hfrom, hto, hne⟩
      have hkept := (mem_candidates.mp (mem_programSelection (hperm.mem_iff.mpr hscope)).1).2
      have htake := toRef_of_programEdge hkept
      rw [hto] at htake
      exact List.disjoint_take_drop (eraseDups_nodup _) (Nat.le_refl _) htake href
    have hlength : (programSelection edges focusRef maxNodes maxEdges).edges.length =
        (programCandidates (programStart edges focusRef maxNodes) edges focusRef).length :=
      hperm.length_eq.trans (candidates_perm_scope (child_of_uncut hchildren)).length_eq.symm
    have hreasons := reasons_selectProgramEdges _ _ (hlength.trans (Nat.zero_add _).symm)
    refine Eq.trans hreasons ?_
    simp only
    rw [if_neg (by omega)]

/-! ### The form -/

/-- Two edges of one type and with the same ends, both within the edge cap. -/
def KeptTwice (edges : List EdgeDTO) (focusRef : Ref) (maxNodes maxEdges : ℕ) : Prop :=
  ∃ key, List.Duplicate key (((programInRoom edges focusRef maxNodes).take maxEdges).map edgeKey)

/-- Edges that are all distinct are kept once. -/
theorem not_keptTwice (hkeys : (edges.map edgeKey).Nodup) :
    ¬KeptTwice edges focusRef maxNodes maxEdges := by
  unfold KeptTwice
  rw [not_exists, ← List.nodup_iff_forall_not_duplicate]
  have hcandidates : ((programCandidates (programStart edges focusRef maxNodes) edges focusRef).map
      edgeKey).Nodup :=
    ((candidates_perm_filter _ edges focusRef).map edgeKey).nodup_iff.mpr
      (hkeys.sublist (List.filter_sublist.map _))
  exact hcandidates.sublist (((List.take_sublist _ _).trans programInRoom_sublist).map _)

/-- A program response that is well formed, over the edges it was built from. -/
structure WellFormedProgram (edges : List EdgeDTO) (focusRef : Ref) (maxNodes maxEdges : ℕ)
    (r : GraphNeighborhoodResponse) : Prop where
  distinct : (r.edges.map edgeKey).Nodup
  ends : ∀ e ∈ r.edges, ∀ ref, e.fromRef = ref ∨ e.toRef = ref → ∃ n ∈ r.nodes, n.ref = ref
  touched : ∀ n ∈ r.nodes, n.ref ≠ focusRef → ∃ e ∈ r.edges, e.fromRef = n.ref ∨ e.toRef = n.ref
  order : r.edges.Pairwise fun e e' => programRank r e ≤ programRank r e'
  priority : ∀ e ∈ programScopeEdges edges focusRef, e ∉ r.edges →
    (∃ n ∈ r.nodes, n.ref = e.fromRef) → (∃ n ∈ r.nodes, n.ref = e.toRef ∧ n.hop = 1) →
    ∀ e' ∈ r.edges, programRank r e' ≤ programRank r e
  complete : r.complete = true ↔ r.edges.Perm (programScopeEdges edges focusRef)
  accepted : isGraphNeighborhood (r.json maxNodes maxEdges) = true

theorem distinct_builtProgram :
    ((builtProgram localeCompare edges byRef generatedAt focusRef maxNodes maxEdges).edges.map
        edgeKey).Nodup ↔ ¬KeptTwice edges focusRef maxNodes maxEdges := by
  have hedges : (builtProgram localeCompare edges byRef generatedAt focusRef maxNodes
      maxEdges).edges = (programInRoom edges focusRef maxNodes).take maxEdges :=
    edges_programSelection
  rw [hedges, List.nodup_iff_forall_not_duplicate, ← not_exists]
  rfl

theorem order_builtProgram :
    (builtProgram localeCompare edges byRef generatedAt focusRef maxNodes maxEdges).edges.Pairwise
      fun e e' =>
        programRank (builtProgram localeCompare edges byRef generatedAt focusRef maxNodes maxEdges) e ≤
        programRank (builtProgram localeCompare edges byRef generatedAt focusRef maxNodes maxEdges)
          e' := by
  have hsorted : (programSelection edges focusRef maxNodes maxEdges).edges.Pairwise fun e e' =>
      rankAmong (fun ref => (programStart edges focusRef maxNodes).get? ref = some 1) e ≤
        rankAmong (fun ref => (programStart edges focusRef maxNodes).get? ref = some 1) e' := by
    rw [edges_programSelection]
    exact (pairwise_candidates _ edges focusRef).sublist
      ((List.take_sublist _ _).trans programInRoom_sublist)
  refine List.Pairwise.imp_of_mem (fun he he' hle => ?_) hsorted
  rw [programRank_builtProgram (ends_builtProgram he (Or.inl rfl)),
    programRank_builtProgram (ends_builtProgram he' (Or.inl rfl))]
  exact hle

/-- An edge into a child from a node, that the edge cap cuts, comes after
what is kept. -/
theorem priority_builtProgram {e e' : EdgeDTO} (he : e ∈ programScopeEdges edges focusRef)
    (hcut : e ∉ (programSelection edges focusRef maxNodes maxEdges).edges)
    (hfrom : ∃ n ∈ (builtProgram localeCompare edges byRef generatedAt focusRef maxNodes
      maxEdges).nodes, n.ref = e.fromRef)
    (hto : ∃ n ∈ (builtProgram localeCompare edges byRef generatedAt focusRef maxNodes
      maxEdges).nodes, n.ref = e.toRef ∧ n.hop = 1)
    (he' : e' ∈ (programSelection edges focusRef maxNodes maxEdges).edges) :
    programRank (builtProgram localeCompare edges byRef generatedAt focusRef maxNodes maxEdges) e' ≤
      programRank (builtProgram localeCompare edges byRef generatedAt focusRef maxNodes maxEdges)
        e := by
  have hchild : e.toRef ∈ (programChildTargets edges focusRef).take (maxNodes - 1) := by
    refine get?_programStart_eq_one.mp ?_
    refine (selected_programSelection.found _ 1 (exists_node_builtProgram.mp hto).1).resolve_right ?_
    rintro ⟨htwo, -⟩
    cases htwo
  have hcandidate : e ∈ programCandidates (programStart edges focusRef maxNodes) edges focusRef := by
    obtain ⟨hmem, hprogram⟩ := mem_programScopeEdges.mp he
    refine mem_candidates.mpr ⟨hmem, ?_⟩
    rcases hprogram with ⟨htype, hfocus, -⟩ | ⟨htype, -, hne⟩
    · exact Or.inl ⟨htype, hfocus, hchild⟩
    · exact Or.inr ⟨htype, hchild, hne⟩
  have hroom : e ∈ programInRoom edges focusRef maxNodes := by
    obtain ⟨n, hn, href⟩ := hfrom
    have hreached := Option.isSome_of_eq_some (mem_nodes_builtProgram.mp hn).1.1
    rw [href] at hreached
    have hin := mem_edgesInRoom hcandidate hreached
    rw [edgesInRoom_eq_filter] at hin
    exact hin
  have hsorted := (pairwise_candidates _ edges focusRef).sublist
    (@programInRoom_sublist edges focusRef maxNodes)
  rw [programRank_builtProgram (ends_builtProgram he' (Or.inl rfl)), programRank_builtProgram hfrom]
  rw [edges_programSelection] at hcut he'
  rw [← List.take_append_drop maxEdges (programInRoom edges focusRef maxNodes)] at hsorted hroom
  exact (List.pairwise_append.mp hsorted).2.2 e' he' e ((List.mem_append.mp hroom).resolve_left hcut)

/-- **The client accepts the program, edges kept twice apart.** -/
theorem accepted_builtProgram (hroom : 0 < maxNodes) (hedgeRoom : 0 < maxEdges)
    (hfocus : focusRef ≠ "") (hends : ∀ e ∈ edges, e.fromRef ≠ "" ∧ e.toRef ≠ "")
    (hitem : ∀ ref item, byRef.get? ref = some item → item.id = ref ∧ item.projectPath.isSome)
    (hnodeCap : maxNodes ≤ 200) (hedgeCap : maxEdges ≤ 500)
    (htwice : ¬KeptTwice edges focusRef maxNodes maxEdges) :
    AcceptedResponse (builtProgram localeCompare edges byRef generatedAt focusRef maxNodes maxEdges)
      maxNodes maxEdges := by
  have hselected := @selected_programSelection edges focusRef maxNodes maxEdges
  -- what the client asks of a response, clause by clause
  refine {
    focusRef := hfocus
    requestedDepth := ⟨Nat.le_succ 1, (by decide : 2 ≤ 5)⟩
    limitReasons := orderedReasons_nodup _
    nodeLimit := ⟨hroom, hnodeCap⟩
    edgeLimit := ⟨hedgeRoom, hedgeCap⟩
    nodeCount := ?_
    edgeCount := ?_
    refs := ?_
    nodes := fun n hn => ?_
    focus := focus_builtProgram
    reachedDepth := rfl
    ends := fun e he ref => ends_builtProgram he
    keys := distinct_builtProgram.mpr htwice }
  · unfold builtProgram graphNodes
    rw [length_sortBy, List.length_map]
    exact (List.length_filter_le _ _).trans (hselected.size (length_programStart hroom))
  · have hlength := List.length_take_le maxEdges (programInRoom edges focusRef maxNodes)
    rw [← edges_programSelection] at hlength
    exact hlength
  · unfold builtProgram graphNodes
    refine ((sortBy_perm _ _).map _).nodup_iff.mpr ?_
    rw [List.map_map]
    exact (programSelection edges focusRef maxNodes maxEdges).hops.nodup.sublist
      (List.filter_sublist.map _)
  · obtain ⟨⟨hget, hreached⟩, hnode⟩ := mem_nodes_builtProgram.mp hn
    refine ⟨?_, hop_le_builtProgram hget, fun item hsome => hitem n.ref item ?_⟩
    · rcases hreached with href | ⟨e, he, hend⟩
      · rw [href]
        exact hfocus
      · have hgiven := hends e (mem_candidates.mp (mem_programSelection he).1).1
        rcases hend with hfrom | hto
        · exact hfrom ▸ hgiven.1
        · exact hto ▸ hgiven.2
    · rw [← hnode, hsome]

end Built

/-- **A program response is well formed under caps within the client's own,
unless an edge is kept twice.** -/
theorem buildGraphProgram_wellFormed_iff (localeCompare : String → String → Ordering)
    (configuredRepos : List RepoRef) (items : List ItemRecord) (labels : List LabelRecord)
    (edgeRows : List EdgeRecord) (generatedAt : String) (focusRef : Ref)
    (nodeLimit edgeLimit : Option ℚ) (r : GraphNeighborhoodResponse)
    (h : buildGraphProgram localeCompare configuredRepos items labels edgeRows generatedAt focusRef
      (positiveLimit nodeLimit graphNeighborhoodMaxNodes)
      (positiveLimit edgeLimit graphNeighborhoodMaxEdges) = .ok r) :
    let edges := sortBy (compareEdges localeCompare) (mapEdges (some configuredRepos) items edgeRows)
    let maxNodes := positiveLimit nodeLimit graphNeighborhoodMaxNodes
    let maxEdges := positiveLimit edgeLimit graphNeighborhoodMaxEdges
    WellFormedProgram edges focusRef maxNodes maxEdges r ↔
      maxNodes ≤ graphNeighborhoodMaxNodes ∧ maxEdges ≤ graphNeighborhoodMaxEdges ∧
        ¬KeptTwice edges focusRef maxNodes maxEdges := by
  intro edges maxNodes maxEdges
  have hroom : 0 < maxNodes := positiveLimit_pos nodeLimit (by decide)
  have hedgeRoom : 0 < maxEdges := positiveLimit_pos edgeLimit (by decide)
  obtain ⟨hfocus, hr⟩ := buildGraphProgram_eq_ok h
  constructor
  · intro hform
    have haccepted := isGraphNeighborhood_iff.mp hform.accepted
    refine ⟨haccepted.nodeLimit.2, haccepted.edgeLimit.2, ?_⟩
    have hdistinct := hform.distinct
    rw [hr] at hdistinct
    exact distinct_builtProgram.mp hdistinct
  · rintro ⟨hnodeCap, hedgeCap, htwice⟩
    rw [hr]
    refine ⟨distinct_builtProgram.mpr htwice, fun e he ref => ends_builtProgram he,
      fun n hn hne => ?_, order_builtProgram,
      fun e he hcut hfrom hto e' he' => priority_builtProgram he hcut hfrom hto he',
      complete_builtProgram.trans reasons_eq_nil_iff,
      isGraphNeighborhood_iff.mpr (accepted_builtProgram hroom hedgeRoom hfocus
        (fun e he => ends_ne_empty (mem_sortBy.mp he)) (fun ref item hget => ?_) hnodeCap hedgeCap
        htwice)⟩
    · exact (mem_nodes_builtProgram.mp hn).1.2.resolve_left hne
    · exact ⟨(item_of_index hget).1, (item_of_index hget).2.1⟩

/-! ## Children in two sources -/

theorem ok_bind {α β : Type} (a : α) (f : α → Except String β) : (Except.ok a >>= f) = f a := rfl

namespace TwoSources

open OneChild (sourceId endpoint edge)

/-- A second source. -/
def gitlab : SourceId := ⟨"gitlab:gitlab.com", noBarGitlab⟩

/-- A source of one project. -/
def configuredSource (id : SourceId) : SourceConfig :=
  { sourceId := id.val, kind := "", host := "", enabled := none
    pool := { tokenEnv := none, fallbackTokenEnvs := none, githubApp := none }
    tokenPools := none, authPools := none, authPolicy := none, restUrl := none
    projects := [{ path := "org/app", tokenPool := none, authPolicy := none }] }

/-- Both sources. -/
def config : AppConfig := { sources := [configuredSource sourceId, configuredSource gitlab] }

/-- The tracker. -/
def tracker : ItemEndpoint := endpoint "T"

/-- An item of the second source. -/
def far : ItemEndpoint := ⟨gitlab, "F"⟩

/-- The tracker has a child in each source; `blocker` blocks the far one. -/
def store (blocker : String) : Store Unit :=
  { Store.empty .sqlite with
    items := OrdMap.empty.set tracker (OneChild.issue "T")
    edges := ((OrdMap.empty.set (.parent, tracker, endpoint "C") edge).set
      (.parent, tracker, far) edge).set (.blocks, endpoint blocker, far) edge }

/-- The tracker in focus. -/
def focus : Ref := refOfEndpoint tracker

/-- The tracker as a row. -/
def trackerRow : ItemRecord := (tracker, OneChild.issue "T")

/-- The tracker's children as they are read. -/
def parentRows (blocker : String) : List EdgeRecord :=
  programParentRows focus ((store blocker).listLiveEdgesForSourceRefs textOrder tracker.sourceId.val
    [tracker.externalId] graphProgramMaxEdgeReads).rows

/-- The children the response has room for. -/
def childRefs (blocker : String) : List Ref :=
  (programChildRefs (configuredRepoRefs config) focus (parentRows blocker)).take
    (graphNeighborhoodMaxNodes - 1)

/-- The rows of the tracker, then those of its children, a source at a
time. -/
def rows (blocker : String) : List EdgeRecord :=
  programEdgeRows (childRefs blocker) (parentRows blocker) ((store blocker).readEdges textOrder
    (refsBySource (configuredRepoRefs config) textOrder (childRefs blocker))
    graphProgramMaxEdgeReads).1

/-- The response over all rows. -/
def build (blocker : String) : Except String GraphNeighborhoodResponse :=
  buildGraphProgram textOrder (configuredRepoRefs config) [trackerRow] [] (rows blocker) "" focus
    (positiveLimit none graphNeighborhoodMaxNodes) (positiveLimit none graphNeighborhoodMaxEdges)

/-- The response over the rows it reads. -/
def read (blocker : String) : Except String GraphNeighborhoodResponse :=
  readGraphProgramSnapshot textOrder config (store blocker) "" focus

theorem children {blocker : String} (h : blocker ∈ ["C", "T"]) :
    childRefs blocker = [refOfEndpoint (endpoint "C"), refOfEndpoint far] := by
  unfold childRefs programChildRefs parentRows
  simp only [Store.listLiveEdgesForSourceRefs, Store.listLiveEdgesOnSide, edgeRowOrder,
    sortBy_eq_insertionSort]
  revert blocker
  decide +kernel

theorem groups {blocker : String} (h : blocker ∈ ["C", "T"]) :
    refsBySource (configuredRepoRefs config) textOrder (childRefs blocker) =
      [(sourceId.val, ["C"]), (gitlab.val, ["F"])] := by
  rw [children h]
  unfold refsBySource
  simp only [sortBy_eq_insertionSort]
  decide +kernel

/-- The far child is blocked by the near one, or by the tracker. -/
def readRows (blocker : String) : List EdgeRecord :=
  [((.parent, tracker, endpoint "C"), edge), ((.parent, tracker, far), edge)] ++
    if blocker = "C" then [((.blocks, endpoint "C", far), edge), ((.blocks, endpoint "C", far), edge)]
    else [((.blocks, tracker, far), edge)]

/-- A row from the child in the one source to the child in the other is read
with both. -/
theorem rows_eq {blocker : String} (h : blocker ∈ ["C", "T"]) : rows blocker = readRows blocker := by
  unfold rows
  rw [groups h, children h]
  unfold parentRows
  simp only [Store.readEdges, Store.listLiveEdgesForSourceRefs, Store.listLiveEdgesOnSide,
    edgeRowOrder, sortBy_eq_insertionSort]
  rcases List.mem_pair.mp h with rfl | rfl <;> rfl

theorem exists_build {blocker : String} (h : blocker ∈ ["C", "T"]) : ∃ r, build blocker = .ok r ∧
    ((r.edges.map edgeKey).Nodup ↔ blocker = "T") := by
  have hbuilt : (build blocker).toOption.map (fun r => decide (r.edges.map edgeKey).Nodup) =
      some (decide (blocker = "T")) := by
    unfold build
    rw [rows_eq h]
    unfold buildGraphProgram graphNodes compareEdges compareNodes
    simp only [sortBy_eq_insertionSort]
    revert blocker
    decide +kernel
  cases hr : build blocker with
  | error message =>
    rw [hr] at hbuilt
    cases hbuilt
  | ok r =>
    rw [hr] at hbuilt
    exact ⟨r, rfl, decide_eq_decide.mp (Option.some.inj hbuilt)⟩

/-- What the read answers has the edges of what the builder makes of the
rows. -/
theorem exists_read {blocker : String} (h : blocker ∈ ["C", "T"]) : ∃ r, read blocker = .ok r ∧
    ((r.edges.map edgeKey).Nodup ↔ blocker = "T") := by
  obtain ⟨r, hr, hkeys⟩ := exists_build h
  have hlive : trackerRow ∈ (store blocker).liveItems := List.mem_singleton_self _
  have hnamed : trackerRow.1.Named := ⟨by decide, by decide⟩
  have hfocus : readGraphFocus (configuredRepoRefs config) (store blocker) focus = .ok trackerRow :=
    readGraphFocus_of_live hlive hnamed rfl (by decide +kernel)
  have hitems : (store blocker).readItems (refsBySource (configuredRepoRefs config) textOrder
      (programItemRefs focus (childRefs blocker) (rows blocker))) = [] := by
    rw [children h, rows_eq h]
    unfold Store.readItems refsBySource Store.listLiveItemsBySourceRefs
    simp only [sortBy_eq_insertionSort]
    rcases List.mem_pair.mp h with rfl | rfl <;> rfl
  have hlabels : (store blocker).listLabelsByItemIds [trackerRow] = [] := by
    unfold Store.listLabelsByItemIds
    simp only [sortBy_eq_insertionSort]
    rfl
  unfold read readGraphProgramSnapshot
  simp only
  rw [hfocus, ok_bind]
  change ∃ r', (buildGraphProgram textOrder (configuredRepoRefs config)
      (trackerRow :: (store blocker).readItems (refsBySource (configuredRepoRefs config) textOrder
        (programItemRefs focus (childRefs blocker) (rows blocker))))
      ((store blocker).listLabelsByItemIds (trackerRow :: (store blocker).readItems
        (refsBySource (configuredRepoRefs config) textOrder
          (programItemRefs focus (childRefs blocker) (rows blocker)))))
      (rows blocker) "" focus graphNeighborhoodMaxNodes graphNeighborhoodMaxEdges >>= _) = _ ∧ _
  rw [hitems, hlabels]
  exact ⟨_, (congrArg (· >>= _) hr).trans (ok_bind r _), hkeys⟩

end TwoSources

open TwoSources in
theorem buildGraphProgram_wellFormed_iff_twoSources : ∃ r, build "T" = .ok r ∧
    (WellFormedProgram (sortBy (compareEdges textOrder)
        (mapEdges (some (configuredRepoRefs config)) [trackerRow] (rows "T"))) TwoSources.focus
        (positiveLimit none graphNeighborhoodMaxNodes) (positiveLimit none graphNeighborhoodMaxEdges) r ↔
      positiveLimit none graphNeighborhoodMaxNodes ≤ graphNeighborhoodMaxNodes ∧
        positiveLimit none graphNeighborhoodMaxEdges ≤ graphNeighborhoodMaxEdges ∧
        ¬KeptTwice (sortBy (compareEdges textOrder)
          (mapEdges (some (configuredRepoRefs config)) [trackerRow] (rows "T"))) TwoSources.focus
          (positiveLimit none graphNeighborhoodMaxNodes)
          (positiveLimit none graphNeighborhoodMaxEdges)) := by
  obtain ⟨r, hr, -⟩ := exists_build (by decide : "T" ∈ ["C", "T"])
  exact ⟨r, hr, buildGraphProgram_wellFormed_iff textOrder _ _ _ _ _ _ none none r hr⟩

open TwoSources in
/-- The near child blocks the far one: the pages of both sources hold the
row, the builder keeps both, and the client turns the answer away. -/
theorem not_wellFormedProgram :
    (¬∀ (localeCompare : String → String → Ordering) (configuredRepos : List RepoRef)
      (items : List ItemRecord) (labels : List LabelRecord) (edgeRows : List EdgeRecord)
      (generatedAt : String) (focusRef : Ref) (r : GraphNeighborhoodResponse),
      buildGraphProgram localeCompare configuredRepos items labels edgeRows generatedAt focusRef
        (positiveLimit none graphNeighborhoodMaxNodes) (positiveLimit none graphNeighborhoodMaxEdges) =
          .ok r →
      WellFormedProgram (sortBy (compareEdges localeCompare)
        (mapEdges (some configuredRepos) items edgeRows)) focusRef
        (positiveLimit none graphNeighborhoodMaxNodes) (positiveLimit none graphNeighborhoodMaxEdges)
        r) ∧
    ¬∀ (localeCompare : String → String → Ordering) (cfg : AppConfig) (s : Store Unit)
      (generatedAt : String) (focusRef : Ref) (r : GraphNeighborhoodResponse),
      readGraphProgramSnapshot localeCompare cfg s generatedAt focusRef = .ok r →
        isGraphNeighborhood (r.json graphNeighborhoodMaxNodes graphNeighborhoodMaxEdges) = true := by
  have hne : "C" ≠ "T" := by decide
  constructor
  · intro h
    obtain ⟨r, hr, hkeys⟩ := exists_build (by decide : "C" ∈ ["C", "T"])
    exact hne (hkeys.mp (h _ _ _ _ _ _ _ r hr).distinct)
  · intro h
    obtain ⟨r, hr, hkeys⟩ := exists_read (by decide : "C" ∈ ["C", "T"])
    exact hne (hkeys.mp (isGraphNeighborhood_iff.mp (h _ _ _ _ _ r hr)).keys)

end SymphonyBoard
