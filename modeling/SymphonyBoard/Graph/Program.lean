import SymphonyBoard.Graph.Response
import SymphonyBoard.Graph.Rollups
/-!
# The program scope

`readGraphProgramSnapshot` and `buildGraphProgram` of
`src/server/graph-neighborhood.ts`, with `programScopeEdges` of
`packages/ui/src/model.ts`. The read takes the tracker's own edges, then
its children's; the builder keeps what is of the program under its caps.
A response that no cap cut is the scope of the full graph
(`buildGraphProgram_of_complete`), except that edges from an item to itself
are left out of both while `programRollups` reads them.
-/

namespace SymphonyBoard

variable {P : Type}

/-- The targets of a tracker's `parent` edges. -/
def programChildren (edges : List EdgeDTO) (trackerId : Ref) : List Ref :=
  (edges.filter fun e =>
    e.type = .parent && decide (e.fromRef = trackerId) && decide (e.toRef ≠ trackerId)).map (·.toRef)

/-- A tracker's program over loaded edges. -/
def programScopeEdges (edges : List EdgeDTO) (trackerId : Ref) : List EdgeDTO :=
  edges.filter fun e =>
    if e.type = .parent then
      decide (e.fromRef = trackerId) && decide (e.toRef ∈ programChildren edges trackerId)
    else (e.type = .blocks || e.type = .closes) &&
      decide (e.toRef ∈ programChildren edges trackerId) && decide (e.fromRef ≠ e.toRef)

/-! ## The builder -/

/-- What has been selected of the program. -/
structure ProgramSelection where
  hops : OrdMap Ref ℕ
  edges : List EdgeDTO
  reasons : List GraphNeighborhoodLimitReason

/-- Keep the edges in turn, under the caps. -/
def selectProgramEdges (maxNodes maxEdges : ℕ) :
    List EdgeDTO → ProgramSelection → ProgramSelection
  | [], sel => sel
  | e :: es, sel =>
    if maxEdges ≤ sel.edges.length then { sel with reasons := .edges :: sel.reasons }
    else if (sel.hops.get? e.fromRef).isSome then
      selectProgramEdges maxNodes maxEdges es { sel with edges := sel.edges ++ [e] }
    else if maxNodes ≤ sel.hops.entries.length then
      selectProgramEdges maxNodes maxEdges es { sel with reasons := .nodes :: sel.reasons }
    else
      selectProgramEdges maxNodes maxEdges es
        { sel with hops := sel.hops.set e.fromRef 2, edges := sel.edges ++ [e] }

section Builder

variable (localeCompare : String → String → Ordering)

/-- The edges from the focus to its children. -/
def programParentEdges (edges : List EdgeDTO) (focusRef : Ref) : List EdgeDTO :=
  edges.filter fun e => e.type = .parent && decide (e.fromRef = focusRef) &&
    decide (e.toRef ≠ focusRef)

/-- The edges of a type into a child. -/
def edgesIntoChild (hops : OrdMap Ref ℕ) (edges : List EdgeDTO) (type : EdgeType) : List EdgeDTO :=
  edges.filter fun e => e.type = type && decide (hops.get? e.toRef = some 1) &&
    decide (e.fromRef ≠ e.toRef)

/-- The focus at hop 0 and its children at hop 1. -/
def programHops (focusRef : Ref) (childRefs : List Ref) : OrdMap Ref ℕ :=
  childRefs.foldl (fun hops ref => hops.set ref 1) (OrdMap.empty.set focusRef 0)

/-- In the order they are kept: parents, blocks among children, closes,
outside blockers. -/
def programCandidates (hops : OrdMap Ref ℕ) (edges : List EdgeDTO) (focusRef : Ref) :
    List EdgeDTO :=
  let isChild (ref : Ref) := decide (hops.get? ref = some 1)
  (programParentEdges edges focusRef).filter (fun e => isChild e.toRef) ++
    (edgesIntoChild hops edges .blocks).filter (fun e => isChild e.fromRef) ++
    edgesIntoChild hops edges .closes ++
    (edgesIntoChild hops edges .blocks).filter fun e => !isChild e.fromRef

/-- `buildGraphProgram`: the focus, its children and the edges at them, within the caps. -/
def buildGraphProgram (configuredRepos : List RepoRef) (items : List ItemRecord)
    (labels : List LabelRecord) (edgeRows : List EdgeRecord) (generatedAt : String)
    (focusRef : Ref) (maxNodes maxEdges : ℕ) : Except String GraphNeighborhoodResponse :=
  let edges := sortBy (compareEdges localeCompare) (mapEdges (some configuredRepos) items edgeRows)
  let byRef := OrdMap.index (·.id) (mapItems (some configuredRepos) items labels)
  if (byRef.get? focusRef).isNone ∧ ∀ e ∈ edges, e.fromRef ≠ focusRef ∧ e.toRef ≠ focusRef then
    .error (notFound focusRef)
  else
    let childRefs := ((programParentEdges edges focusRef).map (·.toRef)).eraseDups
    let hops := programHops focusRef (childRefs.take (maxNodes - 1))
    let sel := selectProgramEdges maxNodes maxEdges (programCandidates hops edges focusRef)
      { hops, edges := []
        reasons := if maxNodes - 1 < childRefs.length then [.nodes] else [] }
    let reached := focusRef :: sel.edges.flatMap fun e => [e.fromRef, e.toRef]
    let nodes := graphNodes localeCompare
      (sel.hops.entries.filter fun h => decide (h.1 ∈ reached)) byRef
    .ok {
      generatedAt, focusRef
      requestedDepth := 2
      reachedDepth := reachedDepth nodes
      limitReasons := orderedReasons sel.reasons
      nodes
      edges := sel.edges }

/-- The tracker's `parent` rows. -/
def programParentRows (focusRef : Ref) (rows : List EdgeRecord) : List EdgeRecord :=
  rows.filter fun e => e.1.1 = .parent && decide (refOfEndpoint e.1.2.1 = focusRef)

/-- The children in configured sources. -/
def programChildRefs (configuredRepos : List RepoRef) (focusRef : Ref)
    (parentRows : List EdgeRecord) : List Ref :=
  sortBy textOrder ((parentRows.map fun e => refOfEndpoint e.1.2.2).eraseDups.filter fun ref =>
    decide (ref ≠ focusRef) && (configuredRef configuredRepos ref).isSome)

/-- The rows between the tracker, its children, and what blocks and closes
them. -/
def programEdgeRows (childRefs : List Ref) (parentRows childRows : List EdgeRecord) :
    List EdgeRecord :=
  parentRows.filter (fun e => decide (refOfEndpoint e.1.2.2 ∈ childRefs)) ++
    childRows.filter fun e =>
      (e.1.1 = .blocks || e.1.1 = .closes) && decide (refOfEndpoint e.1.2.2 ∈ childRefs)

/-- The references read for a program: the children, then what reaches them. -/
def programItemRefs (focusRef : Ref) (childRefs : List Ref) (edgeRows : List EdgeRecord) :
    List Ref :=
  (childRefs ++ edgeRows.map fun e => refOfEndpoint e.1.2.1).eraseDups.filter
    fun ref => decide (ref ≠ focusRef)

/-- The tracker's own edges name its children, then the children's edges
carry what blocks and closes them. -/
def readGraphProgramSnapshot (cfg : AppConfig) (s : Store P) (generatedAt : String)
    (focusRef : Ref) : Except String GraphNeighborhoodResponse := do
  let configuredRepos := configuredRepoRefs cfg
  let focusRow ← readGraphFocus configuredRepos s focusRef
  let focusPage := s.listLiveEdgesForSourceRefs localeCompare focusRow.1.sourceId.val
    [focusRow.1.externalId] graphProgramMaxEdgeReads
  let parentRows := programParentRows focusRef focusPage.rows
  let allChildRefs := programChildRefs configuredRepos focusRef parentRows
  let childRefs := allChildRefs.take (graphNeighborhoodMaxNodes - 1)
  let childEdges := s.readEdges localeCompare
    (refsBySource configuredRepos localeCompare childRefs) graphProgramMaxEdgeReads
  let edgeRows := programEdgeRows childRefs parentRows childEdges.1
  let itemRefs := programItemRefs focusRef childRefs edgeRows
  let items := focusRow :: s.readItems (refsBySource configuredRepos localeCompare itemRefs)
  let response ← buildGraphProgram localeCompare configuredRepos items
    (s.listLabelsByItemIds items) edgeRows generatedAt focusRef graphNeighborhoodMaxNodes
    graphNeighborhoodMaxEdges
  let nodeReadCapped := decide (graphNeighborhoodMaxNodes - 1 < allChildRefs.length)
  let edgeReadCapped := focusPage.truncated || childEdges.2
  return withLimitReasons response (response.limitReasons ++
    (if nodeReadCapped then [.nodes] else []) ++ (if edgeReadCapped then [.edges] else []))

end Builder

/-! ## What a complete builder keeps -/

variable {localeCompare : String → String → Ordering} {configuredRepos : List RepoRef}
  {items : List ItemRecord} {labels : List LabelRecord} {edgeRows : List EdgeRecord}
  {generatedAt : String} {focusRef : Ref} {maxNodes maxEdges : ℕ} {hops : OrdMap Ref ℕ}
  {edges : List EdgeDTO}

theorem mem_reasons_selectProgramEdges {reason : GraphNeighborhoodLimitReason}
    (es : List EdgeDTO) (sel : ProgramSelection) (h : reason ∈ sel.reasons) :
    reason ∈ (selectProgramEdges maxNodes maxEdges es sel).reasons := by
  induction es generalizing sel with
  | nil => exact h
  | cons e es ih =>
    unfold selectProgramEdges
    split
    · exact List.mem_cons_of_mem _ h
    · split
      · exact ih _ h
      · split
        · exact ih _ (List.mem_cons_of_mem _ h)
        · exact ih _ h

/-- The selection no cap cut keeps every edge, and reaches their ends. -/
theorem selectProgramEdges_uncut (es : List EdgeDTO) (sel : ProgramSelection)
    (hnodes : .nodes ∉ (selectProgramEdges maxNodes maxEdges es sel).reasons)
    (hedges : .edges ∉ (selectProgramEdges maxNodes maxEdges es sel).reasons) :
    (selectProgramEdges maxNodes maxEdges es sel).edges = sel.edges ++ es ∧
      ∀ ref, ((selectProgramEdges maxNodes maxEdges es sel).hops.get? ref).isSome ↔
        (sel.hops.get? ref).isSome ∨ ∃ e ∈ es, e.fromRef = ref := by
  induction es generalizing sel with
  | nil => simp [selectProgramEdges]
  | cons e es ih =>
    unfold selectProgramEdges at hnodes hedges ⊢
    split at hnodes
    · rename_i hfull
      rw [if_pos hfull] at hedges
      exact absurd List.mem_cons_self hedges
    · rename_i hroom
      rw [if_neg hroom] at hedges ⊢
      split at hnodes
      · rename_i hknown
        rw [if_pos hknown] at hedges ⊢
        obtain ⟨hkept, hreached⟩ := ih _ hnodes hedges
        refine ⟨by rw [hkept, List.append_assoc]; rfl, fun ref => ?_⟩
        rw [hreached, List.exists_mem_cons_iff]
        constructor
        · rintro (h | h)
          · exact Or.inl h
          · exact Or.inr (Or.inr h)
        · rintro (h | rfl | h)
          · exact Or.inl h
          · exact Or.inl hknown
          · exact Or.inr h
      · rename_i hnew
        rw [if_neg hnew] at hedges ⊢
        split at hnodes
        · exact absurd (mem_reasons_selectProgramEdges es _ List.mem_cons_self) hnodes
        · rename_i hnodeRoom
          rw [if_neg hnodeRoom] at hedges ⊢
          obtain ⟨hkept, hreached⟩ := ih _ hnodes hedges
          refine ⟨by rw [hkept, List.append_assoc]; rfl, fun ref => ?_⟩
          rw [hreached, List.exists_mem_cons_iff, OrdMap.get?_set]
          by_cases href : e.fromRef = ref
          · simp [href]
          · simp [href]

theorem get?_programHops (childRefs : List Ref) (ref : Ref) :
    (programHops focusRef childRefs).get? ref =
      if ref ∈ childRefs then some 1 else if focusRef = ref then some 0 else none := by
  have h := OrdMap.get?_foldl_set (fun r : Ref => r) (fun _ => 1) childRefs
    (OrdMap.empty.set focusRef 0) ref
  unfold programHops
  rw [h, OrdMap.get?_set, OrdMap.get?_empty]
  by_cases href : ref ∈ childRefs
  · have hne : (childRefs.filter fun r => decide (r = ref)) ≠ [] :=
      List.ne_nil_of_mem (List.mem_filter.mpr ⟨href, by simp⟩)
    rw [if_pos href, List.getLast?_eq_some_getLast hne]
    rfl
  · have hnil : (childRefs.filter fun r => decide (r = ref)) = [] := by
      rw [List.filter_eq_nil_iff]
      intro r hr hrr
      exact href (of_decide_eq_true hrr ▸ hr)
    rw [if_neg href, hnil]
    rfl

/-- An edge of the program of some children. -/
def ProgramEdge (focusRef : Ref) (isChild : Ref → Prop) (e : EdgeDTO) : Prop :=
  (e.type = .parent ∧ e.fromRef = focusRef ∧ isChild e.toRef) ∨
    ((e.type = .blocks ∨ e.type = .closes) ∧ isChild e.toRef ∧ e.fromRef ≠ e.toRef)

/-- The children some edges name. -/
def IsChildIn (edges : List EdgeDTO) (focusRef ref : Ref) : Prop :=
  ∃ e ∈ edges, ParentEdge focusRef ref e

theorem mem_programChildren {ref : Ref} :
    ref ∈ programChildren edges focusRef ↔ IsChildIn edges focusRef ref := by
  unfold programChildren IsChildIn ParentEdge
  simp only [List.mem_map, List.mem_filter, Bool.and_eq_true, decide_eq_true_eq]
  constructor
  · rintro ⟨e, ⟨he, ⟨htype, hfrom⟩, hto⟩, rfl⟩
    exact ⟨e, he, htype, hfrom, rfl, hto.symm⟩
  · rintro ⟨e, he, htype, hfrom, rfl, hto⟩
    exact ⟨e, ⟨he, ⟨htype, hfrom⟩, hto.symm⟩, rfl⟩

theorem mem_programScopeEdges {e : EdgeDTO} :
    e ∈ programScopeEdges edges focusRef ↔
      e ∈ edges ∧ ProgramEdge focusRef (IsChildIn edges focusRef) e := by
  unfold programScopeEdges ProgramEdge
  simp only [List.mem_filter]
  refine and_congr_right fun _ => ?_
  by_cases htype : e.type = .parent
  · simp [htype, mem_programChildren]
  · simp [htype, mem_programChildren, and_assoc]

theorem mem_programCandidates {isChild : Ref → Prop}
    (hchild : ∀ ref, hops.get? ref = some 1 ↔ isChild ref) (hfocus : ¬isChild focusRef)
    {e : EdgeDTO} :
    e ∈ programCandidates hops edges focusRef ↔ e ∈ edges ∧ ProgramEdge focusRef isChild e := by
  unfold programCandidates ProgramEdge programParentEdges edgesIntoChild
  simp only [List.mem_append, List.mem_filter, Bool.and_eq_true, decide_eq_true_eq, hchild,
    Bool.not_eq_true', decide_eq_false_iff_not]
  constructor
  · rintro (((⟨⟨he, ⟨htype, hfrom⟩, -⟩, hc⟩ | ⟨⟨he, ⟨htype, hto⟩, hne⟩, -⟩) |
      ⟨he, ⟨htype, hto⟩, hne⟩) | ⟨⟨he, ⟨htype, hto⟩, hne⟩, -⟩)
    · exact ⟨he, Or.inl ⟨htype, hfrom, hc⟩⟩
    · exact ⟨he, Or.inr ⟨Or.inl htype, hto, hne⟩⟩
    · exact ⟨he, Or.inr ⟨Or.inr htype, hto, hne⟩⟩
    · exact ⟨he, Or.inr ⟨Or.inl htype, hto, hne⟩⟩
  · rintro ⟨he, ⟨htype, hfrom, hc⟩ | ⟨htype | htype, hto, hne⟩⟩
    · have hnot : e.toRef ≠ focusRef := fun h => hfocus (h ▸ hc)
      exact Or.inl (Or.inl (Or.inl ⟨⟨he, ⟨htype, hfrom⟩, hnot⟩, hc⟩))
    · by_cases hc : isChild e.fromRef
      · exact Or.inl (Or.inl (Or.inr ⟨⟨he, ⟨htype, hto⟩, hne⟩, hc⟩))
      · exact Or.inr ⟨⟨he, ⟨htype, hto⟩, hne⟩, hc⟩
    · exact Or.inl (Or.inr ⟨he, ⟨htype, hto⟩, hne⟩)

/-- A response with the program of some edges, and the loaded item of each
end it names. -/
structure BuiltProgram (edges : List EdgeDTO) (byRef : OrdMap Ref ItemDTO) (focusRef : Ref)
    (r : GraphNeighborhoodResponse) : Prop where
  edges : ∀ e, e ∈ r.edges ↔ e ∈ programScopeEdges edges focusRef
  item : ∀ n ∈ r.nodes, n.item = byRef.get? n.ref
  reached : ∀ e ∈ r.edges, ∀ ref, e.fromRef = ref ∨ e.toRef = ref → ∃ n ∈ r.nodes, n.ref = ref

/-- **A builder that no cap cut keeps the whole program.** -/
theorem buildGraphProgram_of_complete {r : GraphNeighborhoodResponse}
    (h : buildGraphProgram localeCompare configuredRepos items labels edgeRows generatedAt focusRef
      maxNodes maxEdges = .ok r)
    (hnodes : .nodes ∉ r.limitReasons) (hedges : .edges ∉ r.limitReasons) :
    BuiltProgram (mapEdges (some configuredRepos) items edgeRows)
      (OrdMap.index (·.id) (mapItems (some configuredRepos) items labels)) focusRef r := by
  unfold buildGraphProgram at h
  simp only at h
  split at h
  · cases h
  · obtain rfl := Except.ok.inj h
    simp only [mem_orderedReasons] at hnodes hedges
    set edges := sortBy (compareEdges localeCompare)
      (mapEdges (some configuredRepos) items edgeRows) with hedgesDef
    set childRefs := ((programParentEdges edges focusRef).map (·.toRef)).eraseDups with hchildDef
    set hops := programHops focusRef (childRefs.take (maxNodes - 1)) with hhops
    obtain ⟨hkept, hreached⟩ := selectProgramEdges_uncut _ _ hnodes hedges
    -- no node was cut, so every child is there
    have huncut : childRefs.take (maxNodes - 1) = childRefs := by
      refine List.take_of_length_le ?_
      by_contra hlong
      refine hnodes (mem_reasons_selectProgramEdges _ _ ?_)
      simp only
      rw [if_pos (by omega)]
      exact List.mem_cons_self
    have hchildMem : ∀ ref, ref ∈ childRefs ↔ IsChildIn edges focusRef ref := by
      intro ref
      rw [hchildDef, List.mem_eraseDups]
      exact mem_programChildren
    have hchild : ∀ ref, hops.get? ref = some 1 ↔ IsChildIn edges focusRef ref := by
      intro ref
      rw [hhops, huncut, get?_programHops, ← hchildMem]
      by_cases href : ref ∈ childRefs
      · simp [href]
      · rw [if_neg href]
        simp only [href, iff_false]
        split <;> simp
    have hfocus : ¬IsChildIn edges focusRef focusRef := fun ⟨_, _, _, _, _, hne⟩ => hne rfl
    have hsame : ∀ ref, IsChildIn edges focusRef ref ↔
        IsChildIn (mapEdges (some configuredRepos) items edgeRows) focusRef ref := by
      intro ref
      unfold IsChildIn
      simp only [hedgesDef, mem_sortBy]
    refine ⟨fun e => ?_, fun n hn => (mem_graphNodes.mp hn).2, ?_⟩
    · rw [hkept, List.nil_append, mem_programCandidates hchild hfocus, mem_programScopeEdges,
        hedgesDef, mem_sortBy, ← hedgesDef]
      unfold ProgramEdge
      simp only [hsame]
    · intro e he ref href
      have hcandidate := he
      rw [hkept, List.nil_append] at hcandidate
      -- an end that is no child was found as the source of its edge
      have hhop : ((selectProgramEdges maxNodes maxEdges (programCandidates hops edges focusRef)
          { hops, edges := [], reasons := if maxNodes - 1 < childRefs.length then [.nodes] else [] }
          ).hops.get? ref).isSome := by
        rw [hreached]
        rcases href with rfl | rfl
        · exact Or.inr ⟨e, hcandidate, rfl⟩
        · left
          obtain ⟨-, hprogram⟩ := (mem_programCandidates hchild hfocus).mp hcandidate
          have hto : IsChildIn edges focusRef e.toRef := by
            rcases hprogram with ⟨-, -, hc⟩ | ⟨-, hc, -⟩
            · exact hc
            · exact hc
          rw [(hchild _).mpr hto]
          rfl
      obtain ⟨hop, hget⟩ := Option.isSome_iff_exists.mp hhop
      refine ⟨⟨ref, hop, (OrdMap.index (·.id)
        (mapItems (some configuredRepos) items labels)).get? ref⟩,
        mem_graphNodes.mpr ⟨?_, rfl⟩, rfl⟩
      refine List.mem_filter.mpr ⟨OrdMap.mem_entries_iff.mpr hget, ?_⟩
      simp only [decide_eq_true_eq]
      refine List.mem_cons_of_mem _ (List.mem_flatMap.mpr ⟨e, he, ?_⟩)
      rcases href with rfl | rfl
      · exact List.mem_cons_self
      · exact List.mem_cons_of_mem _ List.mem_cons_self

/-! ## What a complete read loads -/

/-- A live `parent` row from the focus into another item of a configured
source. -/
structure ParentRow (configuredRepos : List RepoRef) (s : Store P) (focusRef : Ref)
    (row : EdgeRecord) : Prop where
  live : row ∈ s.liveEdges
  parent : row.1.1 = .parent
  focus : refOfEndpoint row.1.2.1 = focusRef
  other : refOfEndpoint row.1.2.2 ≠ focusRef
  configured : sourceAllowed (some configuredRepos) row.1.2.2.sourceId = true

/-- The rows a program is built from: its edges, and the live items of the
configured sources at their ends. -/
structure LoadsProgram (configuredRepos : List RepoRef) (s : Store P) (focusRef : Ref)
    (items : List ItemRecord) (edgeRows : List EdgeRecord) : Prop where
  live : ∀ row ∈ edgeRows, row ∈ s.liveEdges
  parents : ∀ row, ParentRow configuredRepos s focusRef row → row ∈ edgeRows
  intoChild : ∀ row ∈ s.liveEdges, row.1.1 = .blocks ∨ row.1.1 = .closes →
    (∃ p, ParentRow configuredRepos s focusRef p ∧ p.1.2.2 = row.1.2.2) → row ∈ edgeRows
  liveItems : ∀ r ∈ items, r ∈ s.liveItems
  loaded : ∀ row ∈ edgeRows, ∀ e, e = row.1.2.1 ∨ e = row.1.2.2 →
    sourceAllowed (some configuredRepos) e.sourceId = true → ∀ r ∈ s.liveItems, r.1 = e → r ∈ items

variable {cfg : AppConfig} {s : Store P} {r : GraphNeighborhoodResponse}

/-- The parent rows of a page of the focus that is not truncated. -/
theorem mem_programParentRows {focus : ItemEndpoint} (hnamed : NamedEnds s)
    (hpage : (s.listLiveEdgesForSourceRefs localeCompare focus.sourceId.val [focus.externalId]
      graphProgramMaxEdgeReads).truncated = false) {row : EdgeRecord} :
    row ∈ programParentRows (refOfEndpoint focus) (s.listLiveEdgesForSourceRefs localeCompare
        focus.sourceId.val [focus.externalId] graphProgramMaxEdgeReads).rows ↔
      row ∈ s.liveEdges ∧ row.1.1 = .parent ∧ refOfEndpoint row.1.2.1 = refOfEndpoint focus := by
  unfold programParentRows
  rw [List.mem_filter, Store.mem_listLiveEdgesForSourceRefs (by decide) hpage]
  simp only [Bool.and_eq_true, decide_eq_true_eq]
  constructor
  · rintro ⟨⟨hlive, -⟩, htype, hfrom⟩
    exact ⟨hlive, htype, hfrom⟩
  · rintro ⟨hlive, htype, hfrom⟩
    have hkey : row.1.2.1 = focus := refOfEndpoint_injective hfrom
    have hfocus := (hnamed row hlive).1.2
    rw [hkey] at hfocus
    exact ⟨⟨hlive, Or.inl ⟨by rw [hkey], by rw [hkey]; exact List.mem_cons_self, hkey ▸ hfocus⟩⟩,
      htype, hfrom⟩

theorem mem_programChildRefs {configuredRepos : List RepoRef} {parentRows : List EdgeRecord}
    (hnamed : NamedEnds s)
    (hrows : ∀ row, row ∈ parentRows ↔
      row ∈ s.liveEdges ∧ row.1.1 = .parent ∧ refOfEndpoint row.1.2.1 = focusRef) {ref : Ref} :
    ref ∈ programChildRefs configuredRepos focusRef parentRows ↔
      ∃ row, ParentRow configuredRepos s focusRef row ∧ refOfEndpoint row.1.2.2 = ref := by
  unfold programChildRefs
  simp only [mem_sortBy, List.mem_filter, List.mem_eraseDups, List.mem_map, hrows,
    Bool.and_eq_true, decide_eq_true_eq]
  constructor
  · rintro ⟨⟨row, ⟨hlive, htype, hfrom⟩, rfl⟩, hne, hconfigured⟩
    obtain ⟨parts, hparts⟩ := Option.isSome_iff_exists.mp hconfigured
    obtain ⟨hsplit, hsource⟩ := Option.filter_eq_some_iff.mp hparts
    rw [splitRef_refOfEndpoint (hnamed row hlive).2] at hsplit
    rw [← Option.some.inj hsplit] at hsource
    exact ⟨row, ⟨hlive, htype, hfrom, hne, hsource⟩, rfl⟩
  · rintro ⟨row, hrow, rfl⟩
    refine ⟨⟨row, ⟨hrow.live, hrow.parent, hrow.focus⟩, rfl⟩, hrow.other, ?_⟩
    rw [configuredRef_refOfEndpoint (hnamed row hrow.live).2 hrow.configured]
    rfl

/-- The rows both reads hand on, where neither was cut short. -/
theorem mem_programEdgeRows {configuredRepos : List RepoRef}
    {parentRows childRows : List EdgeRecord} {childRefs : List Ref} (hnamed : NamedEnds s)
    (hparents : ∀ row, row ∈ parentRows ↔
      row ∈ s.liveEdges ∧ row.1.1 = .parent ∧ refOfEndpoint row.1.2.1 = focusRef)
    (hchildren : ∀ ref, ref ∈ childRefs ↔
      ∃ row, ParentRow configuredRepos s focusRef row ∧ refOfEndpoint row.1.2.2 = ref)
    (hrows : ∀ row, row ∈ childRows ↔ row ∈ s.liveEdges ∧
      ∃ g ∈ refsBySource configuredRepos localeCompare childRefs, Incident g.1 g.2 row)
    {row : EdgeRecord} :
    row ∈ programEdgeRows childRefs parentRows childRows ↔
      row ∈ s.liveEdges ∧ refOfEndpoint row.1.2.2 ∈ childRefs ∧
        (row.1.1 = .parent ∧ refOfEndpoint row.1.2.1 = focusRef ∨
          row.1.1 = .blocks ∨ row.1.1 = .closes) := by
  unfold programEdgeRows
  simp only [List.mem_append, List.mem_filter, hparents, hrows, Bool.and_eq_true,
    Bool.or_eq_true, decide_eq_true_eq]
  constructor
  · rintro (⟨⟨hlive, htype⟩, hto⟩ | ⟨⟨hlive, -⟩, htype, hto⟩)
    · exact ⟨hlive, hto, Or.inl htype⟩
    · exact ⟨hlive, hto, Or.inr htype⟩
  · rintro ⟨hlive, hto, htype | htype⟩
    · exact Or.inl ⟨⟨hlive, htype⟩, hto⟩
    · obtain ⟨p, hp, hpto⟩ := (hchildren _).mp hto
      have hsource : sourceAllowed (some configuredRepos) row.1.2.2.sourceId = true := by
        rw [← refOfEndpoint_injective hpto]
        exact hp.configured
      obtain ⟨g, hg, hat⟩ :=
        (exists_atRefs_refsBySource (hnamed row hlive).2).mpr ⟨hto, hsource⟩
      exact Or.inr ⟨⟨hlive, g, hg, Or.inr hat⟩, htype, hto⟩

/-- **A complete response is built from everything its program needs.** -/
theorem loadsProgram_of_complete (hnamed : NamedEnds s)
    (h : readGraphProgramSnapshot localeCompare cfg s generatedAt focusRef = .ok r)
    (hcomplete : r.complete = true) :
    ∃ items labels edgeRows, LoadsProgram (configuredRepoRefs cfg) s focusRef items edgeRows ∧
      BuiltProgram (mapEdges (some (configuredRepoRefs cfg)) items edgeRows)
        (OrdMap.index (·.id) (mapItems (some (configuredRepoRefs cfg)) items labels)) focusRef r := by
  unfold readGraphProgramSnapshot at h
  obtain ⟨focusRow, hfocusRow, h⟩ := except_bind_eq_ok h
  simp only at h
  obtain ⟨response, hresponse, h⟩ := except_bind_eq_ok h
  obtain rfl := Except.ok.inj h
  obtain ⟨hfocusLive, hfocusAllowed, -, rfl⟩ := readGraphFocus_ok hfocusRow
  have hreason := not_mem_limitReasons_of_complete hcomplete
  simp only [withLimitReasons, mem_orderedReasons, List.mem_append, not_or] at hreason
  -- no limit was reported, so neither a read nor the builder cut anything
  obtain ⟨⟨hnodes, hnodeRead⟩, -⟩ := hreason .nodes
  obtain ⟨⟨hedges, -⟩, hedgeRead⟩ := hreason .edges
  have hcuts := eq_false_of_not_mem_ite hedgeRead
  obtain ⟨hpage, hread⟩ := Bool.or_eq_false_iff.mp hcuts
  have hlength := of_decide_eq_false (eq_false_of_not_mem_ite hnodeRead)
  rw [List.take_of_length_le (by omega)] at hresponse hread
  have hbuilt := buildGraphProgram_of_complete hresponse hnodes hedges
  refine ⟨_, _, _, ?_, ⟨hbuilt.edges, hbuilt.item, hbuilt.reached⟩⟩
  have hparents := @mem_programParentRows P localeCompare s focusRow.1 hnamed hpage
  have hchildren := @mem_programChildRefs P (refOfEndpoint focusRow.1) s (configuredRepoRefs cfg) _
    hnamed fun row => hparents
  have hrows := @mem_programEdgeRows P localeCompare (refOfEndpoint focusRow.1) s
    (configuredRepoRefs cfg) _ _ _ hnamed (fun row => hparents) (fun ref => hchildren)
    fun row => Store.mem_readEdges hread
  constructor
  · exact fun row hrow => (hrows.mp hrow).1
  · intro row hrow
    exact hrows.mpr ⟨hrow.live, hchildren.mpr ⟨row, hrow, rfl⟩,
      Or.inl ⟨hrow.parent, hrow.focus⟩⟩
  · rintro row hlive htype ⟨p, hp, hpto⟩
    exact hrows.mpr ⟨hlive, hchildren.mpr ⟨p, hp, by rw [hpto]⟩, Or.inr htype⟩
  · intro item hitem
    rcases List.mem_cons.mp hitem with rfl | hitem
    · exact hfocusLive
    · exact (Store.mem_readItems.mp hitem).1
  · rintro row hrow e hend hsource item hlive rfl
    by_cases hfocus : refOfEndpoint item.1 = refOfEndpoint focusRow.1
    · have hkey := Store.liveItems_key hlive hfocusLive (refOfEndpoint_injective hfocus)
      exact hkey ▸ List.mem_cons_self
    · have hnamedItem : item.1.Named := by
        rcases hend with hend | hend
        · exact hend ▸ (hnamed row (hrows.mp hrow).1).1
        · exact hend ▸ (hnamed row (hrows.mp hrow).1).2
      refine List.mem_cons_of_mem _ (Store.mem_readItems.mpr ⟨hlive, ?_⟩)
      refine (exists_atRefs_refsBySource hnamedItem).mpr ⟨?_, hsource⟩
      unfold programItemRefs
      rw [List.mem_filter, List.mem_eraseDups, List.mem_append, List.mem_map]
      refine ⟨?_, by simpa using hfocus⟩
      rcases hend with hend | hend
      · exact Or.inr ⟨row, hrow, by rw [hend]⟩
      · exact Or.inl (hend ▸ (hrows.mp hrow).2.1)

end SymphonyBoard
