import SymphonyBoard.Graph.Reads
import SymphonyBoard.Graph.Rollups
/-!
# Graph responses

The response both graph scopes answer with, the orders its parts come in,
the read of the focus, which must be a live item of a configured
repository, and the full graph a configuration admits.
-/

namespace SymphonyBoard

variable {P : Type}

/-- The bound that cut a neighborhood short. -/
inductive GraphNeighborhoodLimitReason
  | depth
  | nodes
  | edges
deriving DecidableEq, Repr

/-- An item of the neighborhood, with its distance from the focus. -/
structure GraphNeighborhoodNode where
  ref : Ref
  hop : ℕ
  item : Option ItemDTO
deriving DecidableEq

/-- The response of `graph-neighborhood`. -/
structure GraphNeighborhoodResponse where
  generatedAt : String
  focusRef : Ref
  requestedDepth : ℕ
  reachedDepth : ℕ
  limitReasons : List GraphNeighborhoodLimitReason
  nodes : List GraphNeighborhoodNode
  edges : List EdgeDTO

/-- `GRAPH_NEIGHBORHOOD_MAX_NODES` -/
def graphNeighborhoodMaxNodes : ℕ := 200

/-- `GRAPH_NEIGHBORHOOD_MAX_EDGES` -/
def graphNeighborhoodMaxEdges : ℕ := 500

/-- `GRAPH_PROGRAM_MAX_EDGE_READS` -/
def graphProgramMaxEdgeReads : ℕ := 4 * graphNeighborhoodMaxEdges

/-- No limit cut anything. -/
def GraphNeighborhoodResponse.complete (r : GraphNeighborhoodResponse) : Bool :=
  r.limitReasons.isEmpty

/-- The reasons in the order they are reported. -/
def orderedReasons (reasons : List GraphNeighborhoodLimitReason) :
    List GraphNeighborhoodLimitReason :=
  [.depth, .nodes, .edges].filter fun reason => decide (reason ∈ reasons)

theorem mem_orderedReasons {reasons : List GraphNeighborhoodLimitReason}
    {reason : GraphNeighborhoodLimitReason} :
    reason ∈ orderedReasons reasons ↔ reason ∈ reasons := by
  unfold orderedReasons
  cases reason <;> simp

/-- Report what the reads cut, with the builder's own reasons. The dropped
item bodies are not modelled. -/
def withLimitReasons (r : GraphNeighborhoodResponse)
    (reasons : List GraphNeighborhoodLimitReason) : GraphNeighborhoodResponse :=
  { r with limitReasons := orderedReasons reasons }

section Orders

variable (localeCompare : String → String → Ordering)

/-- `compareEdges`: by the two ends, then by the type. -/
def compareEdges : EdgeDTO → EdgeDTO → Ordering :=
  compareLex (on localeCompare (·.fromRef)) <|
  compareLex (on localeCompare (·.toRef)) <|
    on localeCompare fun e => e.type.text

instance transCmp_compareEdges [Std.TransCmp localeCompare] :
    Std.TransCmp (compareEdges localeCompare) := by
  unfold compareEdges
  infer_instance

/-- `compareNodes`: by distance, then by reference. -/
def compareNodes : GraphNeighborhoodNode → GraphNeighborhoodNode → Ordering :=
  compareLex (on numberOrder (·.hop)) (on localeCompare (·.ref))

/-- The nodes of some refs at their hops. -/
def graphNodes (hops : List (Ref × ℕ)) (byRef : OrdMap Ref ItemDTO) : List GraphNeighborhoodNode :=
  sortBy (compareNodes localeCompare)
    (hops.map fun h => { ref := h.1, hop := h.2, item := byRef.get? h.1 })

/-- The greatest distance of a node listed. -/
def reachedDepth (nodes : List GraphNeighborhoodNode) : ℕ :=
  nodes.foldl (fun depth node => max depth node.hop) 0

end Orders

theorem mem_graphNodes {localeCompare : String → String → Ordering} {hops : List (Ref × ℕ)} {byRef : OrdMap Ref ItemDTO}
    {n : GraphNeighborhoodNode} :
    n ∈ graphNodes localeCompare hops byRef ↔ (n.ref, n.hop) ∈ hops ∧ n.item = byRef.get? n.ref := by
  unfold graphNodes
  rw [mem_sortBy, List.mem_map]
  constructor
  · rintro ⟨⟨ref, hop⟩, hmem, rfl⟩
    exact ⟨hmem, rfl⟩
  · rintro ⟨hmem, hitem⟩
    exact ⟨_, hmem, by rw [← hitem]⟩

/-- The message for a focus that is no item. -/
def notFound (focusRef : Ref) : String := "focus ref not found: " ++ focusRef

/-- The focus row. -/
def readGraphFocus (configuredRepos : List RepoRef) (s : Store P) (focusRef : Ref) :
    Except String ItemRecord :=
  match configuredRef configuredRepos focusRef with
  | none => .error (notFound focusRef)
  | some focus =>
    match (s.listLiveItemsBySourceRefs focus.1 [focus.2]).head? with
    | none => .error (notFound focusRef)
    | some row =>
      if (nonEmpty row.2.item.projectPath).isSome ∧ rowAllowed (some configuredRepos) row = true then
        .ok row
      else .error (notFound focusRef)

theorem except_bind_eq_ok {α β : Type} {x : Except String α} {f : α → Except String β} {b : β}
    (h : (x >>= f) = .ok b) : ∃ a, x = .ok a ∧ f a = .ok b := by
  cases x with
  | error message => cases h
  | ok a => exact ⟨a, rfl, h⟩

theorem eq_false_of_not_mem_ite {α : Type} {a : α} {b : Bool}
    (h : a ∉ (if b = true then [a] else [])) : b = false := by
  cases b with
  | false => rfl
  | true => exact absurd (List.mem_singleton_self a) h

theorem not_mem_limitReasons_of_complete {r : GraphNeighborhoodResponse} (h : r.complete = true)
    (reason : GraphNeighborhoodLimitReason) : reason ∉ r.limitReasons := by
  rw [List.isEmpty_iff.mp h]
  exact List.not_mem_nil

/-- A live item of a configured repository. -/
structure LiveFocus (configuredRepos : List RepoRef) (s : Store P) (focusRef : Ref)
    (row : ItemRecord) : Prop where
  live : row ∈ s.liveItems
  allowed : rowAllowed (some configuredRepos) row = true
  named : row.1.Named
  ref : refOfEndpoint row.1 = focusRef

theorem readGraphFocus_ok {configuredRepos : List RepoRef} {s : Store P} {focusRef : Ref}
    {row : ItemRecord} (h : readGraphFocus configuredRepos s focusRef = .ok row) :
    LiveFocus configuredRepos s focusRef row := by
  unfold readGraphFocus at h
  split at h
  · cases h
  · rename_i focus hfocus
    split at h
    · cases h
    · rename_i row' hrow
      split at h
      · rename_i hallowed
        obtain rfl := Except.ok.inj h
        obtain ⟨hlive, hat⟩ := Store.mem_listLiveItemsBySourceRefs.mp (List.mem_of_head? hrow)
        obtain ⟨hsource, hid, -⟩ := hat
        have hsplit := (Option.filter_eq_some_iff.mp hfocus).1
        rw [show focus = (focus.1, focus.2) from rfl] at hsplit
        rw [← hsource, ← List.mem_singleton.mp hid] at hsplit
        exact ⟨hlive, hallowed.2, named_of_splitRef hsplit, refOf_of_splitRef hsplit⟩
      · cases h

/-- A live item of a configured repository is found. -/
theorem readGraphFocus_of_live {configuredRepos : List RepoRef} {s : Store P} {row : ItemRecord}
    (hlive : row ∈ s.liveItems) (hnamed : row.1.Named)
    (hpath : (nonEmpty row.2.item.projectPath).isSome)
    (hallowed : rowAllowed (some configuredRepos) row = true) :
    readGraphFocus configuredRepos s (refOfEndpoint row.1) = .ok row := by
  have hsource := sourceAllowed_of_repoAllowed hallowed
  have hmem : row ∈ s.listLiveItemsBySourceRefs row.1.sourceId.val [row.1.externalId] :=
    Store.mem_listLiveItemsBySourceRefs.mpr
      ⟨hlive, rfl, List.mem_singleton_self _, hnamed.2⟩
  unfold readGraphFocus
  rw [configuredRef_refOfEndpoint hnamed hsource]
  simp only
  cases hhead : (s.listLiveItemsBySourceRefs row.1.sourceId.val [row.1.externalId]).head? with
  | none =>
    rw [List.head?_eq_none_iff.mp hhead] at hmem
    cases hmem
  | some row' =>
    obtain ⟨hlive', hsource', hid', -⟩ :=
      Store.mem_listLiveItemsBySourceRefs.mp (List.mem_of_head? hhead)
    have hkey : row'.1 = row.1 := by
      obtain ⟨⟨⟨source, hbar⟩, id⟩, row'⟩ := row'
      obtain ⟨⟨⟨source', hbar'⟩, id'⟩, row⟩ := row
      simp only [List.mem_singleton] at hsource' hid'
      subst hsource' hid'
      rfl
    obtain rfl := Store.liveItems_key hlive' hlive hkey
    simp only
    rw [if_pos ⟨hpath, hallowed⟩]

/-! ## The full graph -/

/-- Every live item the configuration admits. -/
def fullItems (cfg : AppConfig) (s : Store P) : ItemsById :=
  OrdMap.index (·.id) (mapItems (some (configuredRepoRefs cfg)) s.listLiveItems s.listLabels)

/-- Every live edge the configuration admits. -/
def fullEdges (cfg : AppConfig) (s : Store P) : List EdgeDTO :=
  mapEdges (some (configuredRepoRefs cfg)) s.listLiveItems s.listLiveEdges

theorem mem_listLiveItems {s : Store P} {row : ItemRecord} : row ∈ s.listLiveItems ↔ row ∈ s.liveItems := by
  unfold Store.listLiveItems
  rw [mem_sortBy, List.mem_reverse]

theorem mem_fullEdges {cfg : AppConfig} {s : Store P} {e : EdgeDTO} :
    e ∈ fullEdges cfg s ↔ ∃ row ∈ s.liveEdges,
      AdmitsEndpoint (some (configuredRepoRefs cfg)) s.listLiveItems row.1.2.1 ∧
        AdmitsEndpoint (some (configuredRepoRefs cfg)) s.listLiveItems row.1.2.2 ∧
          toEdgeDTO row = e := mem_mapEdges

theorem mapItems_id_inj {cfg : AppConfig} {s : Store P} {labels : List LabelRecord}
    {rows : List ItemRecord} (hlive : ∀ row ∈ rows, row ∈ s.liveItems) :
    ∀ a ∈ mapItems (some (configuredRepoRefs cfg)) rows labels,
      ∀ b ∈ mapItems (some (configuredRepoRefs cfg)) rows labels, a.id = b.id → a = b := by
  intro a ha b hb hid
  obtain ⟨row, hrow, -, rfl⟩ := mem_mapItems.mp ha
  obtain ⟨row', hrow', -, rfl⟩ := mem_mapItems.mp hb
  rw [Store.liveItems_key (hlive row hrow) (hlive row' hrow') (refOfEndpoint_injective hid)]

end SymphonyBoard
