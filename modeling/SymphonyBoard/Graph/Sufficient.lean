import SymphonyBoard.Graph.Program
/-!
# A complete program response is sufficient

What a complete `scope=program` response has of the full graph: the
tracker's scope, edge for edge, and the state of every end. The two readings of the tracker's progress then differ by the
edges from an item to itself alone, which no response holds and
`programRollups` counts (`sufficient_iff`).
-/

namespace SymphonyBoard

variable {P : Type}

/-- The items of a response by their reference. -/
def responseItems (r : GraphNeighborhoodResponse) : ItemsById :=
  OrdMap.index (·.id) (r.nodes.filterMap (·.item))

/-- The response shows the tracker's progress, and is its scope. -/
structure Sufficient (localeCompare : String → String → Ordering) (cfg : AppConfig) (s : Store P)
    (focusRef : Ref) (r : GraphNeighborhoodResponse) : Prop where
  progress : SameProgress
    (programRollup (responseItems r) localeCompare focusRef r.edges)
    (programRollup (fullItems cfg s) localeCompare focusRef (fullEdges cfg s))
  scope : ∀ e, e ∈ r.edges ↔ e ∈ programScopeEdges (fullEdges cfg s) focusRef

/-- A child that is not done, and that only itself blocks, or that nothing
blocks and only itself closes. -/
def HangsOnItself (itemsById : ItemsById) (edges : List EdgeDTO) (id : Ref)
    (state : Option ItemState) : Prop :=
  isDone state = false ∧
    ((∃ e ∈ edges, Blocking itemsById e ∧ e.toRef = id) ∧
        (∀ e ∈ edges, Blocking itemsById e → e.toRef = id → e.fromRef = id) ∨
      (¬∃ e ∈ edges, Blocking itemsById e ∧ e.toRef = id) ∧
        (∃ e ∈ edges, Reviewing itemsById e ∧ e.toRef = id) ∧
        ∀ e ∈ edges, Reviewing itemsById e → e.toRef = id → e.fromRef = id)

variable {localeCompare : String → String → Ordering} {cfg : AppConfig} {s : Store P}
  {focusRef : Ref} {r : GraphNeighborhoodResponse} {items : List ItemRecord}
  {labels : List LabelRecord} {edgeRows : List EdgeRecord} {generatedAt : String}

/-! ## The same edges -/

/-- An end is admitted by the loaded rows as by all of them. -/
theorem admits_loaded_iff (hload : LoadsProgram (configuredRepoRefs cfg) s focusRef items edgeRows)
    {row : EdgeRecord} (hrow : row ∈ edgeRows) {e : ItemEndpoint}
    (hend : e = row.1.2.1 ∨ e = row.1.2.2) :
    AdmitsEndpoint (some (configuredRepoRefs cfg)) items e ↔
      AdmitsEndpoint (some (configuredRepoRefs cfg)) s.listLiveItems e := by
  constructor
  · intro h
    refine ⟨h.source, fun item hitem hkey => ?_⟩
    exact h.row item (hload.loaded row hrow e hend h.source item (mem_listLiveItems.mp hitem) hkey)
      hkey
  · intro h
    refine ⟨h.source, fun item hitem hkey => ?_⟩
    exact h.row item (mem_listLiveItems.mpr (hload.liveItems item hitem)) hkey

/-- The loaded edges are the full ones among the loaded rows. -/
theorem mem_loadedEdges (hload : LoadsProgram (configuredRepoRefs cfg) s focusRef items edgeRows)
    {e : EdgeDTO} :
    e ∈ mapEdges (some (configuredRepoRefs cfg)) items edgeRows ↔ ∃ row ∈ edgeRows,
      AdmitsEndpoint (some (configuredRepoRefs cfg)) s.listLiveItems row.1.2.1 ∧
        AdmitsEndpoint (some (configuredRepoRefs cfg)) s.listLiveItems row.1.2.2 ∧
          toEdgeDTO row = e := by
  rw [mem_mapEdges]
  refine exists_congr fun row => and_congr_right fun hrow => ?_
  rw [admits_loaded_iff hload hrow (Or.inl rfl), admits_loaded_iff hload hrow (Or.inr rfl)]

/-- An admitted `parent` edge from the focus comes from a row of its
program. -/
theorem parentRow_of_parentEdge {row : EdgeRecord} {id : Ref} (hrow : row ∈ s.liveEdges)
    (hto : AdmitsEndpoint (some (configuredRepoRefs cfg)) s.listLiveItems row.1.2.2)
    (h : ParentEdge focusRef id (toEdgeDTO row)) :
    ParentRow (configuredRepoRefs cfg) s focusRef row where
  live := hrow
  parent := h.1
  focus := h.2.1
  other := fun hsame => h.2.2.2 (hsame.symm.trans h.2.2.1)
  configured := hto.source

theorem isChildIn_loaded_iff
    (hload : LoadsProgram (configuredRepoRefs cfg) s focusRef items edgeRows) {id : Ref} :
    IsChildIn (mapEdges (some (configuredRepoRefs cfg)) items edgeRows) focusRef id ↔
      IsChildIn (fullEdges cfg s) focusRef id := by
  constructor
  · rintro ⟨e, he, hparent⟩
    obtain ⟨row, hrow, hfrom, hto, rfl⟩ := (mem_loadedEdges hload).mp he
    exact ⟨_, mem_fullEdges.mpr ⟨row, hload.live row hrow, hfrom, hto, rfl⟩, hparent⟩
  · rintro ⟨e, he, hparent⟩
    obtain ⟨row, hrow, hfrom, hto, rfl⟩ := mem_fullEdges.mp he
    have hload' := hload.parents row (parentRow_of_parentEdge hrow hto hparent)
    exact ⟨_, (mem_loadedEdges hload).mpr ⟨row, hload', hfrom, hto, rfl⟩, hparent⟩

/-- **The program of the loaded edges is the program of the full ones.** -/
theorem mem_programScopeEdges_loaded
    (hload : LoadsProgram (configuredRepoRefs cfg) s focusRef items edgeRows) {e : EdgeDTO} :
    e ∈ programScopeEdges (mapEdges (some (configuredRepoRefs cfg)) items edgeRows) focusRef ↔
      e ∈ programScopeEdges (fullEdges cfg s) focusRef := by
  rw [mem_programScopeEdges, mem_programScopeEdges]
  have hprogram : ProgramEdge focusRef
      (IsChildIn (mapEdges (some (configuredRepoRefs cfg)) items edgeRows) focusRef) e ↔
      ProgramEdge focusRef (IsChildIn (fullEdges cfg s) focusRef) e := by
    unfold ProgramEdge
    rw [isChildIn_loaded_iff hload]
  rw [hprogram]
  refine and_congr_left fun h => ?_
  rw [mem_loadedEdges hload, mem_fullEdges]
  constructor
  · rintro ⟨row, hrow, hadmits⟩
    exact ⟨row, hload.live row hrow, hadmits⟩
  · rintro ⟨row, hrow, hfrom, hto, rfl⟩
    refine ⟨row, ?_, hfrom, hto, rfl⟩
    rcases h with ⟨htype, hfocus, ⟨e, he, hparent⟩⟩ | ⟨htype, ⟨e, he, hparent⟩, -⟩
    · refine hload.parents row (parentRow_of_parentEdge hrow hto ⟨htype, hfocus, rfl, ?_⟩)
      exact hparent.2.2.2
    · obtain ⟨p, hp, -, hpto, rfl⟩ := mem_fullEdges.mp he
      refine hload.intoChild row hrow htype ⟨p, parentRow_of_parentEdge hp hpto hparent, ?_⟩
      exact refOfEndpoint_injective hparent.2.2.1

/-! ## The same states -/

/-- The state of an item by its ref. -/
theorem state_index_mapItems {rows : List ItemRecord} (hlive : ∀ row ∈ rows, row ∈ s.liveItems)
    {e : ItemEndpoint} {state : ItemState} :
    ((OrdMap.index (·.id) (mapItems (some (configuredRepoRefs cfg)) rows labels)).get?
        (refOfEndpoint e)).map (·.state) = some state ↔
      ∃ row ∈ rows, rowAllowed (some (configuredRepoRefs cfg)) row = true ∧ row.1 = e ∧
        row.2.item.state = state := by
  rw [Option.map_eq_some_iff]
  simp only [OrdMap.get?_index_eq_some (mapItems_id_inj hlive), mem_mapItems]
  constructor
  · rintro ⟨a, ⟨⟨row, hrow, hallowed, rfl⟩, hid⟩, rfl⟩
    exact ⟨row, hrow, hallowed, refOfEndpoint_injective hid, rfl⟩
  · rintro ⟨row, hrow, hallowed, rfl, rfl⟩
    exact ⟨_, ⟨⟨row, hrow, hallowed, rfl⟩, rfl⟩, rfl⟩

/-- An end of a loaded edge has the same state in both. -/
theorem state_loaded (hload : LoadsProgram (configuredRepoRefs cfg) s focusRef items edgeRows)
    {row : EdgeRecord} (hrow : row ∈ edgeRows) {e : ItemEndpoint}
    (hend : e = row.1.2.1 ∨ e = row.1.2.2) :
    ((OrdMap.index (·.id) (mapItems (some (configuredRepoRefs cfg)) items labels)).get?
        (refOfEndpoint e)).map (·.state) =
      ((fullItems cfg s).get? (refOfEndpoint e)).map (·.state) := by
  unfold fullItems
  apply Option.ext
  intro state
  rw [state_index_mapItems hload.liveItems,
    state_index_mapItems fun row hrow => mem_listLiveItems.mp hrow]
  constructor
  · rintro ⟨item, hitem, hrest⟩
    exact ⟨item, mem_listLiveItems.mpr (hload.liveItems item hitem), hrest⟩
  · rintro ⟨item, hitem, hallowed, rfl, hstate⟩
    have hsource := sourceAllowed_of_repoAllowed hallowed
    exact ⟨item, hload.loaded row hrow _ hend hsource item (mem_listLiveItems.mp hitem) rfl,
      hallowed, rfl, hstate⟩

/-- A node's item is the loaded one. -/
theorem get?_responseItems {edges : List EdgeDTO}
    (hbuilt : BuiltProgram edges
      (OrdMap.index (·.id) (mapItems (some (configuredRepoRefs cfg)) items labels)) focusRef r)
    (hlive : ∀ row ∈ items, row ∈ s.liveItems) {n : GraphNeighborhoodNode} (hn : n ∈ r.nodes) :
    (responseItems r).get? n.ref =
      (OrdMap.index (·.id) (mapItems (some (configuredRepoRefs cfg)) items labels)).get? n.ref := by
  have hinj : ∀ a ∈ mapItems (some (configuredRepoRefs cfg)) items labels,
      ∀ b ∈ mapItems (some (configuredRepoRefs cfg)) items labels, a.id = b.id → a = b :=
    mapItems_id_inj hlive
  have hindex := @OrdMap.get?_index_eq_some Ref ItemDTO _ (·.id) _ hinj
  have hitem : ∀ item, item ∈ r.nodes.filterMap (·.item) →
      (OrdMap.index (·.id) (mapItems (some (configuredRepoRefs cfg)) items labels)).get? item.id =
        some item := by
    intro item hmem
    obtain ⟨m, hm, hmitem⟩ := List.mem_filterMap.mp hmem
    have hget := (hbuilt.item m hm).symm.trans hmitem
    rw [(hindex.mp hget).2]
    exact hget
  have hkeys : ∀ a ∈ r.nodes.filterMap (·.item), ∀ b ∈ r.nodes.filterMap (·.item),
      a.id = b.id → a = b := by
    intro a ha b hb hid
    have hgot := hitem a ha
    rw [hid, hitem b hb] at hgot
    exact (Option.some.inj hgot).symm
  unfold responseItems
  apply Option.ext
  intro item
  rw [OrdMap.get?_index_eq_some hkeys]
  constructor
  · rintro ⟨hmem, hid⟩
    rw [← hid]
    exact hitem item hmem
  · intro hget
    exact ⟨List.mem_filterMap.mpr ⟨n, hn, (hbuilt.item n hn).trans hget⟩, (hindex.mp hget).2⟩

/-! ## The two readings -/

/-- What a sufficient response rests on: its edges are the scope, and their
ends are in the states they have in full. -/
structure HoldsScope (cfg : AppConfig) (s : Store P) (focusRef : Ref)
    (r : GraphNeighborhoodResponse) : Prop where
  edges : ∀ e, e ∈ r.edges ↔ e ∈ programScopeEdges (fullEdges cfg s) focusRef
  state : ∀ e ∈ r.edges, ∀ ref, e.fromRef = ref ∨ e.toRef = ref →
    ((responseItems r).get? ref).map (·.state) = ((fullItems cfg s).get? ref).map (·.state)

theorem holdsScope_of_complete (hnamed : NamedEnds s)
    (h : readGraphProgramSnapshot localeCompare cfg s generatedAt focusRef = .ok r)
    (hcomplete : r.complete = true) : HoldsScope cfg s focusRef r := by
  obtain ⟨items, labels, edgeRows, hload, hbuilt⟩ := loadsProgram_of_complete hnamed h hcomplete
  refine ⟨fun e => (hbuilt.edges e).trans (mem_programScopeEdges_loaded hload), ?_⟩
  intro e he ref hend
  obtain ⟨n, hn, rfl⟩ := hbuilt.reached e he ref hend
  have hloaded := (mem_programScopeEdges.mp ((hbuilt.edges e).mp he)).1
  obtain ⟨row, hrow, -, -, rfl⟩ := (mem_loadedEdges hload).mp hloaded
  rw [get?_responseItems hbuilt hload.liveItems hn]
  rcases hend with hend | hend
  · rw [← hend]
    exact state_loaded hload hrow (Or.inl rfl)
  · rw [← hend]
    exact state_loaded hload hrow (Or.inr rfl)

/-- Lists with the same matches, and no two of them different, find the
same one. -/
theorem find?_congr_of_unique {α : Type} {p : α → Bool} {l l' : List α}
    (hsame : ∀ a, p a = true → (a ∈ l ↔ a ∈ l'))
    (hunique : ∀ a ∈ l, ∀ b ∈ l, p a = true → p b = true → a = b) : l.find? p = l'.find? p := by
  cases hl : l.find? p with
  | none =>
    refine (List.find?_eq_none.mpr fun a ha hp => ?_).symm
    exact List.find?_eq_none.mp hl a ((hsame a hp).mpr ha) hp
  | some a =>
    have ha := List.mem_of_find?_eq_some hl
    have hp := List.find?_some hl
    cases hl' : l'.find? p with
    | none => exact absurd hp (List.find?_eq_none.mp hl' a ((hsame a hp).mp ha))
    | some b =>
      have hb := List.find?_some hl'
      have hmem := (hsame b hb).mpr (List.mem_of_find?_eq_some hl')
      rw [hunique a ha b hmem hp hb]

theorem parentEdge_unique {id : Ref} {e e' : EdgeDTO} (he : e ∈ fullEdges cfg s)
    (he' : e' ∈ fullEdges cfg s) (h : ParentEdge focusRef id e) (h' : ParentEdge focusRef id e') :
    e = e' := by
  obtain ⟨row, hrow, -, -, rfl⟩ := mem_fullEdges.mp he
  obtain ⟨row', hrow', -, -, rfl⟩ := mem_fullEdges.mp he'
  have hfrom := refOfEndpoint_injective (h.2.1.trans h'.2.1.symm)
  have hto := refOfEndpoint_injective (h.2.2.1.trans h'.2.2.1.symm)
  have htype : row.1.1 = row'.1.1 := h.1.trans h'.1.symm
  rw [Store.liveEdges_key hrow hrow' (Prod.ext htype (Prod.ext hfrom hto))]

variable {id : Ref} {state : Option ItemState}

theorem stateOf_of_holdsScope (hscope : HoldsScope cfg s focusRef r) {e : EdgeDTO}
    (he : e ∈ r.edges) {ref : Ref} (hend : e.fromRef = ref ∨ e.toRef = ref)
    (edgeState : Option ItemState) :
    stateOf (responseItems r) ref edgeState = stateOf (fullItems cfg s) ref edgeState := by
  unfold stateOf
  rw [hscope.state e he ref hend]

/-- A tracker's children are in the same states in its scope. -/
theorem childState_of_holdsScope (hscope : HoldsScope cfg s focusRef r) (id : Ref) :
    childState (responseItems r) r.edges focusRef id =
      childState (fullItems cfg s) (fullEdges cfg s) focusRef id := by
  have hsame : ∀ e, decide (ParentEdge focusRef id e) = true →
      (e ∈ r.edges ↔ e ∈ fullEdges cfg s) := by
    intro e hparent
    have hparent := of_decide_eq_true hparent
    rw [hscope.edges, mem_programScopeEdges]
    refine ⟨fun h => h.1, fun he => ⟨he, Or.inl ⟨hparent.1, hparent.2.1, e, he, ?_⟩⟩⟩
    exact ⟨hparent.1, hparent.2.1, rfl, hparent.2.2.1 ▸ hparent.2.2.2⟩
  have hfind : r.edges.find? (fun e => ParentEdge focusRef id e) =
      (fullEdges cfg s).find? fun e => ParentEdge focusRef id e := by
    refine find?_congr_of_unique hsame fun e he e' he' h h' => ?_
    have hfull := (hsame e h).mp he
    have hfull' := (hsame e' h').mp he'
    exact parentEdge_unique hfull hfull' (of_decide_eq_true h) (of_decide_eq_true h')
  unfold childState
  rw [hfind]
  cases hfound : (fullEdges cfg s).find? fun e => ParentEdge focusRef id e with
  | none => rfl
  | some e =>
    have hparent := List.find?_some hfound
    have he := (hsame e hparent).mpr (List.mem_of_find?_eq_some hfound)
    have hto := (of_decide_eq_true hparent).2.2.1
    simp only [Option.map_some]
    rw [stateOf_of_holdsScope hscope he (Or.inr hto)]

/-- The edges of a scope into a child are the full ones from elsewhere. -/
theorem mem_edges_intoChild (hscope : HoldsScope cfg s focusRef r)
    (hchild : IsChildIn (fullEdges cfg s) focusRef id) {e : EdgeDTO}
    (htype : e.type = .blocks ∨ e.type = .closes) (hto : e.toRef = id) :
    e ∈ r.edges ↔ e ∈ fullEdges cfg s ∧ e.fromRef ≠ id := by
  rw [hscope.edges, mem_programScopeEdges]
  subst hto
  refine and_congr_right fun _ => ?_
  constructor
  · rintro (⟨hparent, -⟩ | ⟨-, -, hne⟩)
    · rcases htype with htype | htype
      · rw [htype] at hparent
        cases hparent
      · rw [htype] at hparent
        cases hparent
    · exact hne
  · exact fun hne => Or.inr ⟨htype, hchild, hne⟩

/-- A child's status in the scope counts the edges from elsewhere only. -/
theorem statusIn_of_holdsScope (hscope : HoldsScope cfg s focusRef r)
    (hchild : IsChildIn (fullEdges cfg s) focusRef id) (state : Option ItemState) :
    statusIn (responseItems r) r.edges id state =
      if isDone state then .done
      else if ∃ e ∈ fullEdges cfg s, Blocking (fullItems cfg s) e ∧ e.toRef = id ∧ e.fromRef ≠ id
        then .blocked
      else if ∃ e ∈ fullEdges cfg s, Reviewing (fullItems cfg s) e ∧ e.toRef = id ∧ e.fromRef ≠ id
        then .inReview
      else .ready := by
  have hblocked : (∃ e ∈ r.edges, Blocking (responseItems r) e ∧ e.toRef = id) ↔
      ∃ e ∈ fullEdges cfg s, Blocking (fullItems cfg s) e ∧ e.toRef = id ∧ e.fromRef ≠ id := by
    constructor
    · rintro ⟨e, he, ⟨htype, hstate⟩, hto⟩
      rw [stateOf_of_holdsScope hscope he (Or.inl rfl)] at hstate
      obtain ⟨hfull, hne⟩ := (mem_edges_intoChild hscope hchild (Or.inl htype) hto).mp he
      exact ⟨e, hfull, ⟨htype, hstate⟩, hto, hne⟩
    · rintro ⟨e, hfull, ⟨htype, hstate⟩, hto, hne⟩
      have he := (mem_edges_intoChild hscope hchild (Or.inl htype) hto).mpr ⟨hfull, hne⟩
      rw [← stateOf_of_holdsScope hscope he (Or.inl rfl)] at hstate
      exact ⟨e, he, ⟨htype, hstate⟩, hto⟩
  have hreviewed : (∃ e ∈ r.edges, Reviewing (responseItems r) e ∧ e.toRef = id) ↔
      ∃ e ∈ fullEdges cfg s, Reviewing (fullItems cfg s) e ∧ e.toRef = id ∧ e.fromRef ≠ id := by
    constructor
    · rintro ⟨e, he, ⟨htype, hstate⟩, hto⟩
      rw [stateOf_of_holdsScope hscope he (Or.inl rfl)] at hstate
      obtain ⟨hfull, hne⟩ := (mem_edges_intoChild hscope hchild (Or.inr htype) hto).mp he
      exact ⟨e, hfull, ⟨htype, hstate⟩, hto, hne⟩
    · rintro ⟨e, hfull, ⟨htype, hstate⟩, hto, hne⟩
      have he := (mem_edges_intoChild hscope hchild (Or.inr htype) hto).mpr ⟨hfull, hne⟩
      rw [← stateOf_of_holdsScope hscope he (Or.inl rfl)] at hstate
      exact ⟨e, he, ⟨htype, hstate⟩, hto⟩
  unfold statusIn
  simp only [hblocked, hreviewed]

/-- Two choices of a status agree unless the one with fewer reasons misses
the one that decides. -/
theorem statusChoice_eq_iff {d b b' c c' : Prop} [Decidable d] [Decidable b] [Decidable b']
    [Decidable c] [Decidable c'] (hb : b' → b) (hc : c' → c) :
    (if d then ProgramChildStatus.done else if b' then .blocked else if c' then .inReview
        else .ready) =
      (if d then ProgramChildStatus.done else if b then .blocked else if c then .inReview
        else .ready) ↔ ¬(¬d ∧ (b ∧ ¬b' ∨ ¬b ∧ c ∧ ¬c')) := by
  by_cases hd : d
  · simp [hd]
  · by_cases hb1 : b
    · by_cases hb2 : b'
      · simp [hd, hb1, hb2]
      · by_cases hc2 : c' <;> simp [hd, hb1, hb2, hc2]
    · have hb2 : ¬b' := fun h => hb1 (hb h)
      by_cases hc1 : c
      · by_cases hc2 : c' <;> simp [hd, hb1, hb2, hc1, hc2]
      · have hc2 : ¬c' := fun h => hc1 (hc h)
        simp [hd, hb1, hb2, hc1, hc2]

/-- **A child's status is the same in the scope unless it hangs on
itself.** -/
theorem statusIn_eq_iff (hscope : HoldsScope cfg s focusRef r)
    (hchild : IsChildIn (fullEdges cfg s) focusRef id) :
    statusIn (responseItems r) r.edges id state =
        statusIn (fullItems cfg s) (fullEdges cfg s) id state ↔
      ¬HangsOnItself (fullItems cfg s) (fullEdges cfg s) id state := by
  rw [statusIn_of_holdsScope hscope hchild]
  unfold statusIn HangsOnItself
  have hsome : ∀ p : EdgeDTO → Prop,
      (∀ e ∈ fullEdges cfg s, p e → e.toRef = id → e.fromRef = id) ↔
        ¬∃ e ∈ fullEdges cfg s, p e ∧ e.toRef = id ∧ e.fromRef ≠ id := by
    intro p
    simp only [not_exists, not_and, not_not]
  have hmono : ∀ p : EdgeDTO → Prop,
      (∃ e ∈ fullEdges cfg s, p e ∧ e.toRef = id ∧ e.fromRef ≠ id) →
        ∃ e ∈ fullEdges cfg s, p e ∧ e.toRef = id :=
    fun p ⟨e, he, hp, hto, _⟩ => ⟨e, he, hp, hto⟩
  rw [hsome, hsome, ← Bool.not_eq_true]
  exact statusChoice_eq_iff (hmono (Blocking (fullItems cfg s)))
    (hmono (Reviewing (fullItems cfg s)))

theorem isChildIn_of_childState {edges : List EdgeDTO} {itemsById : ItemsById}
    (h : childState itemsById edges focusRef id = some state) : IsChildIn edges focusRef id :=
  isSome_childState.mp (by rw [h]; rfl)

theorem sufficient_iff_of_holdsScope (hscope : HoldsScope cfg s focusRef r) :
    Sufficient localeCompare cfg s focusRef r ↔ ∀ id state,
      childState (fullItems cfg s) (fullEdges cfg s) focusRef id = some state →
        ¬HangsOnItself (fullItems cfg s) (fullEdges cfg s) id state := by
  constructor
  · intro h id state hstate
    rw [← statusIn_eq_iff hscope (isChildIn_of_childState hstate)]
    have hfull : (id, statusIn (fullItems cfg s) (fullEdges cfg s) id state) ∈
        progress (programRollup (fullItems cfg s) localeCompare focusRef (fullEdges cfg s)) :=
      mem_progress_programRollup.mpr ⟨state, hstate, rfl⟩
    obtain ⟨state', hstate', hstatus⟩ := mem_progress_programRollup.mp ((h.progress _).mpr hfull)
    rw [childState_of_holdsScope hscope, hstate] at hstate'
    obtain rfl := Option.some.inj hstate'
    exact hstatus
  · intro h
    refine ⟨sameProgress_of (childState_of_holdsScope hscope) fun id state hstate => ?_,
      hscope.edges⟩
    exact (statusIn_eq_iff hscope (isChildIn_of_childState hstate)).mpr (h id state hstate)

/-- **A complete program response is sufficient exactly when no child hangs
on itself**, over a store whose edges have ends that can be told apart. -/
theorem sufficient_iff (localeCompare : String → String → Ordering) (cfg : AppConfig)
    (s : Store P) (generatedAt : String) (focusRef : Ref) (r : GraphNeighborhoodResponse)
    (hnamed : NamedEnds s)
    (h : readGraphProgramSnapshot localeCompare cfg s generatedAt focusRef = .ok r)
    (hcomplete : r.complete = true) :
    Sufficient localeCompare cfg s focusRef r ↔ ∀ id state,
      childState (fullItems cfg s) (fullEdges cfg s) focusRef id = some state →
        ¬HangsOnItself (fullItems cfg s) (fullEdges cfg s) id state :=
  sufficient_iff_of_holdsScope (holdsScope_of_complete hnamed h hcomplete)

/-! ## A tracker with one child -/

namespace OneChild

theorem noBar : '|' ∉ "github:github.com".toList := by decide

/-- A GitHub source. -/
def sourceId : SourceId := ⟨"github:github.com", noBar⟩

/-- A configuration with one source. -/
def config : AppConfig :=
  { sources := [{
      sourceId := "github:github.com", kind := "github", host := "github.com", enabled := none
      pool := { tokenEnv := some "GITHUB_TOKEN", fallbackTokenEnvs := none, githubApp := none }
      tokenPools := none, authPools := none, authPolicy := none, restUrl := none
      projects := [{ path := "org/app", tokenPool := none, authPolicy := none }] }] }

/-- An item's endpoint. -/
def endpoint (externalId : String) : ItemEndpoint := ⟨sourceId, externalId⟩

/-- An open issue of the project. -/
def issue (externalId : String) : ItemRow :=
  { item := {
      sourceId, externalId, kind := .issue, projectPath := some "org/app", iid := none, url := ""
      title := none, state := .opened, stateRaw := none, isDraft := none, author := none
      createdAt := none, updatedAt := none, closedAt := none, mergedAt := none
      reviewState := none, ciState := none, mergeState := none, openReviewThreads := none
      totalReviewThreads := none, commentTotal := none, demand := 0 }
    normalizedWith := "github", lastSeenAt := "2026-06-01T08:00:00.000Z", deletedAt := none }

/-- An edge between two open items. -/
def edge : EdgeRow :=
  { fromState := some .opened, toState := some .opened, lifecycle := none
    discoveredFrom := .fromEnd, firstSeenAt := "2026-06-01T08:00:00.000Z"
    lastSeenAt := "2026-06-01T08:00:00.000Z", deletedAt := none }

/-- The tracker `T` and its child `C`, which `blocker` blocks. -/
def store (blocker : String) : Store Unit :=
  { Store.empty .sqlite with
    items := (OrdMap.empty.set (endpoint "T") (issue "T")).set (endpoint "C") (issue "C")
    edges := (OrdMap.empty.set (.parent, endpoint "T", endpoint "C") edge).set
      (.blocks, endpoint blocker, endpoint "C") edge }

/-- The answer for a tracker whose child has one blocker. -/
def read (blocker : String) : Except String GraphNeighborhoodResponse :=
  readGraphProgramSnapshot textOrder config (store blocker) "2026-06-01T08:00:00.000Z"
    (refOfEndpoint (endpoint "T"))

theorem exists_complete {blocker : String}
    (h : (read blocker).toOption.map (·.complete) = some true) :
    ∃ r, read blocker = .ok r ∧ r.complete = true := by
  cases hread : read blocker with
  | error message =>
    rw [hread] at h
    cases h
  | ok r =>
    rw [hread] at h
    exact ⟨r, rfl, Option.some.inj h⟩

/-- The read is complete whether the child or another item blocks it. -/
theorem read_complete {blocker : String} (h : blocker ∈ ["C", "D"]) :
    ∃ r, read blocker = .ok r ∧ r.complete = true := by
  refine exists_complete ?_
  unfold read readGraphProgramSnapshot readGraphFocus Store.readEdges Store.readItems
    programChildRefs buildGraphProgram refsBySource graphNodes Store.listLabelsByItemIds
  -- sorting by hand, so that the kernel computes the reads
  simp only [Store.listLiveItemsBySourceRefs, Store.listLiveEdgesForSourceRefs,
    Store.listLiveEdgesOnSide, edgeRowOrder, compareEdges, compareNodes, sortBy_eq_insertionSort]
  revert blocker
  decide +kernel

theorem namedEnds {blocker : String} (h : blocker ∈ ["C", "D"]) : NamedEnds (store blocker) := by
  unfold NamedEnds ItemEndpoint.Named
  revert blocker
  decide +kernel

/-- The child of the tracker hangs on itself where it is its own blocker. -/
theorem hangsOnItself : ∃ id state,
    childState (fullItems config (store "C")) (fullEdges config (store "C"))
        (refOfEndpoint (endpoint "T")) id = some state ∧
      HangsOnItself (fullItems config (store "C")) (fullEdges config (store "C")) id state := by
  refine ⟨refOfEndpoint (endpoint "C"), some .opened, ?_⟩
  unfold HangsOnItself fullItems fullEdges Store.listLiveItems
  simp only [sortBy_eq_insertionSort]
  decide +kernel

end OneChild

open OneChild in
theorem sufficient_iff_outside : ∃ r, read "D" = .ok r ∧
    (Sufficient textOrder config (store "D") (refOfEndpoint (endpoint "T")) r ↔ ∀ id state,
      childState (fullItems config (store "D")) (fullEdges config (store "D"))
          (refOfEndpoint (endpoint "T")) id = some state →
        ¬HangsOnItself (fullItems config (store "D")) (fullEdges config (store "D")) id state) := by
  obtain ⟨r, hread, hcomplete⟩ := read_complete (by decide : "D" ∈ ["C", "D"])
  exact ⟨r, hread, sufficient_iff _ _ _ _ _ _ (namedEnds (by decide)) hread hcomplete⟩

open OneChild in
/-- The child blocks itself: the full graph shows it blocked, the complete
response shows it ready. -/
theorem not_sufficient : ¬∀ (P : Type) (localeCompare : String → String → Ordering)
    (cfg : AppConfig) (s : Store P) (generatedAt : String) (focusRef : Ref)
    (r : GraphNeighborhoodResponse),
    readGraphProgramSnapshot localeCompare cfg s generatedAt focusRef = .ok r →
      r.complete = true → Sufficient localeCompare cfg s focusRef r := by
  intro h
  obtain ⟨r, hread, hcomplete⟩ := read_complete (by decide : "C" ∈ ["C", "D"])
  have hscope := holdsScope_of_complete (namedEnds (by decide)) hread hcomplete
  have hnone := (sufficient_iff_of_holdsScope hscope).mp (h _ _ _ _ _ _ _ hread hcomplete)
  obtain ⟨id, state, hstate, hhangs⟩ := hangsOnItself
  exact hnone id state hstate hhangs

end SymphonyBoard
