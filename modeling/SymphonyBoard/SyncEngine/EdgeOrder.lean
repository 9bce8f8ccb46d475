import SymphonyBoard.SyncEngine.Writes
/-!
# The order of edge reports

An edge is reported from either end and from third items, in whatever order
the records came. `reconcileEdges_order` says what the order cannot change:
which edges there are, which sides reported each, and which of its endpoint
states are known. Which of two reported states is kept does depend on the
order, but not for an item seen in the run: refinement puts that item's own
state (`refined_fromState`, `refined_toState`).
-/

namespace SymphonyBoard

/-! ## What refinement puts -/

section Refine

variable {bundles : List NormalizedBundle} {k : ItemEndpoint}

/-- An item seen in one state only is in that state when last seen. -/
theorem lastItem_state_of_agree {x : ItemState} (hseen : ∃ i ∈ itemsOf bundles, i.endpoint = k)
    (hagree : ∀ i ∈ itemsOf bundles, i.endpoint = k → i.state = x) :
    (lastItem bundles k).map (·.state) = some x := by
  cases hlast : lastItem bundles k with
  | some i =>
    obtain ⟨hi, hkey⟩ := List.mem_filter.mp (List.mem_of_getLast? hlast)
    rw [Option.map_some, hagree i hi (of_decide_eq_true hkey)]
  | none =>
    obtain ⟨i, hi, hk⟩ := hseen
    have hnil := List.getLast?_eq_none_iff.mp hlast
    exact absurd (decide_eq_true hk) (List.filter_eq_nil_iff.mp hnil i hi)

theorem refined_fromState {e : ReconciledEdge} {i : CanonicalItem}
    (h : lastItem bundles e.fromEnd = some i) :
    (refineEdge (stateByRef bundles) e).fromState = some i.state := by
  have hstate := stateByRef_get? bundles e.fromEnd
  rw [h, Option.map_some] at hstate
  simp only [refineEdge, hstate, Option.some_or]

theorem refined_toState {e : ReconciledEdge} {i : CanonicalItem}
    (h : lastItem bundles e.toEnd = some i) :
    (refineEdge (stateByRef bundles) e).toState = some i.state := by
  have hstate := stateByRef_get? bundles e.toEnd
  rw [h, Option.map_some] at hstate
  simp only [refineEdge, hstate, Option.some_or]

end Refine

/-! ## What the order leaves alone -/

/-- Two edges merged from the same reports, as far as the order of the
reports does not matter. -/
structure SameReports (e e' : ReconciledEdge) : Prop where
  key : keyOf e.toCanonicalEdge = keyOf e'.toCanonicalEdge
  discoveredFrom : e.discoveredFrom = e'.discoveredFrom
  fromKnown : e.fromState.isSome ↔ e'.fromState.isSome
  toKnown : e.toState.isSome ↔ e'.toState.isSome

section Order

variable {reports reports' : List (CanonicalEdge × EdgeReporter)}

/-- The edge of the same key in a permuted list is merged from the same
reports. -/
theorem sameReports_of_perm (h : reports.Perm reports') {e e' : ReconciledEdge}
    (he : e ∈ reconcileEdges reports) (he' : e' ∈ reconcileEdges reports')
    (hkey : keyOf e.toCanonicalEdge = keyOf e'.toCanonicalEdge) : SameReports e e' := by
  have hd := (reconcileMap_get?_derived (mem_reconcileEdges_iff.mp he)).1
  have hd' := (reconcileMap_get?_derived (mem_reconcileEdges_iff.mp he')).1
  have hsides : ((reportsOf reports (keyOf e.toCanonicalEdge)).map Prod.snd).Perm
      ((reportsOf reports' (keyOf e'.toCanonicalEdge)).map Prod.snd) := by
    rw [← hkey]
    exact (h.filter _).map _
  obtain ⟨hf, ht⟩ := reconcileEdges_known he
  obtain ⟨hf', ht'⟩ := reconcileEdges_known he'
  refine ⟨hkey, ?_, ?_, ?_⟩
  · rw [hd, hd']
    exact joinSides_congr fun _ => hsides.mem_iff
  · rw [hf, hf', hkey]
    simp only [h.mem_iff]
  · rw [ht, ht', hkey]
    simp only [h.mem_iff]

theorem perm_keys_reconcileEdges (h : reports.Perm reports') :
    ((reconcileEdges reports).map fun e => keyOf e.toCanonicalEdge).Perm
      ((reconcileEdges reports').map fun e => keyOf e.toCanonicalEdge) := by
  refine (List.perm_ext_iff_of_nodup (nodup_keys_reconcileEdges reports)
    (nodup_keys_reconcileEdges reports')).mpr fun k => ?_
  rw [mem_keys_reconcileEdges, mem_keys_reconcileEdges]
  simp only [h.mem_iff]

end Order

/-- **Reconciliation up to the order of the reports.** There is one edge a
reported key, with the sides that reported it joined, its ends' states
known as far as some report carries them, and the lifecycle of the states
it has; a permuted list gives the same keys, and edges of the same
reports. Refinement then puts the state of every item seen in the run, and
derives the lifecycle again. -/
theorem reconcileEdges_order (reports : List (CanonicalEdge × EdgeReporter)) :
    ((reconcileEdges reports).map fun e => keyOf e.toCanonicalEdge).Nodup ∧
    (∀ k, k ∈ ((reconcileEdges reports).map fun e => keyOf e.toCanonicalEdge) ↔
      ∃ d ∈ reports, keyOf d.1 = k) ∧
    (∀ e ∈ reconcileEdges reports,
      e.discoveredFrom =
        joinSides ((reportsOf reports (keyOf e.toCanonicalEdge)).map Prod.snd) ∧
      e.lifecycle = deriveLifecycle e.type e.fromState e.toState) ∧
    (∀ reports', reports.Perm reports' →
      ((reconcileEdges reports).map fun e => keyOf e.toCanonicalEdge).Perm
        ((reconcileEdges reports').map fun e => keyOf e.toCanonicalEdge) ∧
      ∀ e ∈ reconcileEdges reports, ∀ e' ∈ reconcileEdges reports',
        keyOf e.toCanonicalEdge = keyOf e'.toCanonicalEdge → SameReports e e') ∧
    (∀ bundles, ∀ e ∈ (reconcileEdges reports).map (refineEdge (stateByRef bundles)),
      (∀ i, lastItem bundles e.fromEnd = some i → e.fromState = some i.state) ∧
      (∀ i, lastItem bundles e.toEnd = some i → e.toState = some i.state) ∧
      e.lifecycle = deriveLifecycle e.type e.fromState e.toState) ∧
    (∀ bundles, ∀ e ∈ (reconcileEdges reports).map (refineEdge (stateByRef bundles)), ∀ x,
      ((∃ i ∈ itemsOf bundles, i.endpoint = e.fromEnd) →
        (∀ i ∈ itemsOf bundles, i.endpoint = e.fromEnd → i.state = x) → e.fromState = some x) ∧
      ((∃ i ∈ itemsOf bundles, i.endpoint = e.toEnd) →
        (∀ i ∈ itemsOf bundles, i.endpoint = e.toEnd → i.state = x) → e.toState = some x)) := by
  refine ⟨nodup_keys_reconcileEdges reports, fun k => mem_keys_reconcileEdges, ?_, ?_, ?_, ?_⟩
  · exact fun e he => reconcileMap_get?_derived (mem_reconcileEdges_iff.mp he)
  · exact fun reports' h => ⟨perm_keys_reconcileEdges h, fun e he e' he' hkey =>
      sameReports_of_perm h he he' hkey⟩
  · intro bundles e he
    obtain ⟨e, -, rfl⟩ := List.mem_map.mp he
    exact ⟨fun i hi => refined_fromState hi, fun i hi => refined_toState hi, rfl⟩
  · intro bundles e he x
    obtain ⟨e, -, rfl⟩ := List.mem_map.mp he
    constructor
    · intro hseen hagree
      obtain ⟨i, hi, rfl⟩ := Option.map_eq_some_iff.mp (lastItem_state_of_agree hseen hagree)
      exact refined_fromState hi
    · intro hseen hagree
      obtain ⟨i, hi, rfl⟩ := Option.map_eq_some_iff.mp (lastItem_state_of_agree hseen hagree)
      exact refined_toState hi

end SymphonyBoard
