import SymphonyBoard.Common.OrdMap
import SymphonyBoard.Model.Types
/-!
# Edge reconciliation

`src/model/edges.ts`: reports of one link, from either endpoint or from a
third item, are merged into one edge per `(type, from, to)`, and a
`closes` edge's lifecycle is derived from its endpoint states. The first
non-null state reported for an end is kept (`reconcileMap_get?`).
-/

namespace SymphonyBoard

/-- The lifecycle of a `closes` edge; no other type has one. -/
def deriveLifecycle (type : EdgeType) (fromState toState : Option ItemState) :
    Option EdgeLifecycle :=
  if type ≠ .closes then none
  else if fromState = some .merged ∧ toState = some .closed then some .fulfilled
  else if fromState = some .closed then some .broken
  else some .declared

/-- Which endpoint of an edge the reporting item is. -/
inductive EdgeReporter
  | fromEnd
  | toEnd
  | neither
deriving DecidableEq, Repr

/-- Which endpoints reported a reconciled edge. -/
inductive DiscoveredFrom
  | fromEnd
  | toEnd
  | neither
  | both
deriving DecidableEq, Repr

/-- The end an edge is known from. -/
def EdgeReporter.discovered : EdgeReporter → DiscoveredFrom
  | .fromEnd => .fromEnd
  | .toEnd => .toEnd
  | .neither => .neither

/-- The end of the edge its reporter is. -/
def reporterSide (edge : CanonicalEdge) (reporter : ItemEndpoint) : EdgeReporter :=
  let self := refOfEndpoint reporter
  if refOfEndpoint edge.fromEnd = self then .fromEnd
  else if refOfEndpoint edge.toEnd = self then .toEnd
  else .neither

/-- A reconciled edge and the bookkeeping the store needs. -/
structure ReconciledEdge extends CanonicalEdge where
  lifecycle : Option EdgeLifecycle
  discoveredFrom : DiscoveredFrom
deriving DecidableEq

/-- The key reports are merged by. The source's JSON tuple of the type and
the two references is injective on them. -/
abbrev EdgeKey := EdgeType × Ref × Ref

/-- What two edges must differ in to be two. -/
def keyOf (e : CanonicalEdge) : EdgeKey :=
  (e.type, refOfEndpoint e.fromEnd, refOfEndpoint e.toEnd)

/-- A third item's report adds no side; two different endpoints make
`both`. -/
def DiscoveredFrom.join (d : DiscoveredFrom) (side : EdgeReporter) : DiscoveredFrom :=
  if d = .neither then side.discovered
  else if side ≠ .neither ∧ d ≠ side.discovered then .both
  else d

/-- One report folded into what is known of its edge: known states stay,
nulls are filled. -/
def mergeReport (d : CanonicalEdge × EdgeReporter) : Option ReconciledEdge → ReconciledEdge
  | none =>
    { d.1 with
      lifecycle := deriveLifecycle d.1.type d.1.fromState d.1.toState
      discoveredFrom := d.2.discovered }
  | some existing =>
    let fromState := existing.fromState.or d.1.fromState
    let toState := existing.toState.or d.1.toState
    { existing with
      fromState, toState
      lifecycle := deriveLifecycle existing.type fromState toState
      discoveredFrom := existing.discoveredFrom.join d.2 }

/-- The edges by key, in the order they were first reported. -/
def reconcileMap (discovered : List (CanonicalEdge × EdgeReporter)) :
    OrdMap EdgeKey ReconciledEdge :=
  discovered.foldl (fun byKey d => byKey.upsert (keyOf d.1) (mergeReport d)) OrdMap.empty

/-- `reconcileEdges`: one edge for each key, in the order they were first met. -/
def reconcileEdges (discovered : List (CanonicalEdge × EdgeReporter)) : List ReconciledEdge :=
  (reconcileMap discovered).values

/-! ## What reconciliation keeps -/

/-- The reports of one edge. -/
def reportsOf (discovered : List (CanonicalEdge × EdgeReporter)) (k : EdgeKey) :
    List (CanonicalEdge × EdgeReporter) :=
  discovered.filter fun d => keyOf d.1 = k

/-- The first state reported for the `from` end. -/
def firstFromState (reports : List (CanonicalEdge × EdgeReporter)) : Option ItemState :=
  reports.findSome? fun d => d.1.fromState

/-- The first state reported for the `to` end. -/
def firstToState (reports : List (CanonicalEdge × EdgeReporter)) : Option ItemState :=
  reports.findSome? fun d => d.1.toState

/-- What a fold of reports of one edge leaves. -/
structure MergedFrom (e : ReconciledEdge) (k : EdgeKey)
    (reports : List (CanonicalEdge × EdgeReporter)) : Prop where
  key : keyOf e.toCanonicalEdge = k
  fromState : e.fromState = firstFromState reports
  toState : e.toState = firstToState reports

theorem foldl_mergeReport {k : EdgeKey} (reports : List (CanonicalEdge × EdgeReporter))
    (hk : ∀ d ∈ reports, keyOf d.1 = k) :
    reports ≠ [] → ∃ e, reports.foldl (fun o d => some (mergeReport d o)) none = some e ∧
      MergedFrom e k reports := by
  induction reports using List.reverseRecOn with
  | nil => intro h; exact absurd rfl h
  | append_singleton reports d ih =>
    intro _
    have hd : keyOf d.1 = k := hk d (by simp)
    have hk' : ∀ d' ∈ reports, keyOf d'.1 = k := fun d' h => hk d' (List.mem_append_left _ h)
    rw [List.foldl_append, List.foldl_cons, List.foldl_nil]
    rcases eq_or_ne reports [] with rfl | hne
    · exact ⟨_, rfl, hd, by simp [mergeReport, firstFromState],
        by simp [mergeReport, firstToState]⟩
    · obtain ⟨e, he, hm⟩ := ih hk' hne
      rw [he]
      refine ⟨_, rfl, ?_, ?_, ?_⟩
      · exact hm.key
      · simp [mergeReport, hm.fromState, firstFromState, List.findSome?_append]
      · simp [mergeReport, hm.toState, firstToState, List.findSome?_append]

/-- **One edge per reported key**, carrying for each end the first state
any report of it carried. -/
theorem reconcileMap_get? (discovered : List (CanonicalEdge × EdgeReporter)) (k : EdgeKey) :
    ((reconcileMap discovered).get? k = none ∧ reportsOf discovered k = []) ∨
    ∃ e, (reconcileMap discovered).get? k = some e ∧ reportsOf discovered k ≠ [] ∧
      MergedFrom e k (reportsOf discovered k) := by
  have hget : (reconcileMap discovered).get? k =
      (reportsOf discovered k).foldl (fun o d => some (mergeReport d o)) none := by
    rw [reconcileMap, OrdMap.get?_foldl_upsert, OrdMap.get?_empty, reportsOf]
  rcases eq_or_ne (reportsOf discovered k) [] with hnil | hne
  · left
    exact ⟨by rw [hget, hnil]; rfl, hnil⟩
  · right
    obtain ⟨e, he, hm⟩ := foldl_mergeReport (reportsOf discovered k)
      (fun d hd => by simpa [reportsOf] using (List.mem_filter.mp hd).2) hne
    exact ⟨e, hget.trans he, hne, hm⟩

/-! ## The order of the reports

A merged edge depends on the order of its reports only in which of several
reported states it carries. -/

/-- The endpoints among the reporting sides. -/
def joinSides (sides : List EdgeReporter) : DiscoveredFrom :=
  if .fromEnd ∈ sides then
    if .toEnd ∈ sides then .both else .fromEnd
  else if .toEnd ∈ sides then .toEnd
  else .neither

theorem joinSides_concat (sides : List EdgeReporter) (side : EdgeReporter) :
    joinSides (sides ++ [side]) = (joinSides sides).join side := by
  by_cases hfrom : EdgeReporter.fromEnd ∈ sides <;> by_cases hto : EdgeReporter.toEnd ∈ sides <;>
    cases side <;>
    simp [joinSides, hfrom, hto, DiscoveredFrom.join, EdgeReporter.discovered]

theorem joinSides_congr {sides sides' : List EdgeReporter} (h : ∀ x, x ∈ sides ↔ x ∈ sides') :
    joinSides sides = joinSides sides' := by
  simp only [joinSides, h]

/-- What a fold of reports leaves besides the states: the sides joined, and
the lifecycle of the states it ends with. -/
theorem foldl_mergeReport_derived (reports : List (CanonicalEdge × EdgeReporter)) :
    ∀ e, reports.foldl (fun o d => some (mergeReport d o)) none = some e →
      e.discoveredFrom = joinSides (reports.map Prod.snd) ∧
      e.lifecycle = deriveLifecycle e.type e.fromState e.toState := by
  induction reports using List.reverseRecOn with
  | nil =>
    intro e he
    cases he
  | append_singleton reports d ih =>
    intro e he
    rw [List.foldl_append, List.foldl_cons, List.foldl_nil] at he
    rw [List.map_append, List.map_singleton, joinSides_concat]
    cases hprev : reports.foldl (fun o d => some (mergeReport d o)) none with
    | none =>
      -- nothing is merged before the first report
      have hnil : reports = [] := by
        rcases eq_or_ne reports [] with hnil | hne
        · exact hnil
        · obtain ⟨x, hx⟩ : ∃ x, reports.getLast? = some x :=
            ⟨_, List.getLast?_eq_some_getLast hne⟩
          obtain ⟨init, rfl⟩ := List.getLast?_eq_some_iff.mp hx
          rw [List.foldl_append] at hprev
          cases hprev
      rw [hprev] at he
      obtain rfl := Option.some.inj he
      subst hnil
      exact ⟨by simp [mergeReport, joinSides, DiscoveredFrom.join], rfl⟩
    | some e' =>
      rw [hprev] at he
      obtain rfl := Option.some.inj he
      have hside := (ih e' hprev).1
      exact ⟨by rw [← hside]; rfl, rfl⟩

/-- **A merged edge, in terms of its reports.** -/
theorem reconcileMap_get?_derived {discovered : List (CanonicalEdge × EdgeReporter)} {k : EdgeKey}
    {e : ReconciledEdge} (h : (reconcileMap discovered).get? k = some e) :
    e.discoveredFrom = joinSides ((reportsOf discovered k).map Prod.snd) ∧
      e.lifecycle = deriveLifecycle e.type e.fromState e.toState := by
  rw [reconcileMap, OrdMap.get?_foldl_upsert, OrdMap.get?_empty] at h
  exact foldl_mergeReport_derived _ e h

theorem reconcileMap_keys (discovered : List (CanonicalEdge × EdgeReporter)) :
    ∀ b ∈ (reconcileMap discovered).entries, keyOf b.2.toCanonicalEdge = b.1 := by
  rintro ⟨k, e⟩ hb
  rw [OrdMap.mem_entries_iff] at hb
  rcases reconcileMap_get? discovered k with ⟨hnone, -⟩ | ⟨e', he', -, hm⟩
  · rw [hnone] at hb
    cases hb
  · rw [he'] at hb
    obtain rfl := Option.some.inj hb
    exact hm.key

/-- An edge is listed exactly when it is what its key is bound to. -/
theorem mem_reconcileEdges_iff {discovered : List (CanonicalEdge × EdgeReporter)}
    {e : ReconciledEdge} :
    e ∈ reconcileEdges discovered ↔
      (reconcileMap discovered).get? (keyOf e.toCanonicalEdge) = some e := by
  rw [reconcileEdges, OrdMap.mem_values_iff]
  constructor
  · rintro ⟨k, hk⟩
    have hkey := reconcileMap_keys discovered (k, e) (OrdMap.mem_entries_iff.mpr hk)
    rw [hkey]
    exact hk
  · exact fun h => ⟨_, h⟩

theorem nodup_keys_reconcileEdges (discovered : List (CanonicalEdge × EdgeReporter)) :
    ((reconcileEdges discovered).map fun e => keyOf e.toCanonicalEdge).Nodup := by
  have hkeys : ((reconcileEdges discovered).map fun e => keyOf e.toCanonicalEdge) =
      (reconcileMap discovered).entries.map Prod.fst := by
    rw [reconcileEdges, OrdMap.values, List.map_map]
    exact List.map_congr_left (reconcileMap_keys discovered)
  rw [hkeys]
  exact (reconcileMap discovered).nodup

theorem mem_keys_reconcileEdges {discovered : List (CanonicalEdge × EdgeReporter)} {k : EdgeKey} :
    k ∈ ((reconcileEdges discovered).map fun e => keyOf e.toCanonicalEdge) ↔
      ∃ d ∈ discovered, keyOf d.1 = k := by
  have hreports : reportsOf discovered k ≠ [] ↔ ∃ d ∈ discovered, keyOf d.1 = k := by
    simp [reportsOf, List.filter_eq_nil_iff]
  rw [← hreports, List.mem_map]
  constructor
  · rintro ⟨e, he, rfl⟩ hnil
    rcases reconcileMap_get? discovered (keyOf e.toCanonicalEdge) with ⟨hnone, -⟩ | ⟨_, _, hne, _⟩
    · rw [mem_reconcileEdges_iff, hnone] at he
      cases he
    · exact hne hnil
  · intro hne
    rcases reconcileMap_get? discovered k with ⟨-, hnil⟩ | ⟨e, he, -, hm⟩
    · exact absurd hnil hne
    · exact ⟨e, mem_reconcileEdges_iff.mpr (by rw [hm.key]; exact he), hm.key⟩

/-- What is known of an edge's ends, whichever report it is from: an end's
state is known exactly when some report of the edge carries one. -/
theorem reconcileEdges_known {discovered : List (CanonicalEdge × EdgeReporter)}
    {e : ReconciledEdge} (h : e ∈ reconcileEdges discovered) :
    (e.fromState.isSome ↔
      ∃ d ∈ discovered, keyOf d.1 = keyOf e.toCanonicalEdge ∧ d.1.fromState.isSome) ∧
    (e.toState.isSome ↔
      ∃ d ∈ discovered, keyOf d.1 = keyOf e.toCanonicalEdge ∧ d.1.toState.isSome) := by
  rw [mem_reconcileEdges_iff] at h
  rcases reconcileMap_get? discovered (keyOf e.toCanonicalEdge) with ⟨hnone, -⟩ | ⟨e', he', -, hm⟩
  · rw [hnone] at h
    cases h
  · obtain rfl : e' = e := Option.some.inj (he'.symm.trans h)
    rw [hm.fromState, hm.toState, firstFromState, firstToState, List.findSome?_isSome_iff,
      List.findSome?_isSome_iff]
    simp only [reportsOf, List.mem_filter, decide_eq_true_eq, and_assoc, and_self]

end SymphonyBoard
