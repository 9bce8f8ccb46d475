import SymphonyBoard.Common.DepthFirst
import SymphonyBoard.Common.OrdMap
import SymphonyBoard.Model.Types
/-!
# The edges of a tracker's table

`trackerEdges` of `src/model/tracker.ts`. A row without a reference is a
gate: a dependency on it becomes one on its own prerequisites, over however
many gates, cycles among them too. `trackerEdges_spec` says which edges come
out and in which order, that they always do, and that no row's reference is
resolved twice. A row is its place in the table, as two lines may read alike.
-/

namespace SymphonyBoard

/-! ## Rows -/

/-- `owner/repo#N`; both names are null for `#N`. -/
structure TrackerRef where
  owner : Option String
  repo : Option String
  number : ℕ
deriving DecidableEq

/-- A row of a tracker's table. -/
structure TrackerRow where
  id : String
  title : String
  ref : Option TrackerRef
  notes : Option String
  after : List String
  done : Bool
  phase : Option String
deriving DecidableEq

/-- What a reference was resolved to, and its state where one was reported. -/
structure TrackerTarget where
  externalId : String
  state : Option ItemState
deriving DecidableEq

/-- `TRACKER_MAX_BLOCKS_EDGES` -/
def trackerMaxBlocksEdges : ℕ := 1000

section Rows

variable (rows : List TrackerRow)

/-- The first row of an id. -/
def byId (id : String) : Option ℕ := rows.findIdx? fun row => row.id = id

/-- The rows a row is after, the ids no row has left out. -/
def afterRows (i : ℕ) : List ℕ := ((rows[i]?.map (·.after)).getD []).filterMap (byId rows)

/-- A row that names no issue. -/
def isGate (i : ℕ) : Bool := rows[i]?.any fun row => row.ref.isNone

/-- The rows with an issue that a row waits on, each once, in the order they
are first reached. -/
def prerequisites (i : ℕ) : Option (List ℕ) :=
  (walk (afterRows rows) (isGate rows) rows.length (afterRows rows i) ⟨[], []⟩).map (·.found)

end Rows

/-! ## The edges -/

/-- The edges so far. `resolved` has the rows whose reference was resolved,
in order. -/
structure TrackerRun where
  targets : OrdMap ℕ (Option TrackerTarget)
  resolved : List ℕ
  edges : List CanonicalEdge
  seen : List (EdgeType × String × String)
  blocks : ℕ

/-- Nothing has been visited. -/
def TrackerRun.start : TrackerRun :=
  { targets := .empty, resolved := [], edges := [], seen := [], blocks := 0 }

section Edges

variable (rows : List TrackerRow) (tracker : ItemEndpoint) (trackerState : Option ItemState)
variable (resolve : TrackerRef → Option TrackerTarget)

/-- A row's target; its reference is resolved the first time. -/
def TrackerRun.targetOf (r : TrackerRun) (i : ℕ) : Option TrackerTarget × TrackerRun :=
  match r.targets.get? i with
  | some target => (target, r)
  | none =>
    match rows[i]?.bind (·.ref) with
    | some ref =>
      (resolve ref,
        { r with targets := r.targets.set i (resolve ref), resolved := r.resolved ++ [i] })
    | none => (none, { r with targets := r.targets.set i none })

/-- An edge of the tracker's source. -/
def reportedEdge (type : EdgeType) (fromId : String) (fromState : Option ItemState)
    (target : TrackerTarget) : CanonicalEdge :=
  { type, fromEnd := ⟨tracker.sourceId, fromId⟩, toEnd := ⟨tracker.sourceId, target.externalId⟩
    fromState, toState := target.state }

/-- One edge, unless it joins an issue to itself or has been reported. -/
def TrackerRun.push (r : TrackerRun) (type : EdgeType) (fromId : String)
    (fromState : Option ItemState) (target : TrackerTarget) : Bool × TrackerRun :=
  let key := (type, fromId, target.externalId)
  if fromId = target.externalId ∨ key ∈ r.seen then (false, r)
  else
    (true, { r with
      seen := r.seen ++ [key]
      edges := r.edges ++ [reportedEdge tracker type fromId fromState target] })

/-- The blockers of one issue, until there are enough edges. -/
def TrackerRun.addBlockers (target : TrackerTarget) : List ℕ → TrackerRun → TrackerRun
  | [], r => r
  | dep :: deps, r =>
    match r.targetOf rows resolve dep with
    | (none, r) => addBlockers target deps r
    | (some blocker, r) =>
      match r.push tracker .blocks blocker.externalId blocker.state target with
      | (false, r) => addBlockers target deps r
      | (true, r) =>
        let r := { r with blocks := r.blocks + 1 }
        if trackerMaxBlocksEdges ≤ r.blocks then r else addBlockers target deps r

/-- One row: its parent edge, and what blocks it. -/
def TrackerRun.visitRow (r : TrackerRun) (i : ℕ) : Option TrackerRun :=
  match r.targetOf rows resolve i with
  | (none, r) => some r
  | (some target, r) =>
    let r := (r.push tracker .parent tracker.externalId trackerState target).2
    if trackerMaxBlocksEdges ≤ r.blocks then some r
    else (prerequisites rows i).map fun deps => r.addBlockers rows tracker resolve target deps

/-- `trackerEdges`; `none` where the closure runs out of steps. -/
def trackerEdges : Option TrackerRun :=
  (List.range rows.length).foldlM (TrackerRun.visitRow rows tracker trackerState resolve)
    TrackerRun.start

end Edges

/-! ## What they should be -/

section Spec

variable (rows : List TrackerRow) (tracker : ItemEndpoint) (trackerState : Option ItemState)
variable (resolve : TrackerRef → Option TrackerTarget)

/-- What a row's reference resolves to. -/
def targetAt (i : ℕ) : Option TrackerTarget := (rows[i]?.bind (·.ref)).bind resolve

/-- The rows with an issue a row waits on, by every way through gates. -/
def waitsOn (i : ℕ) : List ℕ :=
  ways (afterRows rows) (isGate rows) rows.length [] (afterRows rows i)

/-- The pair of a row's issue and the one of a row it waits on. -/
def dependencyPair (target : TrackerTarget) (dep : ℕ) : Option (String × String) :=
  (targetAt rows resolve dep).map fun blocker => (blocker.externalId, target.externalId)

/-- The dependencies of a row, where it has an issue. -/
def dependenciesAt (i : ℕ) : List (String × String) :=
  match targetAt rows resolve i with
  | none => []
  | some target => (waitsOn rows i).filterMap (dependencyPair rows resolve target)

/-- Who blocks whom, in table order. -/
def dependencyPairs : List (String × String) :=
  (List.range rows.length).flatMap (dependenciesAt rows resolve)

/-- The tracker and the issue of each row. -/
def parentPairs : List (String × String) :=
  (List.range rows.length).filterMap fun i =>
    (targetAt rows resolve i).map fun target => (tracker.externalId, target.externalId)

/-- A row waits on another through rows that name no issue. -/
def WaitsOn (i dep : ℕ) : Prop :=
  isGate rows dep = false ∧ ReachedFrom (afterRows rows) (isGate rows) (afterRows rows i) dep

/-- The ends of the edges of a type. -/
def endsOfType (type : EdgeType) (edges : List CanonicalEdge) : List (String × String) :=
  (edges.filter (·.type = type)).map fun e => (e.fromEnd.externalId, e.toEnd.externalId)

/-- A parent edge, or one from a blocker, with the states that were
reported. -/
def TrackerEdge (e : CanonicalEdge) : Prop :=
  ∃ i target, targetAt rows resolve i = some target ∧
    e.toEnd = ⟨tracker.sourceId, target.externalId⟩ ∧ e.toState = target.state ∧
    ((e.type = .parent ∧ e.fromEnd = tracker ∧ e.fromState = trackerState) ∨
      (e.type = .blocks ∧ ∃ dep blocker, WaitsOn rows i dep ∧
        targetAt rows resolve dep = some blocker ∧
        e.fromEnd = ⟨tracker.sourceId, blocker.externalId⟩ ∧ e.fromState = blocker.state))

/-- What a table yields. -/
structure YieldsTrackerEdges (r : TrackerRun) : Prop where
  edges : ∀ e ∈ r.edges, TrackerEdge rows tracker trackerState resolve e
  parents : endsOfType .parent r.edges = distinctPairs (parentPairs rows tracker resolve)
  blocks : endsOfType .blocks r.edges =
    (distinctPairs (dependencyPairs rows resolve)).take trackerMaxBlocksEdges
  once : r.resolved.Nodup
  asked : ∀ i ∈ r.resolved, (rows[i]?.bind (·.ref)).isSome

end Spec

section Rows

variable {rows : List TrackerRow} {i dep : ℕ}

theorem mem_range_of_isGate (h : isGate rows i = true) : i ∈ List.range rows.length := by
  unfold isGate at h
  cases hrow : rows[i]? with
  | none =>
    rw [hrow] at h
    cases h
  | some row => exact List.mem_range.mpr (List.getElem?_eq_some_iff.mp hrow).1

/-- **A row waits on what its ways lead to.** -/
theorem mem_waitsOn : dep ∈ waitsOn rows i ↔ WaitsOn rows i dep :=
  mem_ways_iff (fun _ => mem_range_of_isGate) (Nat.le_of_eq List.length_range)

/-- **The walk ends, and finds what the ways lead to.** -/
theorem prerequisites_eq (i : ℕ) : prerequisites rows i = some (waitsOn rows i).eraseDups := by
  have hnodes : ∀ i, isGate rows i = true → i ∈ List.range rows.length :=
    fun _ => mem_range_of_isGate
  have hlevels : (List.range rows.length).length ≤ rows.length := Nat.le_of_eq List.length_range
  have hends : (walk (afterRows rows) (isGate rows) rows.length (afterRows rows i)
      ⟨[], []⟩).isSome = true :=
    walk_isSome hnodes (Nat.le_trans (List.length_filter_le _ _) hlevels)
  obtain ⟨w, hw⟩ := Option.isSome_iff_exists.mp hends
  unfold prerequisites
  rw [hw, Option.map_some, (walks_of_walk hw).found_eq_ways hnodes hlevels]
  rfl

end Rows

/-! ## Pairs cut short -/

section Pairs

variable {α : Type*} [DecidableEq α] {pairs : List (α × α)} {n : ℕ}

theorem mem_distinctPairs {p : α × α} : p ∈ distinctPairs pairs ↔ p ∈ pairs ∧ p.1 ≠ p.2 := by
  rw [distinctPairs, List.mem_eraseDups, List.mem_filter, decide_eq_true_eq]

theorem distinctPairs_append (pairs more : List (α × α)) :
    distinctPairs pairs <+: distinctPairs (pairs ++ more) := by
  induction more using List.reverseRecOn with
  | nil => simp only [List.append_nil, List.prefix_rfl]
  | append_singleton more p ih =>
    rw [← List.append_assoc, distinctPairs_snoc]
    split
    · exact ih
    · exact ih.trans (List.prefix_append _ _)

/-- Pairs after the first ones change nothing. -/
theorem take_distinctPairs_append (more : List (α × α)) (h : n ≤ (distinctPairs pairs).length) :
    (distinctPairs (pairs ++ more)).take n = (distinctPairs pairs).take n := by
  obtain ⟨rest, hrest⟩ := distinctPairs_append pairs more
  rw [← hrest, List.take_append_of_le_length h]

/-- The repeats of what pairs come from bring no new pair. -/
theorem distinctPairs_eraseDups {β : Type*} [DecidableEq β] (f : β → Option (α × α)) (l : List β) :
    distinctPairs (pairs ++ l.eraseDups.filterMap f) = distinctPairs (pairs ++ l.filterMap f) := by
  induction l using List.reverseRecOn with
  | nil => rfl
  | append_singleton l b ih =>
    rw [eraseDups_snoc, List.filterMap_append, ← List.append_assoc]
    cases hb : f b with
    | none =>
      have hnil : [b].filterMap f = [] := by rw [List.filterMap_cons, hb, List.filterMap_nil]
      rw [hnil, List.append_nil]
      split
      · exact ih
      · rw [List.filterMap_append, hnil, List.append_nil]
        exact ih
    | some p =>
      have hone : [b].filterMap f = [p] := by rw [List.filterMap_cons, hb, List.filterMap_nil]
      rw [hone, distinctPairs_snoc]
      by_cases hmem : b ∈ l
      · -- the pair of a repeat is there, or joins a thing to itself
        have hp : p ∈ pairs ++ l.filterMap f :=
          List.mem_append_right _ (List.mem_filterMap.mpr ⟨b, hmem, hb⟩)
        rw [if_pos hmem, ih, if_pos]
        by_cases hself : p.1 = p.2
        · exact Or.inl hself
        · exact Or.inr (mem_distinctPairs.mpr ⟨hp, hself⟩)
      · rw [if_neg hmem, List.filterMap_append, hone, ← List.append_assoc, distinctPairs_snoc, ih]

end Pairs

/-! ## The run -/

section Run

variable {rows : List TrackerRow} {tracker : ItemEndpoint} {trackerState : Option ItemState}
variable {resolve : TrackerRef → Option TrackerTarget} {r r' : TrackerRun}
variable {parents blocks : List (String × String)}

/-- The targets held are the ones the references resolve to, and a row that
was resolved is held. -/
structure TrackerRun.Resolved (rows : List TrackerRow) (resolve : TrackerRef → Option TrackerTarget)
    (r : TrackerRun) : Prop where
  held : ∀ i target, r.targets.get? i = some target → target = targetAt rows resolve i
  once : r.resolved.Nodup
  asked : ∀ i ∈ r.resolved, (r.targets.get? i).isSome ∧ (rows[i]?.bind (·.ref)).isSome

/-- The edges reported are of some pairs, those of blockers cut short. -/
structure TrackerRun.Accounts (rows : List TrackerRow) (tracker : ItemEndpoint)
    (trackerState : Option ItemState) (resolve : TrackerRef → Option TrackerTarget)
    (parents blocks : List (String × String)) (r : TrackerRun) : Prop where
  edges : ∀ e ∈ r.edges, TrackerEdge rows tracker trackerState resolve e
  parents : endsOfType .parent r.edges = distinctPairs parents
  blocks : endsOfType .blocks r.edges = (distinctPairs blocks).take trackerMaxBlocksEdges
  seen : ∀ type p, (type, p) ∈ r.seen ↔ p ∈ endsOfType type r.edges
  count : r.blocks = (endsOfType .blocks r.edges).length

/-- A row's target is looked up, and nothing else changes. -/
theorem TrackerRun.targetOf_spec (h : r.Resolved rows resolve) (i : ℕ) :
    (r.targetOf rows resolve i).1 = targetAt rows resolve i ∧
      (r.targetOf rows resolve i).2.Resolved rows resolve ∧
      (r.targetOf rows resolve i).2 = { r with
        targets := (r.targetOf rows resolve i).2.targets
        resolved := (r.targetOf rows resolve i).2.resolved } := by
  unfold TrackerRun.targetOf
  cases hget : r.targets.get? i with
  | some target => exact ⟨h.held i target hget, h, rfl⟩
  | none =>
    have hheld : ∀ target, target = targetAt rows resolve i → ∀ j t,
        (r.targets.set i target).get? j = some t → t = targetAt rows resolve j := by
      intro target htarget j t hj
      rw [OrdMap.get?_set] at hj
      split at hj
      · rename_i hij
        rw [← Option.some.inj hj, htarget, hij]
      · exact h.held j t hj
    have hkept : ∀ target, ∀ j ∈ r.resolved, ((r.targets.set i target).get? j).isSome := by
      intro target j hj
      rw [OrdMap.get?_set]
      split
      · rfl
      · exact (h.asked j hj).1
    -- a row with a reference is asked about once; any other has no target
    cases href : rows[i]?.bind (·.ref) with
    | some ref =>
      have htarget : resolve ref = targetAt rows resolve i := by
        unfold targetAt
        rw [href, Option.bind_some]
      have hnew : i ∉ r.resolved := by
        intro hi
        have := (h.asked i hi).1
        rw [hget] at this
        cases this
      refine ⟨htarget, ⟨hheld _ htarget, ?_, fun j hj => ?_⟩, rfl⟩
      · exact List.nodup_append.mpr ⟨h.once, List.nodup_singleton i, fun a ha b hb hab =>
          hnew (List.mem_singleton.mp hb ▸ hab ▸ ha)⟩
      · rcases List.mem_append.mp hj with hj | hj
        · exact ⟨hkept _ j hj, (h.asked j hj).2⟩
        · obtain rfl := List.mem_singleton.mp hj
          refine ⟨?_, Option.isSome_of_eq_some href⟩
          rw [OrdMap.get?_set, if_pos rfl]
          rfl
    | none =>
      have htarget : none = targetAt rows resolve i := by
        unfold targetAt
        rw [href, Option.bind_none]
      exact ⟨htarget, ⟨hheld _ htarget, h.once, fun j hj => ⟨hkept _ j hj, (h.asked j hj).2⟩⟩, rfl⟩

theorem endsOfType_snoc (type : EdgeType) (edges : List CanonicalEdge) (e : CanonicalEdge) :
    endsOfType type (edges ++ [e]) = endsOfType type edges ++
      if e.type = type then [(e.fromEnd.externalId, e.toEnd.externalId)] else [] := by
  unfold endsOfType
  rw [List.filter_append, List.map_append]
  by_cases h : e.type = type
  · rw [List.filter_cons_of_pos (by simpa using h), if_pos h]
    rfl
  · rw [List.filter_cons_of_neg (by simpa using h), if_neg h]
    rfl

/-- What is not about the targets stays as it was. -/
theorem TrackerRun.Accounts.of_same
    (h : r.Accounts rows tracker trackerState resolve parents blocks)
    (hsame : r' = { r with targets := r'.targets, resolved := r'.resolved }) :
    r'.Accounts rows tracker trackerState resolve parents blocks := by
  rw [hsame]
  exact ⟨h.edges, h.parents, h.blocks, h.seen, h.count⟩

/-- An edge is reported unless its ends are one, or are a pair of the type
already. -/
theorem TrackerRun.push_eq (h : r.Accounts rows tracker trackerState resolve parents blocks)
    (type : EdgeType) (fromId : String) (fromState : Option ItemState) (target : TrackerTarget) :
    r.push tracker type fromId fromState target =
      if fromId = target.externalId ∨ (fromId, target.externalId) ∈ endsOfType type r.edges then
        (false, r)
      else (true, { r with
        seen := r.seen ++ [(type, fromId, target.externalId)]
        edges := r.edges ++ [reportedEdge tracker type fromId fromState target] }) := by
  unfold TrackerRun.push
  simp only [h.seen]

/-- The edges and what has been seen go together. -/
theorem seen_snoc {seen : List (EdgeType × String × String)} {edges : List CanonicalEdge}
    (h : ∀ type p, (type, p) ∈ seen ↔ p ∈ endsOfType type edges) (e : CanonicalEdge) :
    ∀ type p, (type, p) ∈ seen ++ [(e.type, e.fromEnd.externalId, e.toEnd.externalId)] ↔
      p ∈ endsOfType type (edges ++ [e]) := by
  intro type p
  rw [endsOfType_snoc, List.mem_append, List.mem_append, h, List.mem_singleton]
  by_cases htype : e.type = type
  · rw [if_pos htype, List.mem_singleton, htype]
    simp
  · rw [if_neg htype]
    simp [Ne.symm htype]

theorem TrackerRun.Accounts.parent {i : ℕ} {target : TrackerTarget}
    (h : r.Accounts rows tracker trackerState resolve parents blocks)
    (htarget : targetAt rows resolve i = some target) :
    (r.push tracker .parent tracker.externalId trackerState target).2.Accounts rows tracker
      trackerState resolve (parents ++ [(tracker.externalId, target.externalId)]) blocks := by
  rw [TrackerRun.push_eq h, h.parents]
  split
  · rename_i hold
    refine ⟨h.edges, ?_, h.blocks, h.seen, h.count⟩
    rw [distinctPairs_snoc, if_pos hold, h.parents]
  · rename_i hnew
    refine ⟨fun e he => ?_, ?_, ?_,
      seen_snoc h.seen (reportedEdge tracker .parent tracker.externalId trackerState target), ?_⟩
    · rcases List.mem_append.mp he with he | he
      · exact h.edges e he
      · obtain rfl := List.mem_singleton.mp he
        exact ⟨i, target, htarget, rfl, rfl, Or.inl ⟨rfl, rfl, rfl⟩⟩
    · simp only
      rw [distinctPairs_snoc, if_neg hnew, endsOfType_snoc, h.parents]
      rfl
    · simp only
      rw [endsOfType_snoc, h.blocks, if_neg (by simp [reportedEdge]), List.append_nil]
    · simp only
      rw [endsOfType_snoc, if_neg (by simp [reportedEdge]), List.append_nil, h.count]

/-- With room left, the blockers reported are all of the pairs. -/
theorem TrackerRun.Accounts.uncut (h : r.Accounts rows tracker trackerState resolve parents blocks)
    (hroom : r.blocks < trackerMaxBlocksEdges) :
    endsOfType .blocks r.edges = distinctPairs blocks := by
  have hlength := h.count
  rw [h.blocks, List.length_take] at hlength
  rw [h.blocks, List.take_of_length_le (by omega)]

/-- Once there are enough edges, more pairs change nothing. -/
theorem TrackerRun.Accounts.full (h : r.Accounts rows tracker trackerState resolve parents blocks)
    (hfull : trackerMaxBlocksEdges ≤ r.blocks) (more : List (String × String)) :
    r.Accounts rows tracker trackerState resolve parents (blocks ++ more) := by
  have hlength := h.count
  rw [h.blocks, List.length_take] at hlength
  refine ⟨h.edges, h.parents, ?_, h.seen, h.count⟩
  rw [take_distinctPairs_append more (by omega), h.blocks]

/-- A blocker met: reported and counted, or there already. -/
theorem TrackerRun.Accounts.blocker {i dep : ℕ} {target blocker : TrackerTarget}
    (h : r.Accounts rows tracker trackerState resolve parents blocks)
    (hroom : r.blocks < trackerMaxBlocksEdges) (htarget : targetAt rows resolve i = some target)
    (hwaits : WaitsOn rows i dep) (hblocker : targetAt rows resolve dep = some blocker) :
    (r.push tracker .blocks blocker.externalId blocker.state target = (false, r) ∧
        r.Accounts rows tracker trackerState resolve parents
          (blocks ++ [(blocker.externalId, target.externalId)])) ∨
      ∃ r' : TrackerRun, r.push tracker .blocks blocker.externalId blocker.state target = (true, r') ∧
        r'.targets = r.targets ∧ r'.resolved = r.resolved ∧
        TrackerRun.Accounts rows tracker trackerState resolve parents
          (blocks ++ [(blocker.externalId, target.externalId)]) { r' with blocks := r'.blocks + 1 } := by
  rw [TrackerRun.push_eq h, h.uncut hroom]
  by_cases hold : blocker.externalId = target.externalId ∨
      (blocker.externalId, target.externalId) ∈ distinctPairs blocks
  · rw [if_pos hold]
    refine Or.inl ⟨rfl, h.edges, h.parents, ?_, h.seen, h.count⟩
    rw [distinctPairs_snoc, if_pos hold, h.blocks]
  · rw [if_neg hold]
    have hall := h.uncut hroom
    have hcount := h.count
    rw [hall] at hcount
    have hsnoc : distinctPairs (blocks ++ [(blocker.externalId, target.externalId)]) =
        distinctPairs blocks ++ [(blocker.externalId, target.externalId)] := by
      rw [distinctPairs_snoc, if_neg hold]
    refine Or.inr ⟨_, rfl, rfl, rfl, fun e he => ?_, ?_, ?_,
      seen_snoc h.seen (reportedEdge tracker .blocks blocker.externalId blocker.state target), ?_⟩
    · rcases List.mem_append.mp he with he | he
      · exact h.edges e he
      · obtain rfl := List.mem_singleton.mp he
        exact ⟨i, target, htarget, rfl, rfl,
          Or.inr ⟨rfl, dep, blocker, hwaits, hblocker, rfl, rfl⟩⟩
    · simp only
      rw [endsOfType_snoc, if_neg (by simp [reportedEdge]), List.append_nil, h.parents]
    · simp only
      rw [endsOfType_snoc, hall, hsnoc, List.take_of_length_le]
      · rfl
      · rw [List.length_append, List.length_singleton]
        omega
    · simp only
      rw [endsOfType_snoc, hall, List.length_append, hcount]
      rfl

/-- **The blockers of one issue are reported in order**, up to the bound. -/
theorem TrackerRun.accounts_addBlockers {i : ℕ} {target : TrackerTarget} {deps : List ℕ}
    (hr : r.Resolved rows resolve)
    (h : r.Accounts rows tracker trackerState resolve parents blocks)
    (hroom : r.blocks < trackerMaxBlocksEdges) (htarget : targetAt rows resolve i = some target)
    (hdeps : ∀ dep ∈ deps, WaitsOn rows i dep) :
    (r.addBlockers rows tracker resolve target deps).Resolved rows resolve ∧
      (r.addBlockers rows tracker resolve target deps).Accounts rows tracker trackerState resolve
        parents (blocks ++ deps.filterMap (dependencyPair rows resolve target)) := by
  induction deps generalizing r blocks with
  | nil =>
    rw [List.filterMap_nil, List.append_nil]
    exact ⟨hr, h⟩
  | cons dep deps ih =>
    obtain ⟨hwaits, hdeps⟩ := List.forall_mem_cons.mp hdeps
    obtain ⟨hfound, hresolved, hsame⟩ := TrackerRun.targetOf_spec hr dep
    have haccounts := h.of_same hsame
    unfold TrackerRun.addBlockers
    rw [List.filterMap_cons]
    unfold dependencyPair at ih ⊢
    generalize r.targetOf rows resolve dep = out at hfound hresolved hsame haccounts ⊢
    obtain ⟨found, r⟩ := out
    simp only at hfound hresolved hsame haccounts
    have hroom : r.blocks < trackerMaxBlocksEdges := by
      rw [hsame]
      exact hroom
    rw [← hfound]
    cases found with
    | none => exact ih hresolved haccounts hroom hdeps
    | some blocker =>
      simp only [Option.map_some]
      rw [← List.singleton_append, ← List.append_assoc]
      -- the edge is there already, or it is added and counted
      rcases haccounts.blocker hroom htarget hwaits hfound.symm with
        ⟨hpush, hnext⟩ | ⟨r', hpush, htargets, hsolved, hnext⟩
      · rw [hpush]
        exact ih hresolved hnext hroom hdeps
      · rw [hpush]
        have hresolved' : TrackerRun.Resolved rows resolve { r' with blocks := r'.blocks + 1 } :=
          ⟨htargets ▸ hresolved.held, hsolved ▸ hresolved.once, by
            simp only [htargets, hsolved]
            exact hresolved.asked⟩
        simp only
        split
        · rename_i hfull
          exact ⟨hresolved', hnext.full hfull _⟩
        · rename_i hleft
          exact ih hresolved' hnext (by simpa using hleft) hdeps

theorem TrackerRun.accounts_start :
    TrackerRun.start.Resolved rows resolve ∧
      TrackerRun.start.Accounts rows tracker trackerState resolve [] [] := by
  constructor
  · exact { held := fun i target h => absurd h (Option.some_ne_none _).symm
            once := List.nodup_nil
            asked := fun i hi => absurd hi List.not_mem_nil }
  · exact { edges := fun e he => absurd he List.not_mem_nil
            parents := rfl
            blocks := rfl
            seen := fun type p => iff_of_false List.not_mem_nil List.not_mem_nil
            count := rfl }

/-- **One row adds its pairs.** -/
theorem TrackerRun.accounts_visitRow (hr : r.Resolved rows resolve)
    (h : r.Accounts rows tracker trackerState resolve parents blocks) (i : ℕ) :
    ∃ r', r.visitRow rows tracker trackerState resolve i = some r' ∧ r'.Resolved rows resolve ∧
      r'.Accounts rows tracker trackerState resolve
        (parents ++ ((targetAt rows resolve i).map fun target =>
          (tracker.externalId, target.externalId)).toList)
        (blocks ++ dependenciesAt rows resolve i) := by
  obtain ⟨hfound, hresolved, hsame⟩ := TrackerRun.targetOf_spec hr i
  have haccounts := h.of_same hsame
  unfold TrackerRun.visitRow dependenciesAt
  generalize r.targetOf rows resolve i = out at hfound hresolved haccounts ⊢
  obtain ⟨found, r⟩ := out
  simp only at hfound hresolved haccounts
  rw [← hfound]
  cases found with
  | none =>
    refine ⟨r, rfl, hresolved, ?_⟩
    simpa using haccounts
  | some target =>
    have hparent := haccounts.parent hfound.symm
    have hresolved' : (r.push tracker .parent tracker.externalId trackerState target).2.Resolved rows
        resolve := by
      unfold TrackerRun.push
      simp only
      split
      · exact hresolved
      · exact ⟨hresolved.held, hresolved.once, hresolved.asked⟩
    simp only [Option.map_some, Option.toList_some]
    generalize (r.push tracker .parent tracker.externalId trackerState target).2 = r'
      at hparent hresolved' ⊢
    split
    · rename_i hfull
      exact ⟨r', rfl, hresolved', hparent.full hfull _⟩
    · rename_i hroom
      rw [prerequisites_eq]
      have hdeps : ∀ dep ∈ (waitsOn rows i).eraseDups, WaitsOn rows i dep := fun dep hdep =>
        mem_waitsOn.mp (List.mem_eraseDups.mp hdep)
      obtain ⟨hdone, hpairs⟩ := TrackerRun.accounts_addBlockers hresolved' hparent
        (Nat.lt_of_not_le hroom) hfound.symm hdeps
      refine ⟨_, rfl, hdone, hpairs.edges, hpairs.parents, ?_, hpairs.seen, hpairs.count⟩
      rw [hpairs.blocks, distinctPairs_eraseDups]

/-- A part of the table adds the pairs of its rows. -/
theorem TrackerRun.accounts_foldlM (hr : r.Resolved rows resolve)
    (h : r.Accounts rows tracker trackerState resolve parents blocks) (is : List ℕ) :
    ∃ r', is.foldlM (TrackerRun.visitRow rows tracker trackerState resolve) r = some r' ∧
      r'.Resolved rows resolve ∧ r'.Accounts rows tracker trackerState resolve
        (parents ++ is.filterMap fun i => (targetAt rows resolve i).map fun target =>
          (tracker.externalId, target.externalId))
        (blocks ++ is.flatMap (dependenciesAt rows resolve)) := by
  induction is generalizing r parents blocks with
  | nil =>
    refine ⟨r, rfl, hr, ?_⟩
    simpa using h
  | cons i is ih =>
    obtain ⟨r', hr', hresolved, haccounts⟩ := TrackerRun.accounts_visitRow hr h i
    obtain ⟨r'', hr'', hresolved', haccounts'⟩ := ih hresolved haccounts
    refine ⟨r'', ?_, hresolved', ?_⟩
    · rw [List.foldlM_cons, hr']
      exact hr''
    · rw [List.append_assoc, List.append_assoc] at haccounts'
      rw [List.flatMap_cons]
      cases htarget : targetAt rows resolve i with
      | none =>
        rw [List.filterMap_cons_none (by rw [htarget]; rfl)]
        rw [htarget] at haccounts'
        exact haccounts'
      | some target =>
        rw [List.filterMap_cons_some (by rw [htarget]; rfl)]
        rw [htarget] at haccounts'
        exact haccounts'

/-- The walk over the table ends, and accounts for it. -/
theorem yields_of_trackerEdges (rows : List TrackerRow) (tracker : ItemEndpoint)
    (trackerState : Option ItemState) (resolve : TrackerRef → Option TrackerTarget) :
    ∃ r, trackerEdges rows tracker trackerState resolve = some r ∧
      YieldsTrackerEdges rows tracker trackerState resolve r := by
  obtain ⟨hresolved, haccounts⟩ :=
    @TrackerRun.accounts_start rows tracker trackerState resolve
  obtain ⟨r, hr, hdone, hpairs⟩ :=
    TrackerRun.accounts_foldlM hresolved haccounts (List.range rows.length)
  exact ⟨r, hr, hpairs.edges, hpairs.parents, hpairs.blocks, hdone.once,
    fun i hi => (hdone.asked i hi).2⟩

theorem mem_dependencyPairs {blocker dependent : String} :
    (blocker, dependent) ∈ dependencyPairs rows resolve ↔
      ∃ i dep target target', targetAt rows resolve i = some target ∧ WaitsOn rows i dep ∧
        targetAt rows resolve dep = some target' ∧
        blocker = target'.externalId ∧ dependent = target.externalId := by
  unfold dependencyPairs
  rw [List.mem_flatMap]
  constructor
  · rintro ⟨i, -, hpair⟩
    unfold dependenciesAt at hpair
    cases htarget : targetAt rows resolve i with
    | none =>
      rw [htarget] at hpair
      cases hpair
    | some target =>
      rw [htarget] at hpair
      obtain ⟨dep, hdep, hmap⟩ := List.mem_filterMap.mp hpair
      obtain ⟨target', htarget', hends⟩ := Option.map_eq_some_iff.mp hmap
      obtain ⟨rfl, rfl⟩ := Prod.mk.inj hends
      exact ⟨i, dep, target, target', htarget, mem_waitsOn.mp hdep, htarget', rfl, rfl⟩
  · rintro ⟨i, dep, target, target', htarget, hwaits, htarget', rfl, rfl⟩
    have hrow : i < rows.length := by
      by_contra hbeyond
      have hnone : rows[i]? = none := List.getElem?_eq_none (Nat.le_of_not_lt hbeyond)
      unfold targetAt at htarget
      rw [hnone] at htarget
      cases htarget
    refine ⟨i, List.mem_range.mpr hrow, ?_⟩
    unfold dependenciesAt
    rw [htarget]
    refine List.mem_filterMap.mpr ⟨dep, mem_waitsOn.mpr hwaits, ?_⟩
    unfold dependencyPair
    rw [htarget', Option.map_some]

end Run

/-- **What a tracker's table yields**, whatever its rows and whatever the
references resolve to: the parents of the distinct issues in it, and the first
of the dependencies between them, each once and none of an issue on itself. A
dependency is one through any rows that name no issue. -/
theorem trackerEdges_spec (rows : List TrackerRow) (tracker : ItemEndpoint)
    (trackerState : Option ItemState) (resolve : TrackerRef → Option TrackerTarget) :
    ∃ r, trackerEdges rows tracker trackerState resolve = some r ∧
      YieldsTrackerEdges rows tracker trackerState resolve r ∧
      ∀ blocker dependent, (blocker, dependent) ∈ dependencyPairs rows resolve ↔
        ∃ i dep target target', targetAt rows resolve i = some target ∧ WaitsOn rows i dep ∧
          targetAt rows resolve dep = some target' ∧
          blocker = target'.externalId ∧ dependent = target.externalId := by
  obtain ⟨r, hr, hyields⟩ := yields_of_trackerEdges rows tracker trackerState resolve
  exact ⟨r, hr, hyields, fun blocker dependent => mem_dependencyPairs⟩

end SymphonyBoard
