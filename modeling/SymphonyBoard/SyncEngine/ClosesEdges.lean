import SymphonyBoard.Common.Run
import SymphonyBoard.SyncEngine.Writes
/-!
# Stored `closes` edges and stored items

The engine refines an edge's endpoint states from the items of the same
run, but only for edges some item of that run reported. An edge nobody
re-reported keeps the states it has, also when one of its items was
fetched in a new state. `closesConsistent_run_iff` says exactly which runs
keep every stored `closes` edge in step with its items.
-/

namespace SymphonyBoard

variable {P : Type}

namespace Store

/-- The state of a live stored item. -/
def liveState (s : Store P) (k : ItemEndpoint) : Option ItemState :=
  ((s.items.get? k).filter fun row => row.deletedAt.isNone).map (·.item.state)

/-- A live stored edge. -/
def liveEdge (s : Store P) (k : EdgeRowKey) : Option EdgeRow :=
  (s.edges.get? k).filter fun row => row.deletedAt.isNone

/-- Every live `closes` edge between live items carries the states of
those items, and their lifecycle. -/
def ClosesConsistent (s : Store P) : Prop :=
  ∀ a b row x y, s.liveEdge (.closes, a, b) = some row → s.liveState a = some x →
    s.liveState b = some y →
    row.fromState = some x ∧ row.toState = some y ∧
      row.lifecycle = deriveLifecycle .closes (some x) (some y)

/-- Every stored edge has the lifecycle of the states it carries. -/
def LifecycleDerived (s : Store P) : Prop :=
  ∀ k row, s.edges.get? k = some row → row.lifecycle = deriveLifecycle k.1 row.fromState row.toState

end Store

/-- The arguments of one `syncSource` call. -/
structure RunInput (P : Type) where
  source : Source P
  prevWatermark : Option String
  opts : SyncOptions
  env : RunEnv

/-- One run of `syncSource`, on the store alone. -/
def syncStep (s : Store P) (r : RunInput P) : Store P :=
  (syncSource s r.source r.prevWatermark r.opts r.env).1

section Condition

variable (s : Store P) (source : Source P) (opts : SyncOptions) (env : RunEnv)
  (result : FetchResult P) (bundles : List NormalizedBundle)

/-- The state an item has for this run: as fetched last, or else as
stored, where the stored row is live and the sweep leaves it alone. -/
inductive StateFor (k : ItemEndpoint) : ItemState → Prop
  | fetched (i : CanonicalItem) (h : lastItem bundles k = some i) : StateFor k i.state
  | stored (row : ItemRow) (hnone : lastItem bundles k = none) (h : s.items.get? k = some row)
      (hlive : row.deletedAt = none) (hkept : KeepsItem source opts env result k row.lastSeenAt) :
      StateFor k row.item.state

/-- The reports of one `closes` edge in this run. -/
def closesReports (a b : ItemEndpoint) : List (CanonicalEdge × EdgeReporter) :=
  reportsOf (discovered bundles) (.closes, refOfEndpoint a, refOfEndpoint b)

/-- A `closes` edge that the run does not report, but keeps, between items
that are live for the run. -/
structure LeftAsStored (a b : ItemEndpoint) (row : EdgeRow) (x y : ItemState) : Prop where
  unreported : closesReports bundles a b = []
  stored : s.edges.get? (.closes, a, b) = some row
  live : row.deletedAt = none
  kept : KeepsEdge source opts env result (.closes, a, b) row.lastSeenAt
  fromState : StateFor s source opts env result bundles a x
  toState : StateFor s source opts env result bundles b y

/-- What a run must fetch for the stored `closes` edges to stay in step.
Of an edge it does not report, an end that it fetches has the state the
edge carries already (`refetched`), and so has an end it does not fetch
when the other end was not live before (`revived`). An edge it reports
is reported with the stored state of an end it does not fetch. -/
structure FetchesClosesEnds : Prop where
  refetched : ∀ a b row x y, LeftAsStored s source opts env result bundles a b row x y →
    (lastItem bundles a ≠ none → row.fromState = some x) ∧
    (lastItem bundles b ≠ none → row.toState = some y)
  revived : ∀ a b row x y, LeftAsStored s source opts env result bundles a b row x y →
    (lastItem bundles a = none → s.liveState b = none → row.fromState = some x) ∧
    (lastItem bundles b = none → s.liveState a = none → row.toState = some y)
  reported : ∀ a b x y, closesReports bundles a b ≠ [] →
    StateFor s source opts env result bundles a x →
    StateFor s source opts env result bundles b y →
    (lastItem bundles a = none → firstFromState (closesReports bundles a b) = some x) ∧
    (lastItem bundles b = none → firstToState (closesReports bundles a b) = some y)

end Condition

/-- The condition on a run, whatever becomes of it: only a committed run
writes edges and items. -/
def RunFetchesClosesEnds (s : Store P) (r : RunInput P) : Prop :=
  ∀ result bundles, Commits s r.source r.prevWatermark r.opts r.env result bundles →
    FetchesClosesEnds s r.source r.opts r.env result bundles

/-! ## One run -/

section Step

variable (s : Store P) (source : Source P) (opts : SyncOptions) (env : RunEnv)
  (result : FetchResult P) (bundles : List NormalizedBundle)

/-- **The live items after a run**: those seen in it, and the stored ones
the sweep leaves alone. -/
theorem liveState_commitRun (k : ItemEndpoint) (x : ItemState) :
    (commitRun s source opts env result bundles).liveState k = some x ↔
      StateFor s source opts env result bundles k x := by
  simp only [Store.liveState, commitRun_items, Option.map_eq_some_iff, Option.filter_eq_some_iff,
    Option.isNone_iff_eq_none]
  constructor
  · rintro ⟨row, ⟨⟨row', hrow', hswept⟩, hlive⟩, rfl⟩
    obtain ⟨rfl, -, hkept⟩ := (sweptItemRow_live source opts env result).mp ⟨hswept, hlive⟩
    cases hl : lastItem bundles k with
    | some i =>
      rw [hl, Option.map_some, Option.some_or] at hrow'
      obtain rfl := Option.some.inj hrow'
      exact .fetched i hl
    | none =>
      rw [hl, Option.map_none, Option.none_or] at hrow'
      exact .stored row' hl hrow' hlive hkept
  · rintro (⟨i, hl⟩ | ⟨row, hl, hrow, hlive, hkept⟩)
    · have hkept : KeepsItem source opts env result k (itemRow source env.startedAt i).lastSeenAt :=
        keepsItem_startedAt source opts env result k
      have hswept := (sweptItemRow_live source opts env result).mpr ⟨rfl, rfl, hkept⟩
      exact ⟨itemRow source env.startedAt i, ⟨⟨_, by rw [hl]; rfl, hswept.1⟩, rfl⟩, rfl⟩
    · have hswept := (sweptItemRow_live source opts env result).mpr ⟨rfl, hlive, hkept⟩
      exact ⟨row, ⟨⟨row, by rw [hl, hrow]; rfl, hswept.1⟩, hlive⟩, rfl⟩

theorem refinedAt_eq_none_iff {a b : ItemEndpoint} :
    refinedAt bundles (.closes, a, b) = none ↔ closesReports bundles a b = [] := by
  rw [refinedAt, Option.map_eq_none_iff, closesReports]
  rcases reconcileMap_get? (discovered bundles) (.closes, refOfEndpoint a, refOfEndpoint b) with
    ⟨hnone, hnil⟩ | ⟨e, he, hne, -⟩
  · simp [hnone, hnil]
  · simp [he, hne]

/-- An edge not reported in a run is live after it if it was live and the
sweep leaves it alone, with the row it had. -/
theorem liveEdge_commitRun_unreported {a b : ItemEndpoint} (h : closesReports bundles a b = [])
    (row : EdgeRow) :
    (commitRun s source opts env result bundles).liveEdge (.closes, a, b) = some row ↔
      s.edges.get? (.closes, a, b) = some row ∧ row.deletedAt = none ∧
        KeepsEdge source opts env result (.closes, a, b) row.lastSeenAt := by
  rw [Store.liveEdge, commitRun_edges, (refinedAt_eq_none_iff bundles).mpr h]
  simp only [Option.map_none, Option.none_or, Option.filter_eq_some_iff, Option.map_eq_some_iff,
    Option.isNone_iff_eq_none]
  constructor
  · rintro ⟨⟨row', hrow, hswept⟩, hlive⟩
    obtain ⟨rfl, -, hkept⟩ := (sweptEdgeRow_live source opts env result).mp ⟨hswept, hlive⟩
    exact ⟨hrow, hlive, hkept⟩
  · rintro ⟨hrow, hlive, hkept⟩
    have hswept := (sweptEdgeRow_live source opts env result).mpr ⟨rfl, hlive, hkept⟩
    exact ⟨⟨row, hrow, hswept.1⟩, hlive⟩

/-- An edge reported in a run carries each end's fetched state, or else
the first state reported for it. -/
theorem liveEdge_commitRun_reported {a b : ItemEndpoint} (h : closesReports bundles a b ≠ []) :
    ∃ row, (commitRun s source opts env result bundles).liveEdge (.closes, a, b) = some row ∧
      row.fromState = ((lastItem bundles a).map (·.state)).or
        (firstFromState (closesReports bundles a b)) ∧
      row.toState = ((lastItem bundles b).map (·.state)).or
        (firstToState (closesReports bundles a b)) := by
  rcases reconcileMap_get? (discovered bundles) (.closes, refOfEndpoint a, refOfEndpoint b) with
    ⟨-, hnil⟩ | ⟨e, he, -, hm⟩
  · exact absurd hnil h
  · have href : refinedAt bundles (.closes, a, b) =
        some (refineEdge (stateByRef bundles) e) := by
      rw [refinedAt]
      simp only [he, Option.map_some]
    have hkey := hm.key
    simp only [keyOf, Prod.mk.injEq] at hkey
    let row := edgeRow env.startedAt (refineEdge (stateByRef bundles) e)
      (s.edges.get? (.closes, a, b))
    refine ⟨row, ?_, ?_, ?_⟩
    · have hkept : KeepsEdge source opts env result (.closes, a, b) row.lastSeenAt :=
        keepsEdge_startedAt source opts env result (.closes, a, b)
      have hswept := (sweptEdgeRow_live source opts env result).mpr ⟨rfl, rfl, hkept⟩
      rw [Store.liveEdge, commitRun_edges, href, Option.filter_eq_some_iff]
      exact ⟨congrArg some hswept.1, rfl⟩
    · rw [closesReports, ← hm.fromState, ← stateByRef_get?, ← hkey.2.1]
      rfl
    · rw [closesReports, ← hm.toState, ← stateByRef_get?, ← hkey.2.2]
      rfl

/-- Every edge a run writes has the lifecycle of its states. -/
theorem lifecycleDerived_commitRun (h : s.LifecycleDerived) :
    (commitRun s source opts env result bundles).LifecycleDerived := by
  intro k row hrow
  rw [commitRun_edges] at hrow
  obtain ⟨row', hrow', rfl⟩ := Option.map_eq_some_iff.mp hrow
  have hrow'' : row'.lifecycle = deriveLifecycle k.1 row'.fromState row'.toState := by
    cases hr : refinedAt bundles k with
    | none =>
      rw [hr, Option.map_none, Option.none_or] at hrow'
      exact h k row' hrow'
    | some e =>
      rw [hr, Option.map_some, Option.some_or] at hrow'
      obtain rfl := Option.some.inj hrow'
      have hmem : e ∈ (refinedEdges bundles).filter fun e => e.rowKey = k := by
        rw [filter_refinedEdges, hr]
        simp
      obtain ⟨hmem, hkey⟩ := List.mem_filter.mp hmem
      obtain ⟨e', -, rfl⟩ := List.mem_map.mp hmem
      obtain rfl := of_decide_eq_true hkey
      rfl
  unfold sweptEdgeRow
  split
  · exact hrow''
  · exact hrow''

end Step

section Condition

variable {s : Store P} {source : Source P} {opts : SyncOptions} {env : RunEnv}
  {result : FetchResult P} {bundles : List NormalizedBundle}

/-- An end's fetched state, or else what stands in for it. -/
theorem StateFor.or_eq {k : ItemEndpoint} {x : ItemState} {other : Option ItemState}
    (h : StateFor s source opts env result bundles k x)
    (hother : lastItem bundles k = none → other = some x) :
    ((lastItem bundles k).map (·.state)).or other = some x := by
  rcases h with ⟨i, hi⟩ | ⟨row, hnone, -, -, -⟩
  · rw [hi]
    rfl
  · rw [hnone]
    exact hother hnone

/-- An item that is not fetched is live for the run only as it was live
before. -/
theorem StateFor.liveState {k : ItemEndpoint} {x : ItemState}
    (h : StateFor s source opts env result bundles k x) (hnone : lastItem bundles k = none) :
    s.liveState k = some x := by
  rcases h with ⟨i, hi⟩ | ⟨row, -, hrow, hlive, -⟩
  · rw [hnone] at hi
    cases hi
  · simp [Store.liveState, hrow, hlive]

/-- An edge left as stored carries the states its ends have for the run,
when the run fetches what it must. -/
theorem leftAsStored_states (hc : s.ClosesConsistent)
    (h : FetchesClosesEnds s source opts env result bundles) {a b : ItemEndpoint} {row : EdgeRow}
    {x y : ItemState} (hs : LeftAsStored s source opts env result bundles a b row x y) :
    row.fromState = some x ∧ row.toState = some y := by
  obtain ⟨hfa, hfb⟩ := h.refetched a b row x y hs
  obtain ⟨hra, hrb⟩ := h.revived a b row x y hs
  have hedge : s.liveEdge (.closes, a, b) = some row := by
    simp [Store.liveEdge, hs.stored, hs.live]
  constructor
  · by_cases ha : lastItem bundles a = none
    · cases hb : s.liveState b with
      | none => exact hra ha hb
      | some y' => exact (hc a b row x y' hedge (hs.fromState.liveState ha) hb).1
    · exact hfa ha
  · by_cases hb : lastItem bundles b = none
    · cases ha : s.liveState a with
      | none => exact hrb hb ha
      | some x' => exact (hc a b row x' y hedge ha (hs.toState.liveState hb)).2.1
    · exact hfb hb

end Condition

/-- **One committed run keeps the edges in step exactly if it fetches what
`FetchesClosesEnds` asks for.** -/
theorem closesConsistent_commitRun_iff {s : Store P} {source : Source P} {opts : SyncOptions}
    {env : RunEnv} {result : FetchResult P} {bundles : List NormalizedBundle}
    (hl : s.LifecycleDerived) (hc : s.ClosesConsistent) :
    (commitRun s source opts env result bundles).ClosesConsistent ↔
      FetchesClosesEnds s source opts env result bundles := by
  have hl' := lifecycleDerived_commitRun s source opts env result bundles hl
  constructor
  · intro h
    refine ⟨?_, ?_, ?_⟩
    · intro a b row x y hs
      have hrow := (liveEdge_commitRun_unreported s source opts env result bundles
        hs.unreported row).mpr ⟨hs.stored, hs.live, hs.kept⟩
      obtain ⟨hf, ht, -⟩ := h a b row x y hrow
        ((liveState_commitRun s source opts env result bundles a x).mpr hs.fromState)
        ((liveState_commitRun s source opts env result bundles b y).mpr hs.toState)
      exact ⟨fun _ => hf, fun _ => ht⟩
    · intro a b row x y hs
      have hrow := (liveEdge_commitRun_unreported s source opts env result bundles
        hs.unreported row).mpr ⟨hs.stored, hs.live, hs.kept⟩
      obtain ⟨hf, ht, -⟩ := h a b row x y hrow
        ((liveState_commitRun s source opts env result bundles a x).mpr hs.fromState)
        ((liveState_commitRun s source opts env result bundles b y).mpr hs.toState)
      exact ⟨fun _ _ => hf, fun _ _ => ht⟩
    · intro a b x y hr hx hy
      obtain ⟨row, hrow, hfrom, hto⟩ :=
        liveEdge_commitRun_reported s source opts env result bundles hr
      obtain ⟨hf, ht, -⟩ := h a b row x y hrow
        ((liveState_commitRun s source opts env result bundles a x).mpr hx)
        ((liveState_commitRun s source opts env result bundles b y).mpr hy)
      constructor
      · intro hnone
        rw [hnone, Option.map_none, Option.none_or] at hfrom
        exact hfrom.symm.trans hf
      · intro hnone
        rw [hnone, Option.map_none, Option.none_or] at hto
        exact hto.symm.trans ht
  · intro h a b row x y hrow hx hy
    have hx := (liveState_commitRun s source opts env result bundles a x).mp hx
    have hy := (liveState_commitRun s source opts env result bundles b y).mp hy
    -- the lifecycle follows from the states
    suffices hst : row.fromState = some x ∧ row.toState = some y by
      have hstored := (Option.filter_eq_some_iff.mp hrow).1
      refine ⟨hst.1, hst.2, ?_⟩
      rw [hl' _ row hstored, hst.1, hst.2]
    by_cases hr : closesReports bundles a b = []
    · obtain ⟨hstored, hlive, hkept⟩ :=
        (liveEdge_commitRun_unreported s source opts env result bundles hr row).mp hrow
      have hs : LeftAsStored s source opts env result bundles a b row x y :=
        ⟨hr, hstored, hlive, hkept, hx, hy⟩
      exact leftAsStored_states hc h hs
    · obtain ⟨row', hrow', hfrom, hto⟩ :=
        liveEdge_commitRun_reported s source opts env result bundles hr
      obtain rfl : row' = row := Option.some.inj (hrow'.symm.trans hrow)
      obtain ⟨hfa, hfb⟩ := h.reported a b x y hr hx hy
      exact ⟨hfrom.trans (hx.or_eq hfa), hto.trans (hy.or_eq hfb)⟩

/-- A run that does not commit leaves edges and items alone. -/
theorem syncStep_cases (s : Store P) (r : RunInput P) :
    (∃ result bundles, Commits s r.source r.prevWatermark r.opts r.env result bundles ∧
      syncStep s r = commitRun s r.source r.opts r.env result bundles) ∨
    ((¬ ∃ result bundles, Commits s r.source r.prevWatermark r.opts r.env result bundles) ∧
      (syncStep s r).items = s.items ∧ (syncStep s r).edges = s.edges) := by
  rcases syncSource_cases s r.source r.prevWatermark r.opts r.env with
    ⟨result, bundles, hcom, heq⟩ | ⟨hno, ⟨msg, heq⟩ | heq⟩
  · exact Or.inl ⟨result, bundles, hcom, heq⟩
  · right
    rw [syncStep, heq]
    exact ⟨hno, recordFailedRun_frame s r.source r.opts r.env msg⟩
  · right
    rw [syncStep, heq]
    exact ⟨hno, rfl, rfl⟩

theorem lifecycleDerived_syncStep (s : Store P) (r : RunInput P) (h : s.LifecycleDerived) :
    (syncStep s r).LifecycleDerived := by
  rcases syncStep_cases s r with ⟨result, bundles, -, heq⟩ | ⟨-, -, hedges⟩
  · rw [heq]
    exact lifecycleDerived_commitRun s r.source r.opts r.env result bundles h
  · intro k row hrow
    rw [hedges] at hrow
    exact h k row hrow

/-- Two runs of one store and source cannot commit different fetches. -/
theorem Commits.unique {s : Store P} {source : Source P} {prevWatermark : Option String}
    {opts : SyncOptions} {env : RunEnv} {result result' : FetchResult P}
    {bundles bundles' : List NormalizedBundle}
    (h : Commits s source prevWatermark opts env result bundles)
    (h' : Commits s source prevWatermark opts env result' bundles') :
    result = result' ∧ bundles = bundles' := by
  obtain rfl : result = result' := Except.ok.inj (h.fetched.symm.trans h'.fetched)
  exact ⟨rfl, Except.ok.inj (h.normalized.symm.trans h'.normalized)⟩

theorem closesConsistent_syncStep_iff (s : Store P) (r : RunInput P) (hl : s.LifecycleDerived)
    (hc : s.ClosesConsistent) :
    (syncStep s r).ClosesConsistent ↔ RunFetchesClosesEnds s r := by
  rcases syncStep_cases s r with ⟨result, bundles, hcom, heq⟩ | ⟨hno, hitems, hedges⟩
  · rw [heq, closesConsistent_commitRun_iff hl hc]
    constructor
    · intro h result' bundles' hcom'
      obtain ⟨rfl, rfl⟩ := hcom.unique hcom'
      exact h
    · intro h
      exact h result bundles hcom
  · constructor
    · intro _ result bundles hcom
      exact absurd ⟨result, bundles, hcom⟩ hno
    · intro _ a b row x y hrow hx hy
      rw [Store.liveEdge, hedges] at hrow
      rw [Store.liveState, hitems] at hx hy
      exact hc a b row x y hrow hx hy

/-- **Which runs keep stored `closes` edges in step.** From an empty store,
every state of a run of syncs has its live `closes` edges in step with its
live items exactly if every sync of the run fetches what
`FetchesClosesEnds` asks for. -/
theorem closesConsistent_run_iff (driver : Driver) (runs : List (RunInput P)) :
    Always syncStep Store.ClosesConsistent (Store.empty driver) runs ↔
      EachStep syncStep RunFetchesClosesEnds (Store.empty driver) runs := by
  refine always_iff_eachStep lifecycleDerived_syncStep closesConsistent_syncStep_iff ?_ ?_
  · intro k row hrow
    cases hrow
  · intro a b row x y hrow
    cases hrow

/-! ## An edge left behind -/

namespace StaleEdge

/-- A GitLab source. -/
def sourceId : SourceId := ⟨"gitlab:gitlab.com", noBarGitlab⟩

/-- The merge request. -/
def mr : ItemEndpoint := ⟨sourceId, "gid://gitlab/MergeRequest/7"⟩

/-- The issue it closes. -/
def issue : ItemEndpoint := ⟨sourceId, "gid://gitlab/Issue/3"⟩

/-- An item in one of its states. -/
def item (e : ItemEndpoint) (kind : ItemKind) (state : ItemState) : CanonicalItem :=
  { sourceId := e.sourceId, externalId := e.externalId, kind, projectPath := some "group/project",
    iid := none, url := "", title := none, state, stateRaw := none, isDraft := none,
    author := none, createdAt := none, updatedAt := none, closedAt := none, mergedAt := none,
    reviewState := none, ciState := none, mergeState := none, openReviewThreads := none,
    totalReviewThreads := none, commentTotal := none, demand := 0 }

/-- The merge request as the normalizer reads it: GitLab exposes the
closing link from the issue only. -/
def mrBundle (state : ItemState) : NormalizedBundle :=
  { item := some (item mr .changeRequest state), labels := [], edges := [], activities := [],
    reviewThreads := [] }

/-- The issue, which reports that the merge request closes it. -/
def issueBundle (mrState issueState : ItemState) : NormalizedBundle :=
  { item := some (item issue .issue issueState), labels := [],
    edges := [{ type := .closes, fromEnd := mr, toEnd := issue, fromState := some mrState,
                toState := some issueState }],
    activities := [], reviewThreads := [] }

/-- A record whose payload is its bundle. -/
def record (b : NormalizedBundle) (kind : EntityKind) : RawRecord NormalizedBundle :=
  { entityKind := kind, externalId := ((b.item.map (·.externalId)).getD ""), apiVersion := none,
    fetchedAt := "", payload := b }

/-- A source that answers with some records, whose payloads are bundles. -/
def source (records : List (RawRecord NormalizedBundle)) : Source NormalizedBundle :=
  { descriptor := { sourceId, kind := "gitlab", host := "gitlab.com", displayName := none }
    normalizerVersion := "gitlab/13"
    fetch := fun _ => .ok { records, watermark := none, complete := true, error := none }
    fetchRefresh := none
    normalize := fun r => .ok (some r.payload) }

/-- A run that fetches these records. -/
def run (full : Bool) (startedAt : String) (records : List (RawRecord NormalizedBundle)) :
    RunInput NormalizedBundle :=
  { source := source records
    prevWatermark := none
    opts := { full, dryRun := false, ciRefreshGraceMs := none, ciRefreshLimit := none }
    env := { startedAt, sweepAt := startedAt, finishedAt := startedAt, txError := none } }

/-- A full sweep sees both open; then the merge request is merged, and an
incremental run fetches it alone. -/
def runs : List (RunInput NormalizedBundle) :=
  [run true "2026-06-01T00:00:00.000Z"
     [record (mrBundle .opened) .changeRequest, record (issueBundle .opened .opened) .issue],
   run false "2026-06-01T01:00:00.000Z" [record (mrBundle .merged) .changeRequest]]

end StaleEdge

open StaleEdge in
/-- **An incremental run can leave an edge behind.** The merge request is
stored merged, and its edge still says open. -/
theorem not_closesConsistent_run :
    ¬ ∀ runs : List (RunInput NormalizedBundle),
      Always syncStep Store.ClosesConsistent (Store.empty .sqlite) runs := by
  intro h
  have hlast := (h StaleEdge.runs).last
  have hmr : (runs.foldl syncStep (Store.empty .sqlite)).liveState mr = some .merged := by decide
  have hissue : (runs.foldl syncStep (Store.empty .sqlite)).liveState issue = some .opened := by
    decide
  have hedge : ((runs.foldl syncStep (Store.empty .sqlite)).liveEdge (.closes, mr, issue)).map
      (·.fromState) = some (some .opened) := by decide
  obtain ⟨row, hrow, hfrom⟩ := Option.map_eq_some_iff.mp hedge
  have := (hlast mr issue row _ _ hrow hmr hissue).1
  rw [hfrom] at this
  cases this

end SymphonyBoard
