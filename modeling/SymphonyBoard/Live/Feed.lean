import SymphonyBoard.Common.Run
import SymphonyBoard.Live.Snapshot
/-!
# The live feed

`packages/ui/src/useLive.ts`: the buffer behind the Live page. Stream
frames are put in one at a time, snapshots are folded in, a reset drops
what the server no longer covers, and a cold start paints the cached rows
until the first snapshot replaces them. Whatever comes in whatever order,
the buffer is strictly descending and within its cap
(`LiveFeed.inv_always`).
-/

namespace SymphonyBoard

/-- `LIVE_EVENT_BUFFER_LIMIT`. -/
def liveEventBufferLimit : ℕ := 1000

/-- `LIVE_SNAPSHOT_CACHE_MAX_EVENTS`. -/
def liveSnapshotCacheMaxEvents : ℕ := 300

section Merge

variable {α : Type} (seq : α → ℕ)

/-- New events merged into the kept list: one a seq, newest first, capped.
`insertDesc` is the source's `insertBySeqDesc`. -/
def appendCapped (prev incoming : List α) (max : ℕ) : List α :=
  if incoming = [] then if max < prev.length then prev.take max else prev
  else
    let out := incoming.foldl (insertDesc seq) prev
    if max < out.length then out.take max else out

variable {seq}

/-- **The bounded merge is the naive one**: the last event of every seq,
sorted newest first, and cut at the cap. -/
theorem appendCapped_eq {prev : List α} (h : Descending seq prev) (incoming : List α) (max : ℕ) :
    appendCapped seq prev incoming max = (newestByKey seq (prev ++ incoming)).take max := by
  have hcut : ∀ l : List α, (if max < l.length then l.take max else l) = l.take max := by
    intro l
    split
    · rfl
    · rename_i hle
      exact (List.take_of_length_le (not_lt.mp hle)).symm
  rw [appendCapped, hcut, hcut, ← foldl_insertDesc_eq h]
  split
  · rename_i hnil
    rw [hnil, List.foldl_nil]
  · rfl

end Merge

variable {E : Type}

/-! ## The plans -/

/-- What a poll has to do: start over or not, what to ingest, and where to poll from next. -/
structure PollPlan (E : Type) where
  reset : Bool
  ingest : List (LiveEvent E)
  nextCursor : ℕ

/-- One poll tick: a snapshot behind the cursor reseeds. -/
def planPollIngest (cursor : ℕ) (snap : LiveSnapshot E) : PollPlan E :=
  if snap.maxSeq < cursor then
    { reset := true, ingest := snap.events, nextCursor := snap.maxSeq }
  else
    { reset := false, ingest := snap.events.filter fun ev => decide (cursor < ev.seq)
      nextCursor := max cursor snap.maxSeq }

/-- What a snapshot does to the events shown. -/
inductive SnapshotFold (E : Type)
  | replace (events : List (LiveEvent E)) (cursor : ℕ)
  | merge (reset : Bool) (ingest : List (LiveEvent E)) (cursor : ℕ)

/-- `planSnapshotFold`: a snapshot replaces a list from the cache and is merged into any other. -/
def planSnapshotFold (cursor : ℕ) (snapshot : LiveSnapshot E) (seededFromCache : Bool) (cap : ℕ) :
    SnapshotFold E :=
  if seededFromCache then .replace (snapshot.events.take cap) snapshot.maxSeq
  else
    let plan := planPollIngest cursor snapshot
    .merge plan.reset plan.ingest plan.nextCursor

/-- The reset sentinel of the stream. -/
structure LiveResetSignal where
  reason : String
  maxSeq : Option ℕ

/-- What a reset frame does before the snapshot it asks for. -/
structure SseResetStartPlan where
  retryCursor : ℕ
  nextCursor : ℕ
  clearBeforeFetch : Bool
  reseedBeforeFetch : Bool

/-- `planSseResetStart`: a reset behind the cursor means that the server's numbers started over. -/
def planSseResetStart (cursor : ℕ) (reset : LiveResetSignal) : SseResetStartPlan :=
  let reseedBeforeFetch := decide (∃ m ∈ reset.maxSeq, m < cursor)
  { retryCursor := cursor
    nextCursor := if reseedBeforeFetch then reset.maxSeq.getD cursor else cursor
    clearBeforeFetch := reseedBeforeFetch
    reseedBeforeFetch }

/-- What the snapshot after a reset frame does. -/
structure SseResetSnapshotPlan where
  nextCursor : ℕ
  reseed : Bool

/-- `planSseResetSnapshot`: the same question asked of the snapshot, where
the frame had no number. -/
def planSseResetSnapshot (cursorAtReset currentCursor : ℕ) (snap : LiveSnapshot E)
    (resetStart : SseResetStartPlan) : SseResetSnapshotPlan :=
  let reseedAfterFetch := !resetStart.reseedBeforeFetch && decide (snap.maxSeq < cursorAtReset)
  let baseCursor := if reseedAfterFetch then snap.maxSeq else currentCursor
  { nextCursor := max baseCursor snap.maxSeq, reseed := reseedAfterFetch }

/-- Reconciliation after a reset: of the kept events only those newer than
the snapshot stay, and none when it reseeds. -/
def reconcileReset (prev : List (LiveEvent E)) (snap : LiveSnapshot E) (max : ℕ) (reseed : Bool) :
    List (LiveEvent E) :=
  appendCapped (·.seq) (if reseed then [] else prev.filter fun ev => decide (snap.maxSeq < ev.seq))
    snap.events max

/-! ## The hook -/

/-- The stored cold-start snapshot of one server. -/
structure CachedFeed (E : Type) where
  serverBaseUrl : Option String
  events : List (LiveEvent E)
  maxSeq : ℕ

/-- The hook's buffer and cursor, and what survives it in local storage. -/
structure LiveFeed (E : Type) where
  serverBaseUrl : Option String
  enabled : Bool
  events : List (LiveEvent E)
  lastSeq : ℕ
  seededFromCache : Bool
  cache : Option (CachedFeed E)

/-- A snapshot as `fetchLiveSnapshotResult` returned it. -/
structure FetchedSnapshot (E : Type) where
  snap : LiveSnapshot E
  server : LiveServer E
  retries : ℕ
  request : ℕ
  nextRequest : ℕ
  limit : Option ℕ
  since : Option ℕ
  fetched : server.fetchLiveSnapshotResult retries request limit since = (.ok snap, nextRequest)

/-- What happens to the hook. A reset's snapshot arrives any time later, so
it carries the cursor and the plan of its reset. -/
inductive LiveAction (E : Type)
  /-- The server or the opt-in changes; `fresh` says whether a cached
  snapshot is young enough. -/
  | mount (serverBaseUrl : Option String) (enabled fresh : Bool)
  | frame (ev : LiveEvent E)
  | snapshot (fetched : FetchedSnapshot E)
  | resetStart (reset : LiveResetSignal)
  | resetSnapshot (cursorAtReset : ℕ) (resetStart : SseResetStartPlan) (fetched : FetchedSnapshot E)
  | resetFailed (resetStart : SseResetStartPlan)
  | persist

namespace LiveFeed

/-- A hook before its first effect, in a browser that has cached nothing. -/
def init : LiveFeed E :=
  { serverBaseUrl := none, enabled := false, events := [], lastSeq := 0, seededFromCache := false,
    cache := none }

/-- `loadCachedLiveSnapshot`: the cached events of this server. -/
def loadCached (s : LiveFeed E) (serverBaseUrl : Option String) (fresh : Bool) :
    Option (List (LiveEvent E)) :=
  match s.cache with
  | none => none
  | some entry =>
    if entry.serverBaseUrl = serverBaseUrl ∧ fresh then some entry.events else none

/-- The list is mounted: from the cache of the server, where that is still fresh. -/
def mount (s : LiveFeed E) (serverBaseUrl : Option String) (enabled fresh : Bool) : LiveFeed E :=
  let s' : LiveFeed E := { s with serverBaseUrl, enabled, lastSeq := 0, seededFromCache := false }
  if enabled then
    match s.loadCached serverBaseUrl fresh with
    | some events => { s' with seededFromCache := true, events := events.take liveEventBufferLimit }
    | none => { s' with events := [] }
  else { s' with events := [] }

/-- `ingest`, for one frame. -/
def ingest (s : LiveFeed E) (ev : LiveEvent E) : LiveFeed E :=
  { s with lastSeq := max s.lastSeq ev.seq
           events := appendCapped (·.seq) s.events [ev] liveEventBufferLimit }

/-- A snapshot is folded in. -/
def ingestSnapshot (s : LiveFeed E) (snap : LiveSnapshot E) : LiveFeed E :=
  match planSnapshotFold s.lastSeq snap s.seededFromCache liveEventBufferLimit with
  | .replace events cursor => { s with seededFromCache := false, lastSeq := cursor, events }
  | .merge reset ingest cursor =>
    { s with seededFromCache := false, lastSeq := cursor
             events := appendCapped (·.seq) (if reset then [] else s.events) ingest
               liveEventBufferLimit }

/-- The persist effect, and what it does to the cache: nothing while the
buffer is the cached one. `trim` drops an event's raw payload. -/
def persist (trim : E → E) (s : LiveFeed E) : LiveFeed E :=
  if !s.enabled || s.seededFromCache then s
  else if s.events = [] then
    { s with cache := s.cache.filter fun entry => decide (entry.serverBaseUrl ≠ s.serverBaseUrl) }
  else
    { s with cache := some { serverBaseUrl := s.serverBaseUrl, maxSeq := s.lastSeq
                             events := (s.events.take liveSnapshotCacheMaxEvents).map fun ev =>
                               { ev with input := trim ev.input } } }

/-- What each action does to the list. -/
def step (trim : E → E) (s : LiveFeed E) : LiveAction E → LiveFeed E
  | .mount serverBaseUrl enabled fresh => s.mount serverBaseUrl enabled fresh
  | .frame ev => s.ingest ev
  | .snapshot fetched => s.ingestSnapshot fetched.snap
  | .resetStart reset =>
    let plan := planSseResetStart s.lastSeq reset
    if plan.clearBeforeFetch then { s with lastSeq := plan.nextCursor, events := [] } else s
  | .resetSnapshot cursorAtReset resetStart fetched =>
    let plan := planSseResetSnapshot cursorAtReset s.lastSeq fetched.snap resetStart
    { s with lastSeq := plan.nextCursor
             events := reconcileReset s.events fetched.snap liveEventBufferLimit plan.reseed }
  | .resetFailed resetStart => { s with lastSeq := resetStart.retryCursor }
  | .persist => s.persist trim

end LiveFeed

/-! ## A fetched snapshot is descending -/

namespace LiveServer

variable {server : LiveServer E}

theorem answer_descending (n : ℕ) (limit since before : Option ℕ) :
    Descending (·.seq) (server.answer n limit since before).events := by
  have hrows : ∀ rows : List (LiveRow E), Descending (·.seq) rows →
      Descending (·.seq) (rows.map fun row =>
        ({ seq := row.seq, input := server.hydrate n row.input } : LiveEvent E)) :=
    fun rows h => List.pairwise_map.mpr h
  refine hrows _ ?_
  split
  · exact Descending.nil
  · exact (server.store n).page_descending rfl

/-- The next page's cursor is the seq of the last event. -/
theorem answer_nextBefore {n : ℕ} {limit since before : Option ℕ} {b : ℕ}
    (h : (server.answer n limit since before).nextBefore = some b) :
    ∀ ev ∈ (server.answer n limit since before).events, b ≤ ev.seq := by
  have hdesc := @answer_descending _ server n limit since before
  have hlast : ((server.answer n limit since before).events.getLast?.map (·.seq)) = some b := by
    have hnext : (server.answer n limit since before).nextBefore =
        if (server.answer n limit since before).truncated then
          (server.answer n limit since before).events.getLast?.map (·.seq) else none := rfl
    rw [hnext] at h
    split at h
    · exact h
    · cases h
  obtain ⟨last, hend, rfl⟩ := Option.map_eq_some_iff.mp hlast
  obtain ⟨init, hinit⟩ := List.getLast?_eq_some_iff.mp hend
  rw [hinit] at hdesc ⊢
  intro ev hev
  rcases List.mem_append.mp hev with hev | hev
  · exact le_of_lt ((List.pairwise_append.mp hdesc).2.2 ev hev last (by simp))
  · rw [List.mem_singleton.mp hev]

theorem fetchOlder_descending {retries limit : ℕ} {since : Option ℕ} {events : List (LiveEvent E)}
    {page : LiveSnapshot E} {n : ℕ} (hdesc : Descending (·.seq) events)
    (hnext : ∀ b ∈ page.nextBefore, ∀ ev ∈ events, b ≤ ev.seq)
    {result : List (LiveEvent E) × LiveSnapshot E} {n' : ℕ}
    (h : server.fetchOlder retries limit since events page n = (.ok result, n')) :
    Descending (·.seq) result.1 := by
  fun_induction server.fetchOlder retries limit since events page n with
  | case2 => cases h
  | case4 events page n before hbefore hmore next n₂ hpage hend ih =>
    obtain ⟨m, -, -, -, -, rfl⟩ := fetchLiveSnapshotPage_ok hpage
    obtain ⟨-, hlt⟩ := not_or.mp hend
    simp only [not_exists, not_and, not_le] at hlt
    have habove := hnext before hbefore
    refine ih (hdesc.append (answer_descending m _ _ _) fun a ha b hb => ?_) ?_ h
    · exact lt_of_lt_of_le (hlt b hb) (habove a ha)
    · -- the new cursor is below the new page, which is below the old one
      intro b hb ev hev
      have hbelow := answer_nextBefore hb
      rcases List.mem_append.mp hev with hev | hev
      · obtain ⟨x, hx⟩ := List.exists_mem_of_ne_nil _ (not_or.mp hend).1
        exact (hbelow x hx).trans ((le_of_lt (hlt x hx)).trans (habove ev hev))
      · exact hbelow ev hev
  | _ =>
    obtain rfl := Except.ok.inj (Prod.mk.inj h).1
    exact hdesc

end LiveServer

theorem FetchedSnapshot.descending (f : FetchedSnapshot E) : Descending (·.seq) f.snap.events := by
  have h := f.fetched
  rw [LiveServer.fetchLiveSnapshotResult] at h
  split at h
  · cases h
  · rename_i head n₁ hpage
    obtain ⟨m, -, -, -, -, rfl⟩ := LiveServer.fetchLiveSnapshotPage_ok hpage
    split at h
    · rw [← Except.ok.inj (Prod.mk.inj h).1]
      exact LiveServer.answer_descending m _ _ _
    · split at h
      · cases h
      · rename_i holder
        rw [← Except.ok.inj (Prod.mk.inj h).1]
        exact LiveServer.fetchOlder_descending (LiveServer.answer_descending m _ _ _)
          (fun b hb => LiveServer.answer_nextBefore hb) holder

/-! ## The buffer -/

/-- A buffer as the page may show it. -/
structure Bounded (events : List (LiveEvent E)) : Prop where
  descending : Descending (·.seq) events
  length_le : events.length ≤ liveEventBufferLimit

theorem Bounded.nil : Bounded ([] : List (LiveEvent E)) := ⟨Descending.nil, Nat.zero_le _⟩

theorem Bounded.take {events : List (LiveEvent E)} (h : Descending (·.seq) events) :
    Bounded (events.take liveEventBufferLimit) :=
  ⟨h.take _, List.length_take_le _ _⟩

theorem Bounded.appendCapped {prev : List (LiveEvent E)} (h : Descending (·.seq) prev)
    (incoming : List (LiveEvent E)) :
    Bounded (appendCapped (·.seq) prev incoming liveEventBufferLimit) := by
  rw [appendCapped_eq h]
  exact Bounded.take (newestByKey_descending _)

/-- The invariant of the hook: what is cached was a buffer. -/
structure LiveFeed.Inv (s : LiveFeed E) : Prop where
  events : Bounded s.events
  cached : ∀ entry ∈ s.cache, Descending (·.seq) entry.events

theorem LiveFeed.Inv.step {trim : E → E} {s : LiveFeed E} (h : s.Inv) (a : LiveAction E) :
    (s.step trim a).Inv := by
  have hdesc := h.events.descending
  cases a with
  | mount serverBaseUrl enabled fresh =>
    simp only [LiveFeed.step, LiveFeed.mount]
    split
    · cases hcached : s.loadCached serverBaseUrl fresh with
      | none => exact ⟨Bounded.nil, h.cached⟩
      | some events =>
        have hevents : Descending (·.seq) events := by
          unfold LiveFeed.loadCached at hcached
          cases hcache : s.cache with
          | none =>
            rw [hcache] at hcached
            cases hcached
          | some entry =>
            rw [hcache] at hcached
            simp only [Option.ite_none_right_eq_some, Option.some.injEq] at hcached
            rw [← hcached.2]
            exact h.cached entry hcache
        exact ⟨Bounded.take hevents, h.cached⟩
    · exact ⟨Bounded.nil, h.cached⟩
  | frame ev => exact ⟨Bounded.appendCapped hdesc [ev], h.cached⟩
  | snapshot fetched =>
    simp only [LiveFeed.step, LiveFeed.ingestSnapshot, planSnapshotFold]
    -- a list from the cache is replaced, any other merged into
    by_cases hseeded : s.seededFromCache = true
    · rw [if_pos hseeded]
      exact ⟨Bounded.take fetched.descending, h.cached⟩
    · rw [if_neg hseeded]
      refine ⟨Bounded.appendCapped ?_ _, h.cached⟩
      split
      · exact Descending.nil
      · exact hdesc
  | resetStart reset =>
    simp only [LiveFeed.step]
    split
    · exact ⟨Bounded.nil, h.cached⟩
    · exact h
  | resetSnapshot cursorAtReset resetStart fetched =>
    refine ⟨Bounded.appendCapped ?_ _, h.cached⟩
    split
    · exact Descending.nil
    · exact hdesc.filter _
  | resetFailed resetStart => exact ⟨h.events, h.cached⟩
  | persist =>
    simp only [LiveFeed.step, LiveFeed.persist]
    split
    · exact h
    · split
      · exact ⟨h.events, fun entry hentry => h.cached entry (Option.mem_filter_iff.mp hentry).1⟩
      · refine ⟨h.events, fun entry hentry => ?_⟩
        obtain rfl := Option.some.inj hentry
        exact List.pairwise_map.mpr (hdesc.take _)

theorem LiveFeed.inv_always (trim : E → E) {s : LiveFeed E} (h : s.Inv) (actions : List (LiveAction E)) :
    Always (LiveFeed.step trim) (fun s => Bounded s.events) s actions := by
  induction actions generalizing s with
  | nil => exact h.events
  | cons a actions ih => exact ⟨h.events, ih (h.step a)⟩

/-- **The live feed is the naive merge, and stays sorted and capped.** -/
theorem liveFeed_merge_and_bounds :
    (∀ (prev incoming : List (LiveEvent E)) (cap : ℕ), Descending (·.seq) prev →
      appendCapped (·.seq) prev incoming cap =
        (newestByKey (·.seq) (prev ++ incoming)).take cap ∧
      Descending (·.seq) (appendCapped (·.seq) prev incoming cap)) ∧
    ∀ (trim : E → E) (actions : List (LiveAction E)),
      Always (LiveFeed.step trim) (fun s => Bounded s.events) LiveFeed.init actions := by
  constructor
  · intro prev incoming cap h
    have heq := appendCapped_eq h incoming cap
    exact ⟨heq, by rw [heq]; exact (newestByKey_descending _).take cap⟩
  · intro trim actions
    exact LiveFeed.inv_always trim ⟨Bounded.nil, fun entry hentry => by cases hentry⟩ actions

end SymphonyBoard
