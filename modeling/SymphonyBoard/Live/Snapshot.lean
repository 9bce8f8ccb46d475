import SymphonyBoard.Live.Store
/-!
# Paged live snapshots

The receiver's snapshot endpoint (`src/live/receiver.ts`) caps a page by
rows and by bytes, and the client (`packages/ui/src/contract.ts`) folds
older pages into the first until it has the rows it asked for. The table
may grow between the requests, and an actor's profile may arrive; a
request may fail, and is then made again as often as the caller allows.

The read is one `SELECT` over the table as the first page saw it
(`fetchLiveSnapshotResult_reads`), unless the caller's cursor is ahead of
the table: the receiver then answers as if there were none.
-/

namespace SymphonyBoard

variable {E : Type}

/-- The budgets of the receiver. -/
structure SnapshotConfig where
  snapshotLimit : ℕ
  maxSnapshotLimit : ℕ
  snapshotMaxBytes : ℕ

/-- A served snapshot page. The schema tag and the generation instant are
left out. -/
structure LiveSnapshot (E : Type) where
  events : List (LiveEvent E)
  maxSeq : ℕ
  truncated : Bool
  nextBefore : Option ℕ
deriving DecidableEq

/-- `handleSnapshot`. `hydrate` fills an actor in from the profiles known
at the request. -/
def handleSnapshot (cfg : SnapshotConfig) (store : LiveStore E) (hydrate : E → E)
    (limit since before : Option ℕ) : LiveSnapshot E :=
  let limit := match limit with
    | some raw => if 0 < raw then min raw cfg.maxSnapshotLimit else cfg.snapshotLimit
    | none => cfg.snapshotLimit
  let maxSeq := store.maxSeq
  -- a cursor ahead of the head falls back to the newest rows
  let delta := since.filter fun s => decide (s < maxSeq)
  let answer := if since = some maxSeq then ([], 0) else
    store.page { order := .desc, limit, maxBytes := cfg.snapshotMaxBytes, after := delta, before }
  let events := answer.1.map fun row =>
    { seq := (rowToEvent row).seq, input := hydrate (rowToEvent row).input }
  let truncated := decide (events.length < answer.2)
  { events, maxSeq, truncated
    nextBefore := if truncated then events.getLast?.map (·.seq) else none }

/-- The receiver over time: what the `n`-th request meets. A fault says
whether it is transient. -/
structure LiveServer (E : Type) where
  cfg : SnapshotConfig
  store : ℕ → LiveStore E
  hydrate : ℕ → E → E
  fault : ℕ → Option Bool

namespace LiveServer

variable (server : LiveServer E)

/-- What the endpoint answers to the `n`-th request. -/
def answer (n : ℕ) (limit since before : Option ℕ) : LiveSnapshot E :=
  handleSnapshot server.cfg (server.store n) (server.hydrate n) limit since before

/-- One attempt: the snapshot, or whether the failure is transient. -/
def fetchLiveSnapshotAttempt (n : ℕ) (limit since before : Option ℕ) :
    Except Bool (LiveSnapshot E) :=
  match server.fault n with
  | some transient => .error transient
  | none => .ok (server.answer n limit since before)

/-- One page: transient failures are tried again. The second component
counts the requests made. -/
def fetchLiveSnapshotPage (limit since before : Option ℕ) :
    ℕ → ℕ → Except Bool (LiveSnapshot E) × ℕ
  | 0, n => (server.fetchLiveSnapshotAttempt n limit since before, n + 1)
  | retries + 1, n =>
    match server.fetchLiveSnapshotAttempt n limit since before with
    | .error true => fetchLiveSnapshotPage limit since before retries (n + 1)
    | result => (result, n + 1)

/-- The `while` loop: older pages under the same cursor, while the last one
was truncated and rows are missing. A page that does not move backwards
ends it. -/
def fetchOlder (retries limit : ℕ) (since : Option ℕ) (events : List (LiveEvent E))
    (page : LiveSnapshot E) (n : ℕ) :
    Except Bool (List (LiveEvent E) × LiveSnapshot E) × ℕ :=
  match page.nextBefore with
  | none => (.ok (events, page), n)
  | some before =>
    if page.truncated ∧ events.length < limit then
      match server.fetchLiveSnapshotPage (some (limit - events.length)) since (some before)
        retries n with
      | (.error transient, n) => (.error transient, n)
      | (.ok next, n) =>
        if next.events = [] ∨ ∃ ev ∈ next.events, before ≤ ev.seq then
          (.ok (events, next), n)
        else fetchOlder retries limit since (events ++ next.events) next n
    else (.ok (events, page), n)
termination_by limit - events.length
decreasing_by
  rename_i hmore hend
  have hne := List.length_pos_iff.mpr (not_or.mp hend).1
  rw [List.length_append]
  omega

/-- `fetchLiveSnapshotResult`; a failed read says whether transiently. -/
def fetchLiveSnapshotResult (retries n : ℕ) (limit since : Option ℕ) :
    Except Bool (LiveSnapshot E) × ℕ :=
  match server.fetchLiveSnapshotPage (limit.filter fun l => decide (0 < l)) since none retries n with
  | (.error transient, n) => (.error transient, n)
  | (.ok head, n) =>
    match limit.filter fun l => decide (0 < l) with
    | none => (.ok head, n)
    | some limit =>
      match server.fetchOlder retries limit since head.events head n with
      | (.error transient, n) => (.error transient, n)
      | (.ok (events, page), n) =>
        (.ok { events, maxSeq := head.maxSeq, truncated := page.truncated,
               nextBefore := page.nextBefore }, n)

/-! ## One page -/

/-- An event is a row, filled in at some request. -/
def Serves (row : LiveRow E) (ev : LiveEvent E) : Prop :=
  ev.seq = row.seq ∧ ∃ n, ev.input = server.hydrate n row.input

theorem Serves.seqs {server : LiveServer E} {rows : List (LiveRow E)} {events : List (LiveEvent E)}
    (h : List.Forall₂ server.Serves rows events) : events.map (·.seq) = rows.map (·.seq) := by
  induction h with
  | nil => rfl
  | cons hserve _ ih => rw [List.map_cons, List.map_cons, ih, hserve.1]

/-- A page of the rows of a list behind its first `k`: some of them, one at
least if there is one, and the cursor behind the last. -/
structure PageOf (rows : List (LiveRow E)) (k limit : ℕ) (snap : LiveSnapshot E) (take : ℕ) :
    Prop where
  le_limit : take ≤ limit
  le_rest : k + take ≤ rows.length
  pos : k < rows.length → 0 < take
  serves : List.Forall₂ server.Serves ((rows.drop k).take take) snap.events
  truncated : snap.truncated = decide (k + take < rows.length)
  nextBefore : snap.nextBefore =
    if k + take < rows.length then snap.events.getLast?.map (·.seq) else none

/-- Of a descending list, what is behind an item is the rest of it. -/
theorem filter_lt_eq_drop {rows : List (LiveRow E)} (h : Descending (·.seq) rows) {k : ℕ}
    {last : LiveRow E} (hlast : (rows.take k).getLast? = some last) :
    rows.filter (fun row => decide (row.seq < last.seq)) = rows.drop k := by
  obtain ⟨init, hinit⟩ := List.getLast?_eq_some_iff.mp hlast
  obtain ⟨htake, -, hcross⟩ := List.pairwise_append.mp (by
    rw [List.take_append_drop]; exact h : (rows.take k ++ rows.drop k).Pairwise _)
  have hmem : last ∈ rows.take k := List.mem_of_getLast? hlast
  have hfront : (rows.take k).filter (fun row => decide (row.seq < last.seq)) = [] := by
    refine List.filter_eq_nil_iff.mpr fun row hrow hlt => ?_
    rw [decide_eq_true_eq] at hlt
    rw [hinit] at hrow htake
    rcases List.mem_append.mp hrow with hrow | hrow
    · have hgt := (List.pairwise_append.mp htake).2.2 row hrow last (by simp)
      exact absurd hlt (not_lt.mpr (le_of_lt hgt))
    · rw [List.mem_singleton.mp hrow] at hlt
      exact absurd hlt (lt_irrefl _)
  have hrest : (rows.drop k).filter (fun row => decide (row.seq < last.seq)) = rows.drop k :=
    List.filter_eq_self.mpr fun row hrow => decide_eq_true (hcross last hmem row hrow)
  conv_lhs => rw [← List.take_append_drop k rows, List.filter_append, hfront, hrest]
  rw [List.nil_append]

/-- **A page of the endpoint**, for a cursor that is not the head: it pages
the rows behind the cursor, newest first. -/
theorem handleSnapshot_page (cfg : SnapshotConfig) (store : LiveStore E) (n : ℕ)
    {limit : ℕ} (hlimit : 0 < limit) (hrows : 0 < cfg.maxSnapshotLimit) {since before : Option ℕ}
    (hhead : since ≠ some store.maxSeq) {rows : List (LiveRow E)} {k : ℕ}
    (hmatch : store.matching .desc (since.filter fun s => decide (s < store.maxSeq)) before =
      rows.drop k) (hk : k ≤ rows.length) :
    ∃ take, server.PageOf rows k limit
      (handleSnapshot cfg store (server.hydrate n) (some limit) since before) take := by
  let q : PageQuery :=
    { order := .desc, limit := min limit cfg.maxSnapshotLimit, maxBytes := cfg.snapshotMaxBytes
      after := since.filter fun s => decide (s < store.maxSeq), before }
  obtain ⟨take, hpage, hle, hlen, hpos, hcount⟩ := store.page_desc q rfl
  have hmin : 0 < min limit cfg.maxSnapshotLimit := lt_min hlimit hrows
  have hmatch' : store.matching .desc q.after q.before = rows.drop k := hmatch
  rw [hmatch'] at hpage hlen hpos hcount
  rw [List.length_drop] at hlen hcount
  have hle' : take ≤ min limit cfg.maxSnapshotLimit := hle
  have hcount' : (store.page q).2 = min (min limit cfg.maxSnapshotLimit + 1) (rows.length - k) :=
    hcount
  have hevents : (handleSnapshot cfg store (server.hydrate n) (some limit) since before).events =
      ((rows.drop k).take take).map fun row =>
        { seq := row.seq, input := server.hydrate n row.input } := by
    simp only [handleSnapshot, if_pos hlimit, if_neg hhead]
    rw [← hpage]
    rfl
  have hlength : (handleSnapshot cfg store (server.hydrate n) (some limit) since before).events.length
      = take := by
    rw [hevents, List.length_map, List.length_take, List.length_drop]
    omega
  have htrunc : (handleSnapshot cfg store (server.hydrate n) (some limit) since before).truncated =
      decide ((handleSnapshot cfg store (server.hydrate n) (some limit) since before).events.length
        < (store.page q).2) := by
    simp only [handleSnapshot, if_pos hlimit, if_neg hhead]
    rfl
  -- there are more rows just when the query saw one past the page
  have hdecide : (handleSnapshot cfg store (server.hydrate n) (some limit) since before).truncated =
      decide (k + take < rows.length) := by
    rw [htrunc, hlength, hcount', decide_eq_decide]
    omega
  refine ⟨take, by omega, by omega, ?_, ?_, hdecide, ?_⟩
  · intro hlt
    refine hpos hmin fun hnil => ?_
    rw [List.drop_eq_nil_iff] at hnil
    omega
  · rw [hevents, List.forall₂_map_right_iff, List.forall₂_same]
    exact fun row _ => ⟨rfl, n, rfl⟩
  · have hnext : (handleSnapshot cfg store (server.hydrate n) (some limit) since before).nextBefore =
        if (handleSnapshot cfg store (server.hydrate n) (some limit) since before).truncated then
          (handleSnapshot cfg store (server.hydrate n) (some limit) since before).events.getLast?.map
            (·.seq) else none := rfl
    rw [hnext, hdecide]
    simp only [decide_eq_true_eq]

/-! ## The requests -/

variable {server}

/-- A page that was read is the answer to some request, the first one that
did not fail. -/
theorem fetchLiveSnapshotPage_ok {limit since before : Option ℕ} {retries n n' : ℕ}
    {snap : LiveSnapshot E}
    (h : server.fetchLiveSnapshotPage limit since before retries n = (.ok snap, n')) :
    ∃ m, n ≤ m ∧ n' = m + 1 ∧ (∀ j, n ≤ j → j < m → server.fault j = some true) ∧
      server.fault m = none ∧ snap = server.answer m limit since before := by
  have hattempt : ∀ m, server.fetchLiveSnapshotAttempt m limit since before = .ok snap →
      server.fault m = none ∧ snap = server.answer m limit since before := by
    intro m hm
    unfold fetchLiveSnapshotAttempt at hm
    split at hm
    · cases hm
    · rename_i hfault
      exact ⟨hfault, (Except.ok.inj hm).symm⟩
  induction retries generalizing n with
  | zero =>
    obtain ⟨hok, hn⟩ := Prod.mk.inj h
    exact ⟨n, le_rfl, hn.symm, fun j h1 h2 => absurd h2 (not_lt.mpr h1), hattempt n hok⟩
  | succ retries ih =>
    rw [fetchLiveSnapshotPage] at h
    split at h
    · rename_i herror
      have hfault : server.fault n = some true := by
        unfold fetchLiveSnapshotAttempt at herror
        split at herror
        · rename_i transient hfault
          rw [hfault, Except.error.inj herror]
        · cases herror
      obtain ⟨m, hm, hn, hfaults, hrest⟩ := ih h
      refine ⟨m, by omega, hn, fun j h1 h2 => ?_, hrest⟩
      rcases Nat.eq_or_lt_of_le h1 with rfl | hlt
      · exact hfault
      · exact hfaults j hlt h2
    · obtain ⟨hok, hn⟩ := Prod.mk.inj h
      exact ⟨n, le_rfl, hn.symm, fun j h1 h2 => absurd h2 (not_lt.mpr h1), hattempt n hok⟩

/-- Where no request fails, the first attempt is answered. -/
theorem fetchLiveSnapshotPage_faultless (hfault : ∀ n, server.fault n = none)
    (limit since before : Option ℕ) (retries n : ℕ) :
    server.fetchLiveSnapshotPage limit since before retries n =
      (.ok (server.answer n limit since before), n + 1) := by
  cases retries <;> simp [fetchLiveSnapshotPage, fetchLiveSnapshotAttempt, hfault]

theorem fetchOlder_faultless (hfault : ∀ n, server.fault n = none) (retries limit : ℕ)
    (since : Option ℕ) (events : List (LiveEvent E)) (page : LiveSnapshot E) (n : ℕ) :
    ∃ result n', server.fetchOlder retries limit since events page n = (.ok result, n') := by
  fun_induction server.fetchOlder retries limit since events page n with
  | case1 => exact ⟨_, _, rfl⟩
  | case2 events page n before hbefore hmore transient n' hpage =>
    rw [fetchLiveSnapshotPage_faultless hfault] at hpage
    cases hpage
  | case3 => exact ⟨_, _, rfl⟩
  | case4 _ _ _ _ _ _ _ _ _ _ ih => exact ih
  | case5 => exact ⟨_, _, rfl⟩

/-! ## The loop -/

/-- What the loop has read: the first `k` rows of the listing, and the
cursor behind them if there are more. -/
structure ReadSoFar (server : LiveServer E) (rows : List (LiveRow E)) (limit k : ℕ)
    (events : List (LiveEvent E)) (page : LiveSnapshot E) : Prop where
  le_limit : k ≤ limit
  le_length : k ≤ rows.length
  serves : List.Forall₂ server.Serves (rows.take k) events
  pos : k < rows.length → 0 < k
  truncated : page.truncated = decide (k < rows.length)
  nextBefore : page.nextBefore =
    if k < rows.length then (rows.take k).getLast?.map (·.seq) else none

theorem ReadSoFar.length {rows : List (LiveRow E)} {limit k : ℕ} {events : List (LiveEvent E)}
    {page : LiveSnapshot E} (h : ReadSoFar server rows limit k events page) :
    events.length = k := by
  have hlen := h.serves.length_eq
  rw [List.length_take, min_eq_left h.le_length] at hlen
  exact hlen.symm

/-- The first page of a listing is what the loop starts from. -/
theorem PageOf.readSoFar {rows : List (LiveRow E)} {limit take : ℕ} {page : LiveSnapshot E}
    (h : server.PageOf rows 0 limit page take) :
    ReadSoFar server rows limit take page.events page := by
  have hle := h.le_rest
  have hserves := h.serves
  have htrunc := h.truncated
  have hnext := h.nextBefore
  rw [List.drop_zero] at hserves
  rw [Nat.zero_add] at hle htrunc hnext
  refine ⟨h.le_limit, hle, hserves, fun hlt => h.pos (by omega), htrunc, ?_⟩
  rw [hnext, ← List.getLast?_map, ← List.getLast?_map, Serves.seqs hserves]

/-- A further page is read behind what there is. -/
theorem ReadSoFar.append {rows : List (LiveRow E)} {limit k take : ℕ} {events : List (LiveEvent E)}
    {page next : LiveSnapshot E} (h : ReadSoFar server rows limit k events page)
    (hlt : k < rows.length) (hnext : server.PageOf rows k (limit - k) next take) :
    ReadSoFar server rows limit (k + take) (events ++ next.events) next := by
  have hk := h.le_limit
  have htake := hnext.le_limit
  have hpos := hnext.pos hlt
  have hrows : rows.take (k + take) = rows.take k ++ (rows.drop k).take take := List.take_add
  refine ⟨by omega, hnext.le_rest, ?_, fun _ => by omega, hnext.truncated, ?_⟩
  · rw [hrows]
    exact List.rel_append h.serves hnext.serves
  · rw [hnext.nextBefore, hrows, ← List.getLast?_map, ← List.getLast?_map, List.map_append,
      Serves.seqs hnext.serves, List.getLast?_append_of_ne_nil]
    intro hnil
    rw [List.map_eq_nil_iff, List.take_eq_nil_iff, List.drop_eq_nil_iff] at hnil
    omega

/-- **The loop reads the listing on**, as long as the pages are pages of
it: up to the limit or the end where all are (`full`), and else until one
comes back empty. -/
theorem fetchOlder_reads (full : Prop) {retries limit : ℕ} {since : Option ℕ}
    {rows : List (LiveRow E)} (hdesc : Descending (·.seq) rows)
    {events : List (LiveEvent E)} {page : LiveSnapshot E} {n : ℕ}
    (hpages : ∀ m, n ≤ m → ∀ k, k < rows.length → ∀ last, (rows.take k).getLast? = some last →
      ∀ want, 0 < want →
        (∃ take, server.PageOf rows k want
          (server.answer m (some want) since (some last.seq)) take) ∨
        ((server.answer m (some want) since (some last.seq)).events = [] ∧ ¬ full))
    {k : ℕ} (hread : ReadSoFar server rows limit k events page)
    {result : List (LiveEvent E) × LiveSnapshot E} {n' : ℕ}
    (h : server.fetchOlder retries limit since events page n = (.ok result, n')) :
    ∃ k', k ≤ k' ∧ k' ≤ limit ∧ k' ≤ rows.length ∧
      List.Forall₂ server.Serves (rows.take k') result.1 ∧
      (full → k' = min limit rows.length) := by
  have hstop : ∀ k, ∀ events : List (LiveEvent E), ∀ page : LiveSnapshot E,
      ReadSoFar server rows limit k events page → (k = limit ∨ ¬ k < rows.length ∨ ¬ full) →
      ∃ k', k ≤ k' ∧ k' ≤ limit ∧ k' ≤ rows.length ∧
        List.Forall₂ server.Serves (rows.take k') events ∧
        (full → k' = min limit rows.length) := by
    intro k events page hread hend
    have h1 := hread.le_limit
    have h2 := hread.le_length
    refine ⟨k, le_rfl, h1, h2, hread.serves, fun hfull => ?_⟩
    rcases hend with hend | hend | hend
    · omega
    · omega
    · exact absurd hfull hend
  fun_induction server.fetchOlder retries limit since events page n generalizing k with
  | case1 events page n hnone =>
    obtain rfl := Except.ok.inj (Prod.mk.inj h).1
    -- without a cursor nothing is left to read
    refine hstop k _ _ hread (Or.inr (Or.inl fun hlt => ?_))
    have hnext := hread.nextBefore
    rw [hnone, if_pos hlt, eq_comm, Option.map_eq_none_iff, List.getLast?_eq_none_iff,
      List.take_eq_nil_iff] at hnext
    have hpos := hread.pos hlt
    rcases hnext with hzero | hnil
    · omega
    · rw [hnil] at hlt
      exact absurd hlt (Nat.not_lt_zero k)
  | case2 => cases h
  | case3 events page n before hbefore hmore next n₂ hpage hend =>
    obtain rfl := Except.ok.inj (Prod.mk.inj h).1
    refine hstop k _ _ hread ?_
    by_contra hcon
    simp only [not_or, not_not] at hcon
    obtain ⟨hk, hlt, hfull⟩ := hcon
    obtain ⟨m, hm, -, -, -, rfl⟩ := fetchLiveSnapshotPage_ok hpage
    obtain ⟨last, hlast, rfl⟩ : ∃ last, (rows.take k).getLast? = some last ∧ last.seq = before := by
      have hnext := hread.nextBefore
      rw [hbefore, if_pos hlt] at hnext
      exact Option.map_eq_some_iff.mp hnext.symm
    have hwant : 0 < limit - events.length := by omega
    rcases hpages m hm k hlt last hlast _ hwant with ⟨take, hof⟩ | ⟨-, hnf⟩
    · -- a page of the listing is not empty, and is behind the cursor
      have hpos := hof.pos hlt
      have hrest := hof.le_rest
      rcases hend with hnil | ⟨ev, hev, hge⟩
      · have hlen := hof.serves.length_eq
        rw [hnil, List.length_nil, List.length_take, List.length_drop] at hlen
        omega
      · have hseq : ev.seq ∈ ((rows.drop k).take take).map (·.seq) := by
          rw [← Serves.seqs hof.serves]
          exact List.mem_map_of_mem hev
        obtain ⟨row, hrow, hrowseq⟩ := List.mem_map.mp hseq
        have hmem := List.mem_of_mem_take hrow
        rw [← filter_lt_eq_drop hdesc hlast] at hmem
        have hltseq := of_decide_eq_true (List.mem_filter.mp hmem).2
        omega
    · exact hnf hfull
  | case4 events page n before hbefore hmore next n₂ hpage hend ih =>
    obtain ⟨m, hm, rfl, -, -, rfl⟩ := fetchLiveSnapshotPage_ok hpage
    have hlt : k < rows.length := by
      have htrunc := hread.truncated
      rw [hmore.1] at htrunc
      exact of_decide_eq_true htrunc.symm
    obtain ⟨last, hlast, rfl⟩ : ∃ last, (rows.take k).getLast? = some last ∧ last.seq = before := by
      have hnext := hread.nextBefore
      rw [hbefore, if_pos hlt] at hnext
      exact Option.map_eq_some_iff.mp hnext.symm
    have hlength := hread.length
    rcases hpages m hm k hlt last hlast (limit - events.length) (by omega) with
      ⟨take, hof⟩ | ⟨hnil, -⟩
    · rw [hlength] at hof
      have hof' : server.PageOf rows k (limit - k)
          (server.answer m (some (limit - events.length)) since (some last.seq)) take := by
        rw [hlength]
        exact hof
      -- the page goes on from the last row read
      obtain ⟨k', hk', hrest⟩ := ih (fun m' hm' => hpages m' (by omega)) (hread.append hlt hof') h
      exact ⟨k', by omega, hrest⟩
    · exact absurd (Or.inl hnil) hend
  | case5 events page n before hbefore hmore =>
    obtain rfl := Except.ok.inj (Prod.mk.inj h).1
    refine hstop k _ _ hread ?_
    have hlength := hread.length
    have hle := hread.le_limit
    -- the loop ends at the limit, or behind the last page
    by_cases hlt : k < rows.length
    · left
      have htrunc := hread.truncated
      rw [decide_eq_true hlt] at htrunc
      have hnot : ¬ events.length < limit := fun hlen => hmore ⟨htrunc, hlen⟩
      omega
    · exact Or.inr (Or.inl hlt)

/-! ## The read -/

variable (server) in
/-- Between requests, rows are only added. -/
def OnlyAppends : Prop := ∀ n, (server.store n).Extends (server.store (n + 1))

theorem OnlyAppends.extends (h : server.OnlyAppends) {n m : ℕ} (hle : n ≤ m) :
    (server.store n).Extends (server.store m) := by
  induction hle with
  | refl => exact LiveStore.Extends.refl _
  | step _ ih => exact ih.trans (h _)

end LiveServer

namespace LiveStore

/-- The rows over a cursor, up to a head, newest first. -/
def span (s : LiveStore E) (since : Option ℕ) (head : ℕ) : List (LiveRow E) :=
  (s.rows.filter fun row => decide (∀ c ∈ since, c < row.seq) && decide (row.seq ≤ head)).reverse

theorem mem_span {s : LiveStore E} {since : Option ℕ} {head : ℕ} {row : LiveRow E} :
    row ∈ s.span since head ↔ row ∈ s.rows ∧ (∀ c ∈ since, c < row.seq) ∧ row.seq ≤ head := by
  simp [span]

theorem span_descending (s : LiveStore E) (since : Option ℕ) (head : ℕ) :
    Descending (·.seq) (s.span since head) := by
  rw [span, ← List.filter_reverse]
  exact s.rows_descending.filter _

theorem matching_eq_span (s : LiveStore E) (since : Option ℕ) :
    s.matching .desc since none = s.span since s.maxSeq := by
  rw [matching, span]
  refine congrArg List.reverse (List.filter_congr fun row hrow => ?_)
  have hle : row.seq ≤ s.maxSeq := le_maxSeq hrow
  simp [hle]

/-- In a table that has only grown, the rows behind a row of a span are the
rest of that span. -/
theorem matching_older {s s' : LiveStore E} (h : s.Extends s') {since : Option ℕ} {k : ℕ}
    {last : LiveRow E} (hlast : ((s.span since s.maxSeq).take k).getLast? = some last) :
    s'.matching .desc since (some last.seq) = (s.span since s.maxSeq).drop k := by
  have hmem : last ∈ s.span since s.maxSeq := List.mem_of_mem_take (List.mem_of_getLast? hlast)
  have hle : last.seq ≤ s.maxSeq := (mem_span.mp hmem).2.2
  rw [← LiveServer.filter_lt_eq_drop (s.span_descending since s.maxSeq) hlast, matching, span,
    List.filter_reverse, List.filter_filter]
  refine congrArg List.reverse ?_
  have hgrow := h.filter_le (p := fun row => decide (∀ a ∈ since, a < row.seq) &&
      decide (∀ b ∈ some last.seq, row.seq < b)) fun row hrow => by
    simp only [Option.mem_def, Option.some.injEq, forall_eq', Bool.and_eq_true,
      decide_eq_true_eq] at hrow
    omega
  rw [hgrow]
  refine List.filter_congr fun row hrow => ?_
  have hrowle : row.seq ≤ s.maxSeq := le_maxSeq hrow
  simp only [hrowle, Option.mem_def, Option.some.injEq, forall_eq', decide_true, Bool.and_true]
  exact Bool.and_comm _ _

end LiveStore

namespace LiveServer

variable {server : LiveServer E}

/-- An answer from a head the cursor is not at, behind a row of a span read
under the same effective cursor. -/
theorem answer_page (hrows : 0 < server.cfg.maxSnapshotLimit) (happends : server.OnlyAppends)
    {since delta : Option ℕ} {m m' k want : ℕ} (hm : m ≤ m') (hwant : 0 < want)
    (hhead : since ≠ some (server.store m').maxSeq)
    (hdelta : (since.filter fun c => decide (c < (server.store m').maxSeq)) = delta)
    (hk : k ≤ ((server.store m).span delta (server.store m).maxSeq).length)
    {last : LiveRow E}
    (hlast : (((server.store m).span delta (server.store m).maxSeq).take k).getLast? = some last) :
    ∃ take, server.PageOf ((server.store m).span delta (server.store m).maxSeq) k want
      (server.answer m' (some want) since (some last.seq)) take := by
  refine server.handleSnapshot_page server.cfg (server.store m') m' hwant hrows hhead ?_ hk
  rw [hdelta]
  exact LiveStore.matching_older (happends.extends hm) hlast

/-- The first page. -/
theorem answer_first (hrows : 0 < server.cfg.maxSnapshotLimit) {since delta : Option ℕ}
    {m limit : ℕ} (hlimit : 0 < limit) (hhead : since ≠ some (server.store m).maxSeq)
    (hdelta : (since.filter fun c => decide (c < (server.store m).maxSeq)) = delta) :
    ∃ take, server.PageOf ((server.store m).span delta (server.store m).maxSeq) 0 limit
      (server.answer m (some limit) since none) take := by
  refine server.handleSnapshot_page server.cfg (server.store m) m hlimit hrows hhead ?_ (Nat.zero_le _)
  rw [hdelta, List.drop_zero]
  exact LiveStore.matching_eq_span _ delta

/-- A cursor at the head has nothing newer. -/
theorem answer_head {since : Option ℕ} {m : ℕ} (hhead : since = some (server.store m).maxSeq)
    (limit before : Option ℕ) : (server.answer m limit since before).events = [] := by
  simp [answer, handleSnapshot, hhead]

/-- A page above a cursor and below a row that is not above it is empty. -/
theorem answer_crossed {c b m : ℕ} (hle : b ≤ c) (hlt : c < (server.store m).maxSeq)
    (limit : Option ℕ) : (server.answer m limit (some c) (some b)).events = [] := by
  have hnil : (server.store m).matching .desc (some c) (some b) = [] := by
    refine List.eq_nil_iff_forall_not_mem.mpr fun row hrow => ?_
    obtain ⟨-, habove, hbelow⟩ := LiveStore.mem_matching.mp hrow
    have h1 := habove c rfl
    have h2 := hbelow b rfl
    omega
  have hne : (some c : Option ℕ) ≠ some (server.store m).maxSeq := by
    intro heq
    rw [Option.some.injEq] at heq
    omega
  obtain ⟨take, hpage, -⟩ := (server.store m).page_desc
    { order := .desc
      limit := (match limit with
        | some raw => if 0 < raw then min raw server.cfg.maxSnapshotLimit
          else server.cfg.snapshotLimit
        | none => server.cfg.snapshotLimit)
      maxBytes := server.cfg.snapshotMaxBytes, after := some c, before := some b } rfl
  have hfilter : ((some c : Option ℕ).filter fun s => decide (s < (server.store m).maxSeq)) =
      some c := by simp [hlt]
  simp only [answer, handleSnapshot, if_neg hne, hfilter]
  rw [hpage]
  simp [hnil]

/-- **What a read returns**, over the table as its first page saw it: the
newest rows above the cursor it was answered under, up to the limit if all
requests are answered under that cursor (`full`). -/
theorem fetchOlder_span (full : Prop) (hrows : 0 < server.cfg.maxSnapshotLimit)
    (happends : server.OnlyAppends) {since delta : Option ℕ} {m limit retries n' : ℕ}
    (hlimit : 0 < limit) (hhead : since ≠ some (server.store m).maxSeq)
    (hdelta : (since.filter fun c => decide (c < (server.store m).maxSeq)) = delta)
    (hlater : ∀ m', m ≤ m' →
      (since ≠ some (server.store m').maxSeq ∧
        (since.filter fun c => decide (c < (server.store m').maxSeq)) = delta) ∨
      (¬ full ∧ ∀ b ≤ (server.store m).maxSeq, ∀ want,
        (server.answer m' (some want) since (some b)).events = []))
    {result : List (LiveEvent E) × LiveSnapshot E}
    (h : server.fetchOlder retries limit since (server.answer m (some limit) since none).events
      (server.answer m (some limit) since none) (m + 1) = (.ok result, n')) :
    ∃ k ≤ limit,
      List.Forall₂ server.Serves (((server.store m).span delta (server.store m).maxSeq).take k)
        result.1 ∧
      (full → k = min limit ((server.store m).span delta (server.store m).maxSeq).length) := by
  obtain ⟨take, hfirst⟩ := answer_first hrows hlimit hhead hdelta
  have hdesc := (server.store m).span_descending delta (server.store m).maxSeq
  obtain ⟨k, -, hk, -, hserves, hfull⟩ := fetchOlder_reads full hdesc
    (fun m' hm' k hk last hlast want hwant => by
      rcases hlater m' (by omega) with ⟨hne, hd⟩ | ⟨hnf, hempty⟩
      · exact Or.inl (answer_page hrows happends (by omega) hwant hne hd (by omega) hlast)
      · have hmem := List.mem_of_mem_take (List.mem_of_getLast? hlast)
        exact Or.inr ⟨hempty _ (LiveStore.mem_span.mp hmem).2.2 want, hnf⟩)
    hfirst.readSoFar h
  exact ⟨k, hk, hserves, hfull⟩

/-- Rows served in descending order are events in descending order. -/
theorem Serves.descending {rows : List (LiveRow E)} {events : List (LiveEvent E)}
    (h : List.Forall₂ server.Serves rows events) (hdesc : Descending (·.seq) rows) :
    Descending (·.seq) events := by
  have hseqs : (events.map (·.seq)).Pairwise fun a b => b < a := by
    rw [Serves.seqs h]
    exact List.pairwise_map.mpr hdesc
  exact List.pairwise_map.mp hseqs

theorem Serves.exists {rows : List (LiveRow E)} {events : List (LiveEvent E)}
    (h : List.Forall₂ server.Serves rows events) {row : LiveRow E} (hrow : row ∈ rows) :
    ∃ ev ∈ events, server.Serves row ev := by
  induction h with
  | nil => cases hrow
  | cons hserve _ ih =>
    rcases List.mem_cons.mp hrow with rfl | hrow
    · exact ⟨_, List.mem_cons_self, hserve⟩
    · obtain ⟨ev, hev, hs⟩ := ih hrow
      exact ⟨ev, List.mem_cons_of_mem _ hev, hs⟩

variable (server) in
/-- What a read from the `m`-th request on returns. The rows are those of
the table as that request saw it; `head` is its highest row id, which the
caller's cursor moves to. -/
structure ReadsFrom (m limit : ℕ) (since : Option ℕ) (head : ℕ) (events : List (LiveEvent E)) :
    Prop where
  isHead : head = (server.store m).maxSeq
  descending : Descending (·.seq) events
  newest : (∀ c ∈ since, c ≤ head) →
    List.Forall₂ server.Serves (((server.store m).span since head).take limit) events
  complete : (∀ c ∈ since, c ≤ head) → events.length < limit →
    ∀ row ∈ (server.store m).rows, (∀ c ∈ since, c < row.seq) → row.seq ≤ head →
      ∃ ev ∈ events, server.Serves row ev
  /-- For a cursor ahead of the head, the newest rows there are. -/
  ahead : ∀ c ∈ since, head < c → ∃ k ≤ limit,
    List.Forall₂ server.Serves (((server.store m).span none head).take k) events ∧
    ((∀ j, (server.store j).maxSeq < c) → k = min limit ((server.store m).span none head).length)

/-- A cursor at the head: nothing is newer. -/
theorem readsFrom_at {since : Option ℕ} {m limit retries n' : ℕ}
    (hat : since = some (server.store m).maxSeq)
    {result : List (LiveEvent E) × LiveSnapshot E}
    (h : server.fetchOlder retries limit since (server.answer m (some limit) since none).events
      (server.answer m (some limit) since none) (m + 1) = (.ok result, n')) :
    server.ReadsFrom m limit since (server.store m).maxSeq result.1 := by
  have hnone : (server.answer m (some limit) since none).nextBefore = none := by
    simp [answer, handleSnapshot, hat]
  rw [fetchOlder, hnone] at h
  obtain rfl := Except.ok.inj (Prod.mk.inj h).1
  have hnil : (server.answer m (some limit) since none).events = [] := answer_head hat _ _
  have hspan : (server.store m).span since (server.store m).maxSeq = [] := by
    refine List.eq_nil_iff_forall_not_mem.mpr fun row hrow => ?_
    obtain ⟨-, habove, hle⟩ := LiveStore.mem_span.mp hrow
    have hgt := habove _ hat
    omega
  rw [hnil]
  refine ⟨rfl, Descending.nil, fun _ => ?_, fun _ _ row hrow habove hle => ?_, ?_⟩
  · rw [hspan, List.take_nil]
    exact List.Forall₂.nil
  · have hmem := LiveStore.mem_span.mpr ⟨hrow, habove, hle⟩
    rw [hspan] at hmem
    cases hmem
  · intro c hc hlt
    rw [hat, Option.mem_def, Option.some.injEq] at hc
    omega

/-- A cursor below the head stays below it for the whole read. -/
theorem readsFrom_below (hrows : 0 < server.cfg.maxSnapshotLimit) (happends : server.OnlyAppends)
    {since : Option ℕ} {m limit retries n' : ℕ} (hlimit : 0 < limit)
    (hat : since ≠ some (server.store m).maxSeq) (hle : ∀ c ∈ since, c ≤ (server.store m).maxSeq)
    {result : List (LiveEvent E) × LiveSnapshot E}
    (h : server.fetchOlder retries limit since (server.answer m (some limit) since none).events
      (server.answer m (some limit) since none) (m + 1) = (.ok result, n')) :
    server.ReadsFrom m limit since (server.store m).maxSeq result.1 := by
  have hfilter : ∀ m', m ≤ m' → since ≠ some (server.store m').maxSeq ∧
      (since.filter fun c => decide (c < (server.store m').maxSeq)) = since := by
    intro m' hm'
    have hgrow := (happends.extends hm').maxSeq_le
    cases since with
    | none => exact ⟨by simp, rfl⟩
    | some c =>
      have hlec := hle c rfl
      have hne : c ≠ (server.store m).maxSeq := fun heq => hat (by rw [heq])
      have hlt : c < (server.store m').maxSeq := by omega
      refine ⟨fun heq => ?_, by simp [hlt]⟩
      rw [Option.some.injEq] at heq
      omega
  obtain ⟨k, -, hserves, hfull⟩ := fetchOlder_span True hrows happends hlimit hat
    (hfilter m le_rfl).2 (fun m' hm' => Or.inl (hfilter m' hm')) h
  have hk := hfull trivial
  have htake : ((server.store m).span since (server.store m).maxSeq).take k =
      ((server.store m).span since (server.store m).maxSeq).take limit := by
    rw [hk, List.take_eq_take_iff]
    omega
  rw [htake] at hserves
  have hdesc := (server.store m).span_descending since (server.store m).maxSeq
  refine ⟨rfl, Serves.descending hserves (hdesc.take limit), fun _ => hserves, ?_, ?_⟩
  · intro _ hshort row hrow habove hrowle
    have hlen := hserves.length_eq
    rw [List.length_take] at hlen
    have hall : ((server.store m).span since (server.store m).maxSeq).take limit =
        (server.store m).span since (server.store m).maxSeq :=
      List.take_of_length_le (by omega)
    rw [hall] at hserves
    exact Serves.exists hserves (LiveStore.mem_span.mpr ⟨hrow, habove, hrowle⟩)
  · exact fun c hc hlt => absurd (hle c hc) (not_le.mpr hlt)

/-- A cursor ahead of the head is no cursor, as long as it is ahead. -/
theorem readsFrom_ahead (hrows : 0 < server.cfg.maxSnapshotLimit) (happends : server.OnlyAppends)
    {c m limit retries n' : ℕ} (hlimit : 0 < limit) (hlt : (server.store m).maxSeq < c)
    {result : List (LiveEvent E) × LiveSnapshot E}
    (h : server.fetchOlder retries limit (some c) (server.answer m (some limit) (some c) none).events
      (server.answer m (some limit) (some c) none) (m + 1) = (.ok result, n')) :
    server.ReadsFrom m limit (some c) (server.store m).maxSeq result.1 := by
  have hahead : ∀ m', (server.store m').maxSeq < c →
      some c ≠ some (server.store m').maxSeq ∧
      ((some c : Option ℕ).filter fun c => decide (c < (server.store m').maxSeq)) = none := by
    intro m' hm'
    refine ⟨fun heq => ?_, by simp [le_of_lt hm']⟩
    rw [Option.some.injEq] at heq
    omega
  obtain ⟨k, hk, hserves, hfull⟩ := fetchOlder_span (∀ j, (server.store j).maxSeq < c) hrows happends
    hlimit (hahead m hlt).1 (hahead m hlt).2 (fun m' _ => by
      rcases lt_trichotomy c (server.store m').maxSeq with hcm | hcm | hcm
      · refine Or.inr ⟨fun hall => absurd (hall m') (by omega), fun b hb want => ?_⟩
        exact answer_crossed (by omega) hcm _
      · refine Or.inr ⟨fun hall => absurd (hall m') (by omega), fun b _ want => ?_⟩
        exact answer_head (by rw [hcm]) _ _
      · exact Or.inl (hahead m' hcm)) h
  have hdesc := (server.store m).span_descending none (server.store m).maxSeq
  have hnot : ¬ ∀ c' ∈ some c, c' ≤ (server.store m).maxSeq := fun hle =>
    absurd (hle c rfl) (not_le.mpr hlt)
  refine ⟨rfl, Serves.descending hserves (hdesc.take k), fun hle => absurd hle hnot,
    fun hle => absurd hle hnot, ?_⟩
  intro c' hc' _
  obtain rfl : c = c' := Option.some.inj hc'
  exact ⟨k, hk, hserves, hfull⟩

/-- **A paged read is one big read.** Over a table that only grows it ends,
and where no request fails it succeeds. It returns the rows of the table as
the first answered page saw it, in order and none twice: above a cursor at
or below that page's head, the newest up to the limit, and all of them when
it is short of the limit, so that the head it returns passes none. -/
theorem fetchLiveSnapshotResult_reads (hrows : 0 < server.cfg.maxSnapshotLimit)
    (happends : server.OnlyAppends) {limit : ℕ} (hlimit : 0 < limit) (since : Option ℕ)
    (retries n : ℕ) :
    ((∀ m, server.fault m = none) →
      ∃ snap n', server.fetchLiveSnapshotResult retries n (some limit) since = (.ok snap, n')) ∧
    ∀ snap n', server.fetchLiveSnapshotResult retries n (some limit) since = (.ok snap, n') →
      ∃ m, n ≤ m ∧ (∀ j, n ≤ j → j < m → server.fault j = some true) ∧ server.fault m = none ∧
        server.ReadsFrom m limit since snap.maxSeq snap.events := by
  have hlimit' : (some limit).filter (fun l => decide (0 < l)) = some limit := by simp [hlimit]
  constructor
  · intro hfault
    rw [fetchLiveSnapshotResult, hlimit', fetchLiveSnapshotPage_faultless hfault]
    obtain ⟨result, n', hresult⟩ := fetchOlder_faultless hfault retries limit since
      (server.answer n (some limit) since none).events (server.answer n (some limit) since none)
      (n + 1)
    simp only [hresult]
    exact ⟨_, _, rfl⟩
  · intro snap n' h
    rw [fetchLiveSnapshotResult, hlimit'] at h
    split at h
    · cases h
    · rename_i head n₁ hpage
      obtain ⟨m, hm, rfl, hfaults, hanswered, rfl⟩ := fetchLiveSnapshotPage_ok hpage
      simp only at h
      split at h
      · cases h
      · rename_i events page n₂ holder
        obtain rfl := Except.ok.inj (Prod.mk.inj h).1
        refine ⟨m, hm, hfaults, hanswered, ?_⟩
        by_cases hat : since = some (server.store m).maxSeq
        · exact readsFrom_at hat holder
        · by_cases hle : ∀ c ∈ since, c ≤ (server.store m).maxSeq
          · exact readsFrom_below hrows happends hlimit hat hle holder
          · simp only [not_forall, not_le] at hle
            obtain ⟨c, hc, hlt⟩ := hle
            obtain rfl : since = some c := hc
            exact readsFrom_ahead hrows happends hlimit hlt holder

end LiveServer

namespace SmallFeed

/-- Two stored events. -/
def store : LiveStore Unit where
  rows := [{ seq := 1, bytes := 10, input := () }, { seq := 2, bytes := 10, input := () }]
  ascending := by decide
  positive := by decide

/-- A receiver that serves one row a page. -/
def server : LiveServer Unit where
  cfg := { snapshotLimit := 1, maxSnapshotLimit := 1, snapshotMaxBytes := 0 }
  store := fun _ => store
  hydrate := fun _ input => input
  fault := fun _ => none

theorem onlyAppends : server.OnlyAppends := fun _ => LiveStore.Extends.refl _

end SmallFeed

open SmallFeed in
theorem fetchLiveSnapshotResult_reads_small :
    ∃ snap n', server.fetchLiveSnapshotResult 0 0 (some 5) none = (.ok snap, n') ∧
      ∃ m, server.ReadsFrom m 5 none snap.maxSeq snap.events := by
  obtain ⟨hok, hreads⟩ := LiveServer.fetchLiveSnapshotResult_reads
    (by decide : 0 < server.cfg.maxSnapshotLimit) onlyAppends (by decide : 0 < 5) none 0 0
  obtain ⟨snap, n', h⟩ := hok fun _ => rfl
  obtain ⟨m, -, -, -, hread⟩ := hreads snap n' h
  exact ⟨snap, n', h, m, hread⟩

open SmallFeed in
/-- **A cursor ahead of the table gets rows that are not above it.** -/
theorem not_fetchLiveSnapshotResult_above :
    ¬ ∀ (server : LiveServer Unit) (limit : ℕ) (since : Option ℕ) (retries n : ℕ)
      (snap : LiveSnapshot Unit) (n' : ℕ),
      0 < server.cfg.maxSnapshotLimit → server.OnlyAppends → 0 < limit →
      server.fetchLiveSnapshotResult retries n (some limit) since = (.ok snap, n') →
      ∀ ev ∈ snap.events, ∀ c ∈ since, c < ev.seq := by
  intro h
  have hrun : server.fetchLiveSnapshotResult 0 0 (some 1) (some 5) =
      (.ok { events := [{ seq := 2, input := () }], maxSeq := 2, truncated := true,
             nextBefore := some 2 }, 1) := by
    have hpage : server.fetchLiveSnapshotPage (some 1) (some 5) none 0 0 =
        (.ok { events := [{ seq := 2, input := () }], maxSeq := 2, truncated := true,
               nextBefore := some 2 }, 1) := rfl
    have hlimit : (some 1).filter (fun l => decide (0 < l)) = some 1 := rfl
    rw [LiveServer.fetchLiveSnapshotResult, hlimit, hpage]
    simp only
    rw [LiveServer.fetchOlder]
    rfl
  have habove := h server 1 (some 5) 0 0 _ 1 (by decide) onlyAppends (by decide) hrun
    { seq := 2, input := () } (by simp) 5 rfl
  exact absurd habove (by decide)

end SymphonyBoard
