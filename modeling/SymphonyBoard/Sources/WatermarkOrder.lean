import SymphonyBoard.Common.Run
import SymphonyBoard.Shared.Stamp
import SymphonyBoard.Sources.GitHub.Incremental
import SymphonyBoard.Sources.LostUpdates
import SymphonyBoard.SyncEngine.Incremental
/-!
# The order of watermarks

Adapters and stores compare timestamps as text: the stop at an item older
than the watermark, the choice of the latest time, and the merge of a
Postgres store. Text order is the order of the instants as long as what
meets is spelled alike (`OneSpelling`); the SQLite merge does not compare
at all. `ordersByInstant_run` says which runs order by instant.
-/

namespace SymphonyBoard

/-! ## The latest time -/

/-- What is picked is one of the times. -/
theorem mem_of_foldl_pickLatest {l : List String} {m : String}
    (h : l.foldl pickLatest none = some m) : m ∈ l := by
  induction l using List.reverseRecOn generalizing m with
  | nil => cases h
  | append_singleton l t ih =>
    rw [List.foldl_append, List.foldl_cons, List.foldl_nil, pickLatest] at h
    rw [List.mem_append, List.mem_singleton]
    split at h
    · exact Or.inr (Option.some.inj h).symm
    · split at h
      · exact Or.inr (Option.some.inj h).symm
      · exact Or.inl (ih h)

theorem foldl_pickLatest_eq_none {l : List String} (h : l.foldl pickLatest none = none) :
    l = [] := by
  induction l using List.reverseRecOn with
  | nil => rfl
  | append_singleton l t ih =>
    rw [List.foldl_append, List.foldl_cons, List.foldl_nil, pickLatest] at h
    split at h
    · cases h
    · rename_i hsome
      split at h
      · cases h
      · rw [h] at hsome
        cases hsome

/-- It is the last of them as text. -/
theorem not_lt_of_foldl_pickLatest {l : List String} (hne : ∀ t ∈ l, t ≠ "") {m : String}
    (h : l.foldl pickLatest none = some m) : ∀ t ∈ l, ¬ m < t := by
  induction l using List.reverseRecOn generalizing m with
  | nil => cases h
  | append_singleton l t ih =>
    have ih : ∀ {m : String}, l.foldl pickLatest none = some m → ∀ u ∈ l, ¬ m < u :=
      ih fun u hu => hne u (List.mem_append_left _ hu)
    intro u hu
    rw [List.mem_append, List.mem_singleton] at hu
    rw [List.foldl_append, List.foldl_cons, List.foldl_nil] at h
    cases hl : l.foldl pickLatest none with
    | none =>
      rw [hl] at h
      obtain rfl : t = m := Option.some.inj h
      rw [foldl_pickLatest_eq_none hl] at hu
      rcases hu with hu | rfl
      · cases hu
      · exact String.lt_irrefl _
    | some best =>
      have hbest : best ≠ "" := hne best (List.mem_append_left _ (mem_of_foldl_pickLatest hl))
      have hsome : nonEmpty (some best) = some best := by simp [nonEmpty, Option.filter, hbest]
      have hpick : pickLatest (some best) t = if best < t then some t else some best := by
        rw [pickLatest, hsome]
      rw [hl, hpick] at h
      split at h
      · rename_i hlt
        obtain rfl := Option.some.inj h
        rcases hu with hu | rfl
        · exact fun htu => ih hl u hu (String.lt_trans hlt htu)
        · exact String.lt_irrefl _
      · rename_i hlt
        obtain rfl := Option.some.inj h
        rcases hu with hu | rfl
        · exact ih hl u hu
        · exact hlt

/-! ## One run -/

section Run

variable {P : Type}

/-- The timestamps a run of a source brings together: those of the
provider's items, those of its activity feeds, the start of the run, and
the stored watermark. -/
def timesMet (s : Store P) (sourceId : SourceId) (items feeds : Set String) (startedAt : String) :
    Set String :=
  {t | t ∈ items ∨ t ∈ feeds ∨ t = startedAt ∨ s.getWatermark sourceId = some t}

/-- The comparisons of a run agree with the order of the instants. -/
structure OrdersByInstant (s s' : Store P) (sourceId : SourceId) (items : Set String)
    (tracked : List String) (startedAt : String) : Prop where
  skips : ∀ w ∈ s.getWatermark sourceId, ∀ t ∈ items, t < w ↔ Before t w
  keeps : ∀ w ∈ s.getWatermark sourceId, ∀ t ∈ items, NotBefore t w → notOlder (some w) t = true
  picks : ∀ t ∈ tracked, ∀ u ∈ tracked, t < u ↔ Before t u
  latest : ∀ m, tracked.foldl pickLatest none = some m → ∀ t ∈ tracked, NotBefore m t
  merges : ∀ w ∈ s.getWatermark sourceId,
    ∀ c ∈ capWatermarkAtRunStart (tracked.foldl pickLatest none) startedAt, c < w ↔ Before c w
  forward : ∀ w ∈ s.getWatermark sourceId, ∃ w' ∈ s'.getWatermark sourceId, NotBefore w' w

/-- What a run must meet to order by instant. Its timestamps are spelled
alike; and where the store does not compare, a run that hands over a
watermark has started and has read a time not before the stored one. -/
structure SpelledAlike (s : Store P) (sourceId : SourceId) (items feeds : Set String)
    (tracked : List String) (withheld : Bool) (startedAt : String) : Prop where
  spelling : OneSpelling (timesMet s sourceId items feeds startedAt)
  sqlite : s.driver = .sqlite → withheld = false → tracked ≠ [] →
    ∀ w ∈ s.getWatermark sourceId, NotBefore startedAt w ∧ ∃ t ∈ tracked, NotBefore t w

theorem cap_some (m startedAt : String) :
    ∃ c, capWatermarkAtRunStart (some m) startedAt = some c := by
  unfold capWatermarkAtRunStart
  simp only
  split
  · split
    · exact ⟨_, rfl⟩
    · exact ⟨_, rfl⟩
  · exact ⟨_, rfl⟩

/-- The cap leaves a watermark as it is, or takes the run's start. -/
theorem mem_cap {m : Option String} {startedAt c : String}
    (h : c ∈ capWatermarkAtRunStart m startedAt) : c ∈ m ∨ c = startedAt := by
  unfold capWatermarkAtRunStart at h
  split at h
  · cases h
  · split at h
    · split at h
      · exact Or.inr (Option.some.inj h).symm
      · exact Or.inl h
    · exact Or.inl h

/-- **A run that is spelled alike orders by instant.** -/
theorem ordersByInstant_syncSource {s : Store P} (source : Source P)
    {prevWatermark : Option String} {opts : SyncOptions} {env : RunEnv} {items feeds : Set String} {tracked : List String}
    {withheld : Bool} {primary : FetchResult P}
    (hfetch : source.fetch { since := prevWatermark, full := opts.full } = .ok primary)
    (hwatermark : primary.watermark =
      if withheld then none else tracked.foldl pickLatest none)
    (htracked : ∀ t ∈ tracked, t ∈ items ∨ t ∈ feeds)
    (h : SpelledAlike s source.descriptor.sourceId items feeds tracked withheld env.startedAt) :
    OrdersByInstant s (syncSource s source prevWatermark opts env).1 source.descriptor.sourceId
      items tracked env.startedAt := by
  obtain ⟨hspell, hsqlite⟩ := h
  have hstored : ∀ w ∈ s.getWatermark source.descriptor.sourceId,
      w ∈ timesMet s source.descriptor.sourceId items feeds env.startedAt :=
    fun w hw => Or.inr (Or.inr (Or.inr hw))
  have hitem : ∀ t ∈ items, t ∈ timesMet s source.descriptor.sourceId items feeds env.startedAt :=
    fun t ht => Or.inl ht
  have hread : ∀ t ∈ tracked,
      t ∈ timesMet s source.descriptor.sourceId items feeds env.startedAt :=
    fun t ht => (htracked t ht).imp_right Or.inl
  have hlatest : ∀ m, tracked.foldl pickLatest none = some m → ∀ t ∈ tracked, NotBefore m t :=
    fun m hm t ht => (hspell.notBefore_iff (hread m (mem_of_foldl_pickLatest hm)) (hread t ht)).mpr
      (not_lt_of_foldl_pickLatest (fun u hu => hspell.ne_empty (hread u hu)) hm t ht)
  have hcapped : ∀ c ∈ capWatermarkAtRunStart (tracked.foldl pickLatest none) env.startedAt,
      c ∈ timesMet s source.descriptor.sourceId items feeds env.startedAt := by
    intro c hc
    rcases mem_cap hc with hc | rfl
    · exact hread c (mem_of_foldl_pickLatest hc)
    · exact Or.inr (Or.inr (Or.inl rfl))
  refine ⟨?_, ?_, ?_, hlatest, ?_, ?_⟩
  · exact fun w hw t ht => hspell.lt_iff_before (hitem t ht) (hstored w hw)
  · intro w hw t ht hnb
    exact decide_eq_true ((hspell.notBefore_iff (hitem t ht) (hstored w hw)).mp hnb)
  · exact fun t ht u hu => hspell.lt_iff_before (hread t ht) (hread u hu)
  · exact fun w hw c hc => hspell.lt_iff_before (hcapped c hc) (hstored w hw)
  · intro w hw
    have hself : NotBefore w w :=
      (hspell.notBefore_iff (hstored w hw) (hstored w hw)).mpr (String.lt_irrefl w)
    rcases syncSource_cases s source prevWatermark opts env with
      ⟨result, bundles, hcom, heq⟩ | ⟨-, ⟨msg, heq⟩ | heq⟩
    · obtain ⟨primary', hfetch', hresult⟩ := fetchWithRefresh_watermark hcom.fetched
      obtain rfl := Except.ok.inj (hfetch.symm.trans hfetch')
      rw [heq, getWatermark_commitRun, hresult, hwatermark]
      cases withheld with
      | true => exact ⟨w, by rw [if_pos rfl]; exact (mergeWatermark_none _ _).trans hw, hself⟩
      | false =>
        rw [if_neg (by decide)]
        cases hfold : tracked.foldl pickLatest none with
        | none => exact ⟨w, (mergeWatermark_none _ _).trans hw, hself⟩
        | some m =>
          obtain ⟨c, hc⟩ := cap_some m env.startedAt
          have hmem := mem_of_foldl_pickLatest hfold
          rw [hfold] at hcapped
          have hcT := hcapped c hc
          rw [hc, show s.getWatermark source.descriptor.sourceId = some w from hw]
          cases hd : s.driver with
          | postgres =>
            -- the greater text is the later instant
            refine ⟨if c < w then w else c, rfl, ?_⟩
            split
            · exact hself
            · rename_i hlt
              exact (hspell.notBefore_iff hcT (hstored w hw)).mpr hlt
          | sqlite =>
            obtain ⟨hstart, t, ht, hnb⟩ := hsqlite hd rfl (List.ne_nil_of_mem hmem) w hw
            refine ⟨c, rfl, ?_⟩
            rcases mem_cap hc with hcm | rfl
            · obtain rfl := Option.some.inj hcm
              exact (hlatest _ hfold t ht).trans hnb
            · exact hstart
    · rw [heq, getWatermark_recordFailedRun]
      exact ⟨w, hw, hself⟩
    · rw [heq]
      exact ⟨w, hw, hself⟩

end Run

/-! ## GitLab -/

namespace GitLab

/-- The update times of the items that the listings answer with. -/
def Answers.itemTimes (answers : Answers) : Set String :=
  {t | ∃ kind i call cursor conn, answers.listing kind i call cursor = .ok (some conn) ∧
    ∃ node ∈ conn.nodes, node.updatedAt = t}

/-- The times of the events and commits of the activity feeds. -/
def Answers.feedTimes (answers : Answers) : Set String :=
  {t | ∃ i rows, answers.activity i = .ok rows ∧
    t ∈ rows.dated.1.map Prod.snd ++ rows.dated.2.map Prod.snd}

theorem mem_bulkPages {since : Option String} {listing : Listing} {left : Nat}
    {s : Nat × Option String} {node : Node} (h : node ∈ (bulkPages since listing left s).1) :
    ∃ call cursor conn, listing call cursor = .ok (some conn) ∧ node ∈ conn.nodes := by
  induction left generalizing s with
  | zero => cases h
  | succ left ih =>
    rw [bulkPages] at h
    cases hreq : listing s.1 s.2 with
    | error msg =>
      simp only [request, hreq] at h
      cases h
    | ok found =>
      cases found with
      | none =>
        simp only [request, hreq] at h
        cases h
      | some conn =>
        simp only [request, hreq, Except.map, Option.map] at h
        have hpage : ∀ node ∈ conn.nodes.takeWhile fun node => notOlder since node.updatedAt,
            ∃ call cursor conn, listing call cursor = .ok (some conn) ∧ node ∈ conn.nodes :=
          fun node hn => ⟨s.1, s.2, conn, hreq, List.takeWhile_subset _ hn⟩
        split at h
        · exact hpage node h
        · split at h
          · exact hpage node h
          · rcases List.mem_append.mp h with h | h
            · exact hpage node h
            · exact ih h

end GitLab

namespace GitLabSource

open GitLab

variable (src : GitLabSource)

/-- The watermark is picked from times the provider answered with. -/
theorem mem_trackedTimes {now : String} {since : Option String} {answers : Answers} {t : String}
    (h : t ∈ src.trackedTimes now since answers) :
    t ∈ answers.itemTimes ∨ t ∈ answers.feedTimes := by
  rcases List.mem_append.mp h with h | h
  · left
    obtain ⟨c, hc, rfl⟩ := List.mem_map.mp h
    obtain ⟨b, hb, hc⟩ := List.mem_flatMap.mp hc
    obtain ⟨i, project, kind, -, rfl⟩ := src.of_mem_bulkReads since answers hb
    obtain ⟨node, hnode, rfl⟩ := List.mem_map.mp hc
    obtain ⟨call, cursor, conn, hok, hmem⟩ := mem_bulkPages hnode
    exact ⟨kind, i, call, cursor, conn, hok, node, hmem, rfl⟩
  · right
    obtain ⟨read, hread, ht⟩ := List.mem_filterMap.mp h
    unfold activityReads at hread
    split at hread
    · obtain ⟨⟨project, i⟩, -, rfl⟩ := List.mem_map.mp hread
      cases ha : answers.activity i with
      | error msg =>
        simp only [ha] at ht
        cases ht
      | ok rows =>
        simp only [ha] at ht
        exact ⟨i, rows, ha, mem_of_foldl_pickLatest (Option.filter_eq_some_iff.mp ht).1⟩
    · cases hread

/-- A run of the source, and what it tracks. -/
def runTracked (s : Store Payload) (r : SyncRun Answers) : List String :=
  src.trackedTimes r.now
    (sinceOf { since := if r.full then none else s.getWatermark src.descriptor.sourceId,
               full := r.full }) r.answers

/-- The run's timestamps are spelled alike. -/
def RunSpelledAlike (s : Store Payload) (r : SyncRun Answers) : Prop :=
  SpelledAlike s src.descriptor.sourceId r.answers.itemTimes r.answers.feedTimes
    (src.runTracked s r) false r.env.startedAt

/-- The run orders by instant. -/
def RunOrdersByInstant (s : Store Payload) (r : SyncRun Answers) : Prop :=
  OrdersByInstant s (runSource src.descriptor.sourceId src.toSource s r) src.descriptor.sourceId
    r.answers.itemTimes (src.runTracked s r) r.env.startedAt

theorem ordersByInstant_step (s : Store Payload) (r : SyncRun Answers)
    (h : src.RunSpelledAlike s r) : src.RunOrdersByInstant s r :=
  ordersByInstant_syncSource (src.toSource r.now r.answers) rfl rfl
    (fun _ ht => src.mem_trackedTimes ht) h

end GitLabSource

/-! ## GitHub -/

namespace GitHub

/-- The update times of the items that the listings, the probe and the
detail requests answer with. -/
def Answers.itemTimes (answers : Answers) : Set String :=
  {t | (∃ kind i call cursor size conn, answers.listing kind i call cursor size = .ok (some conn) ∧
      ∃ node ∈ conn.nodes, node.updatedAt = t) ∨
    (∃ i call cursor conn, answers.probe i call cursor = .ok (some conn) ∧
      ∃ row ∈ conn.nodes, row.updatedAt = some t) ∨
    ∃ i pos number node, answers.detail i pos number = .ok (some node) ∧ node.updatedAt = t}

/-- The times of the events, comments and commits of the activity feeds. -/
def Answers.feedTimes (answers : Answers) : Set String :=
  {t | ∃ i rows, answers.activity i = .ok rows ∧
    t ∈ (dated (·.occurred) rows.events).map Prod.snd ++
      (dated (·.updated) rows.issueComments ++ dated (·.updated) rows.reviewComments).map Prod.snd ++
      (dated (·.occurred) rows.commits).map Prod.snd}

theorem mem_times_visitNodes {since : Option String} {kind : RefKind} {now : String}
    {visit : Visit} {pos : Nat} {nodes : List Node} {t : String}
    (h : t ∈ (visitNodes since kind now visit pos nodes).1.times) :
    ∃ node ∈ nodes, node.updatedAt = t := by
  induction nodes generalizing pos with
  | nil => cases h
  | cons node nodes ih =>
    rw [visitNodes] at h
    split at h
    · cases h
    · split at h
      · exact ⟨node, List.mem_cons_self, (List.mem_singleton.mp h).symm⟩
      · rcases List.mem_append.mp h with h | h
        · exact ⟨node, List.mem_cons_self, (List.mem_singleton.mp h).symm⟩
        · obtain ⟨n, hn, heq⟩ := ih h
          exact ⟨n, List.mem_cons_of_mem _ hn, heq⟩

/-- A page comes from an answer of the listing. -/
theorem request_answered {listing : Listing} {s s' : ReaderState} {page : Page Node}
    (h : request listing s = .ok (some (page, s'))) :
    ∃ call cursor size conn, listing call cursor size = .ok (some conn) ∧
      page.nodes = conn.nodes := by
  unfold request at h
  simp only at h
  split at h
  · rename_i found hok
    cases found with
    | none => cases Except.ok.inj h
    | some conn =>
      obtain ⟨rfl, -⟩ := Prod.mk.inj (Option.some.inj (Except.ok.inj h))
      exact ⟨_, _, _, conn, hok, rfl⟩
  · split at h
    · cases h
    · split at h
      · rename_i found hok
        cases found with
        | none => cases Except.ok.inj h
        | some conn =>
          obtain ⟨rfl, -⟩ := Prod.mk.inj (Option.some.inj (Except.ok.inj h))
          exact ⟨_, _, _, conn, hok, rfl⟩
      · cases h

theorem mem_times_listPages {since : Option String} {kind : RefKind} {now : String}
    {visit : Visit} {listing : Listing} {fetched : Nat} {s : ReaderState} {t : String}
    (h : t ∈ (listPages since kind now visit listing fetched s).1.times) :
    ∃ call cursor size conn, listing call cursor size = .ok (some conn) ∧
      ∃ node ∈ conn.nodes, node.updatedAt = t := by
  rw [listPages] at h
  split at h
  · cases h
  · cases h
  · rename_i page s' hreq
    obtain ⟨call, cursor, size, conn, hok, hnodes⟩ := request_answered hreq
    have hvisit : ∀ t ∈ (visitNodes since kind now visit fetched page.nodes).1.times,
        ∃ call cursor size conn, listing call cursor size = .ok (some conn) ∧
          ∃ node ∈ conn.nodes, node.updatedAt = t :=
      fun t ht => ⟨call, cursor, size, conn, hok, hnodes ▸ mem_times_visitNodes ht⟩
    split at h
    · rename_i hvis
      rw [hvis] at hvisit
      exact hvisit t h
    · rename_i hvis
      rw [hvis] at hvisit
      split at h
      · exact hvisit t h
      · split at h
        · exact hvisit t h
        · rename_i hcap
          have hlen := List.length_pos_of_ne_nil (not_or.mp hcap).2
          rcases List.mem_append.mp h with h | h
          · exact hvisit t h
          · exact mem_times_listPages h
termination_by maxItems - fetched

/-- An incremental record counts with the time of an answered request. -/
theorem mem_times_sweepIncremental {project since now : String} {listing : ProbeListing}
    {detail : Nat → Nat → Except String (Option Node)} {threads : Nat → ThreadPages} {t : String}
    (h : t ∈ (sweepIncremental project since now listing detail threads).times) :
    ∃ pos number node, detail pos number = .ok (some node) ∧ node.updatedAt = t := by
  unfold sweepIncremental at h
  split at h
  · cases h
  · rename_i incremental hinc
    have h : incremental.watermark = some t :=
      (Option.filter_eq_some_iff.mp (Option.mem_toList.mp h)).1
    unfold fetchIncrementalPullRequests at hinc
    split at hinc
    · obtain rfl := Except.ok.inj hinc
      cases h
    · split at hinc
      · cases hinc
      · obtain rfl := Except.ok.inj hinc
        cases h
      · obtain rfl := Except.ok.inj hinc
        obtain ⟨r, hr, ht⟩ := List.mem_filterMap.mp (mem_of_foldl_pickLatest h)
        obtain ⟨outcome, hout, hr⟩ := List.mem_filterMap.mp hr
        obtain ⟨⟨c, pos⟩, -, rfl⟩ := List.mem_map.mp hout
        simp only [resolveDetail] at hr
        split at hr
        · cases hr
        · cases hr
        · rename_i node hdetail
          split at hr
          · cases hr
          · rename_i node' hthreads
            obtain ⟨conn, rfl⟩ := completeReviewThreads_eq hthreads
            obtain rfl := Option.some.inj hr
            have ht : nonEmpty (some node.updatedAt) = some t := ht
            exact ⟨pos, c.number, node, hdetail,
              Option.some.inj (Option.filter_eq_some_iff.mp ht).1⟩

/-- The latest time of a project's feeds is the time of one of their rows. -/
theorem mem_feedTimes {answers : Answers} {project now : String} {i : Nat} {rows : ActivityRows}
    (hrows : answers.activity i = .ok rows) {t : String}
    (h : (repoActivity project now rows).2 = some t) : t ∈ answers.feedTimes := by
  refine ⟨i, rows, hrows, ?_⟩
  rcases List.mem_append.mp (mem_of_foldl_pickLatest h) with h | h
  · rcases List.mem_append.mp h with h | h
    · exact List.mem_append_left _ (List.mem_append_left _ h)
    · exact List.mem_append_left _
        (List.mem_append_right _ (mem_of_foldl_pickLatest (Option.mem_toList.mp h)))
  · exact List.mem_append_right _ h

end GitHub

namespace GitHubSource

open GitHub

variable (src : GitHubSource)

theorem mem_times_sweepReads {now : String} {since : Option String} {answers : Answers}
    {read : SweepRead} (hread : read ∈ src.sweepReads now since answers) {t : String}
    (h : t ∈ read.times) : t ∈ answers.itemTimes := by
  have hlisting : ∀ kind {since project visit i},
      t ∈ (sweepListing since kind project now visit (answers.listing kind i)).times →
      t ∈ answers.itemTimes := by
    intro kind since project visit i h
    obtain ⟨call, cursor, size, conn, hok, hnode⟩ := mem_times_listPages h
    exact Or.inl ⟨kind, i, call, cursor, size, conn, hok, hnode⟩
  obtain ⟨⟨project, i⟩, -, hread⟩ := List.mem_flatMap.mp hread
  rcases List.mem_pair.mp hread with rfl | rfl
  · exact hlisting .issue h
  · unfold pullRequestRead at h
    split at h
    · obtain ⟨pos, number, node, hok, heq⟩ := mem_times_sweepIncremental h
      exact Or.inr (Or.inr ⟨i, pos, number, node, hok, heq⟩)
    · exact hlisting .changeRequest h

/-- The watermark is picked from times the provider answered with. -/
theorem mem_trackedTimes {now : String} {since : Option String} {answers : Answers} {t : String}
    (h : t ∈ src.trackedTimes now since answers) :
    t ∈ answers.itemTimes ∨ t ∈ answers.feedTimes := by
  rcases List.mem_append.mp h with h | h
  · obtain ⟨read, hread, ht⟩ := List.mem_flatMap.mp h
    exact Or.inl (src.mem_times_sweepReads hread ht)
  · right
    obtain ⟨read, hread, ht⟩ := List.mem_filterMap.mp h
    obtain ⟨⟨project, i⟩, -, rfl⟩ := List.mem_map.mp hread
    cases ha : answers.activity i with
    | error msg =>
      simp only [ha] at ht
      cases ht
    | ok rows =>
      simp only [ha] at ht
      exact mem_feedTimes ha (Option.filter_eq_some_iff.mp ht).1

/-- A run of the source, and what it tracks. -/
def runTracked (s : Store Payload) (r : SyncRun Answers) : List String :=
  src.trackedTimes r.now
    (sinceOf { since := if r.full then none else s.getWatermark src.descriptor.sourceId,
               full := r.full }) r.answers

/-- The run keeps its watermark to itself. -/
def runWithholds (s : Store Payload) (r : SyncRun Answers) : Bool :=
  src.withholds r.now
    (sinceOf { since := if r.full then none else s.getWatermark src.descriptor.sourceId,
               full := r.full }) r.answers

/-- The run's timestamps are spelled alike. -/
def RunSpelledAlike (s : Store Payload) (r : SyncRun Answers) : Prop :=
  SpelledAlike s src.descriptor.sourceId r.answers.itemTimes r.answers.feedTimes
    (src.runTracked s r) (src.runWithholds s r) r.env.startedAt

/-- The run orders by instant. -/
def RunOrdersByInstant (s : Store Payload) (r : SyncRun Answers) : Prop :=
  OrdersByInstant s (runSource src.descriptor.sourceId src.toSource s r) src.descriptor.sourceId
    r.answers.itemTimes (src.runTracked s r) r.env.startedAt

theorem ordersByInstant_step (s : Store Payload) (r : SyncRun Answers)
    (h : src.RunSpelledAlike s r) : src.RunOrdersByInstant s r :=
  ordersByInstant_syncSource (src.toSource r.now r.answers) rfl rfl
    (fun _ ht => src.mem_trackedTimes ht) h

end GitHubSource

/-! ## Runs -/

/-- **Runs that are spelled alike order by instant**, for both adapters. -/
theorem ordersByInstant_run (gitlab : GitLabSource) (github : GitHubSource) :
    (∀ (s : Store GitLab.Payload) (runs : List (SyncRun GitLab.Answers)),
      EachStep (runSource gitlab.descriptor.sourceId gitlab.toSource) gitlab.RunSpelledAlike s runs →
      EachStep (runSource gitlab.descriptor.sourceId gitlab.toSource) gitlab.RunOrdersByInstant s
        runs) ∧
    (∀ (s : Store GitHub.Payload) (runs : List (SyncRun GitHub.Answers)),
      EachStep (runSource github.descriptor.sourceId github.toSource) github.RunSpelledAlike s runs →
      EachStep (runSource github.descriptor.sourceId github.toSource) github.RunOrdersByInstant s
        runs) := by
  constructor
  · exact fun s runs h => h.imp gitlab.ordersByInstant_step
  · exact fun s runs h => h.imp github.ordersByInstant_step

/-! ## One project, one morning -/

namespace OneMorning

open OneProject TwoRuns

theorem validDate_firstOfJune : 2026 < 10000 ∧ ValidDate 2026 6 1 :=
  ⟨by decide, by decide, by decide⟩

theorem time_onTheMinute (hour : Fin 24) (minute : Fin 60) :
    hour.val < 24 ∧ minute.val < 60 ∧ 0 < 60 := ⟨hour.isLt, minute.isLt, by decide⟩

theorem noFraction : ∀ f ∈ (none : Option (ℕ × ℕ)), 1 ≤ f.1 ∧ f.1 ≤ 3 ∧ f.2 < 10 ^ f.1 := nofun

/-- A time of 1 June 2026, to the second. -/
def clock (hour : Fin 24) (minute : Fin 60) : Stamp :=
  { year := 2026, month := 6, day := 1, hour, minute, second := 0, fraction := none, offset := .utc
    date := validDate_firstOfJune
    time := time_onTheMinute hour minute
    fractionDigits := noFraction
    offsetValid := trivial }

/-- The same, to the millisecond. -/
def clockMs (hour : Fin 24) (minute : Fin 60) : Stamp :=
  { clock hour minute with
    fraction := some (3, 0)
    fractionDigits := fun f hf => by
      obtain rfl := Option.some.inj hf
      decide }

/-- The times of two runs, and of an issue before each. -/
def stamps : List Stamp := [clock 8 0, clockMs 8 30, clock 10 0, clockMs 10 30]

theorem oneSpelling_stamps : OneSpelling ({t | ∃ a ∈ stamps, a.text = t}) :=
  oneSpelling_of_stamps (o := .utc) (by decide) (by decide)

/-- Eight o'clock, as GitLab writes it. -/
def eight : String := "2026-06-01T08:00:00Z"

/-- Ten o'clock, as GitLab writes it. -/
def ten : String := "2026-06-01T10:00:00Z"

/-- The start of the first run, as `toISOString` writes it. -/
def firstStart : String := "2026-06-01T08:30:00.000Z"

/-- The start of the second run. -/
def secondStart : String := "2026-06-01T10:30:00.000Z"

theorem text_eight : eight ∈ {t | ∃ a ∈ stamps, a.text = t} :=
  ⟨clock 8 0, by simp [stamps], by decide⟩

theorem text_ten : ten ∈ {t | ∃ a ∈ stamps, a.text = t} :=
  ⟨clock 10 0, by simp [stamps], by decide⟩

theorem text_firstStart : firstStart ∈ {t | ∃ a ∈ stamps, a.text = t} :=
  ⟨clockMs 8 30, by simp [stamps], by decide⟩

theorem text_secondStart : secondStart ∈ {t | ∃ a ∈ stamps, a.text = t} :=
  ⟨clockMs 10 30, by simp [stamps], by decide⟩

/-- A GitLab run that finds one issue. -/
def gitlabRun (startedAt updatedAt : String) : SyncRun GitLab.Answers :=
  run startedAt
    (gitlabProvider [gitlabNode "1" updatedAt] [] (latestFirst_gitlabNode "1" updatedAt)
      (latestFirst_nil GitLab.Node.updatedAt)).answers

/-- A GitHub run that finds one issue. -/
def githubRun (startedAt updatedAt : String) : SyncRun GitHub.Answers :=
  run startedAt
    (githubProvider [githubNode "1" updatedAt] [] (latestFirst_githubNode "1" updatedAt)
      (latestFirst_nil GitHub.Node.updatedAt) noNumbers).answers

theorem gitlab_itemTimes {startedAt updatedAt t : String}
    (h : t ∈ (gitlabRun startedAt updatedAt).answers.itemTimes) : t = updatedAt := by
  obtain ⟨kind, i, call, cursor, conn, hok, node, hnode, rfl⟩ := h
  cases kind <;> cases call <;> cases hok
  · obtain rfl := List.mem_singleton.mp hnode
    rfl
  · cases hnode

theorem gitlab_feedTimes {startedAt updatedAt t : String} :
    t ∉ (gitlabRun startedAt updatedAt).answers.feedTimes := by
  rintro ⟨i, rows, hok, ht⟩
  cases hok
  cases ht

theorem github_itemTimes {startedAt updatedAt t : String}
    (h : t ∈ (githubRun startedAt updatedAt).answers.itemTimes) : t = updatedAt := by
  rcases h with ⟨kind, i, call, cursor, size, conn, hok, node, hnode, rfl⟩ |
    ⟨i, call, cursor, conn, hok, node, hnode, -⟩ | ⟨i, pos, number, node, hok, -⟩
  · cases kind <;> cases call <;> cases hok
    · obtain rfl := List.mem_singleton.mp hnode
      rfl
    · cases hnode
  · cases call <;> cases hok
    cases hnode
  · cases hok

theorem github_feedTimes {startedAt updatedAt t : String} :
    t ∉ (githubRun startedAt updatedAt).answers.feedTimes := by
  rintro ⟨i, rows, hok, ht⟩
  cases hok
  cases ht

theorem gitlab_stored : (runSource gitlab.descriptor.sourceId gitlab.toSource (Store.empty .sqlite)
    (gitlabRun firstStart eight)).getWatermark gitlab.descriptor.sourceId = some eight := by
  decide

/-- Two GitLab runs, and one of GitHub, whose times are spelled alike. -/
theorem ordersByInstant_morning :
    EachStep (runSource gitlab.descriptor.sourceId gitlab.toSource) gitlab.RunOrdersByInstant
        (Store.empty .sqlite) [gitlabRun firstStart eight, gitlabRun secondStart ten] ∧
      EachStep (runSource github.descriptor.sourceId github.toSource) github.RunOrdersByInstant
        (Store.empty .sqlite) [githubRun firstStart eight] := by
  constructor
  · refine (ordersByInstant_run gitlab github).1 _ _ ⟨⟨?_, ?_⟩, ⟨?_, ?_⟩, trivial⟩
    · refine oneSpelling_stamps.mono fun t ht => ?_
      rcases ht with ht | ht | rfl | ht
      · exact gitlab_itemTimes ht ▸ text_eight
      · exact absurd ht gitlab_feedTimes
      · exact text_firstStart
      · cases ht
    · intro _ _ _ w hw
      cases hw
    · refine oneSpelling_stamps.mono fun t ht => ?_
      rcases ht with ht | ht | rfl | ht
      · exact gitlab_itemTimes ht ▸ text_ten
      · exact absurd ht gitlab_feedTimes
      · exact text_secondStart
      · exact Option.some.inj (gitlab_stored.symm.trans ht) ▸ text_eight
    · intro _ _ _ w hw
      obtain rfl := Option.some.inj (gitlab_stored.symm.trans hw)
      exact ⟨(oneSpelling_stamps.notBefore_iff text_secondStart text_eight).mpr (by decide), ten,
        by decide, (oneSpelling_stamps.notBefore_iff text_ten text_eight).mpr (by decide)⟩
  · refine (ordersByInstant_run gitlab github).2 _ _ ⟨⟨?_, ?_⟩, trivial⟩
    · refine oneSpelling_stamps.mono fun t ht => ?_
      rcases ht with ht | ht | rfl | ht
      · exact github_itemTimes ht ▸ text_eight
      · exact absurd ht github_feedTimes
      · exact text_firstStart
      · cases ht
    · intro _ _ _ w hw
      cases hw

/-- A GitLab source whose activity is read. -/
def gitlabRest : GitLabSource := { gitlab with hasRest := true }

/-- A commit made at noon, as a clock eight hours ahead of UTC spells it. -/
def commit : GitLab.Commit :=
  { id := "c0ffee", committedDate := some "2026-06-01T20:00:00.000+08:00", createdAt := none,
    authoredDate := none }

/-- A run whose newest record has an offset. -/
def offsetRun : SyncRun GitLab.Answers :=
  run "2026-06-01T13:00:00.000Z"
    { gitlabAnswers (some emptyPage) with
      activity := fun _ => .ok { events := [], commits := [commit] } }

/-- The next run: an issue updated three hours after the commit. -/
def issueRun : SyncRun GitLab.Answers :=
  gitlabRun "2026-06-01T16:00:00.000Z" "2026-06-01T15:00:00Z"

end OneMorning

open OneMorning in
/-- **A watermark of another offset hides a later update.** A commit's date
keeps the offset it was made with and becomes the watermark; as text it is
after an issue that was updated three hours later. -/
theorem not_ordersByInstant :
    ¬ ∀ (src : GitLabSource) (runs : List (SyncRun GitLab.Answers)),
      EachStep (runSource src.descriptor.sourceId src.toSource) src.RunOrdersByInstant
        (Store.empty .sqlite) runs := by
  intro h
  have hsecond := (h gitlabRest [offsetRun, issueRun]).2.1
  have hstored : (runSource gitlabRest.descriptor.sourceId gitlabRest.toSource
      (Store.empty .sqlite) offsetRun).getWatermark gitlabRest.descriptor.sourceId =
        some "2026-06-01T20:00:00.000+08:00" := by decide
  have hitem : "2026-06-01T15:00:00Z" ∈ issueRun.answers.itemTimes :=
    ⟨.issue, 0, 0, none, _, rfl, _, List.mem_singleton_self _, rfl⟩
  have hnoon : dateParse "2026-06-01T20:00:00.000+08:00" = some 1780315200000 := by decide
  have hthree : dateParse "2026-06-01T15:00:00Z" = some 1780326000000 := by decide
  have hkept := hsecond.keeps _ hstored _ hitem ⟨_, _, hthree, hnoon, by decide⟩
  exact absurd hkept (by decide)

end SymphonyBoard
