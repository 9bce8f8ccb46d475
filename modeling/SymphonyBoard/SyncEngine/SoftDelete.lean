import SymphonyBoard.Common.Run
import SymphonyBoard.Common.SoftDelete
import SymphonyBoard.Sources.Completeness
import SymphonyBoard.Sources.GitHub.TrackerRefs
import SymphonyBoard.SyncEngine.Writes
/-!
# What is live after a run

Items, edges and review threads each have their own upsert, which revives,
and their own sweep. Each table is read here as its marks, and a run as a
pass over them, so one argument covers the three. `softDeletes_exact` is
the result over whole sequences of runs of any sources.
-/

namespace SymphonyBoard

variable {P : Type}

/-! ## The tables as marks -/

namespace Store

/-- The marks of an item's row. -/
def itemMarks (s : Store P) (k : ItemEndpoint) : Option (Mark String) :=
  (s.items.get? k).map fun row => ⟨row.lastSeenAt, row.deletedAt⟩

/-- The marks of an edge's row. -/
def edgeMarks (s : Store P) (k : EdgeRowKey) : Option (Mark String) :=
  (s.edges.get? k).map fun row => ⟨row.lastSeenAt, row.deletedAt⟩

/-- The marks of a review thread's row. -/
def reviewThreadMarks (s : Store P) (k : ItemEndpoint) : Option (Mark String) :=
  (s.reviewThreads.get? k).map fun row => ⟨row.lastSeenAt, row.deletedAt⟩

end Store

/-! ## A run as a pass -/

section Passes

variable (source : Source P) (opts : SyncOptions) (env : RunEnv) (result : FetchResult P)
  (bundles : List NormalizedBundle)

/-- The items a run writes, and the ones its sweep reaches. -/
def itemPass : MarkPass ItemEndpoint String where
  startedAt := env.startedAt
  sweepAt := env.sweepAt
  writes k := ∃ b ∈ bundles, ∃ i, b.item = some i ∧ i.endpoint = k
  reaches k := sweeps opts result ∧ k.sourceId = source.descriptor.sourceId

/-- An edge is reached when both its ends are the source's. -/
def edgePass : MarkPass EdgeRowKey String where
  startedAt := env.startedAt
  sweepAt := env.sweepAt
  writes k := ∃ e ∈ refinedEdges bundles, e.rowKey = k
  reaches k := sweeps opts result ∧ k.2.1.sourceId = source.descriptor.sourceId ∧
    k.2.2.sourceId = source.descriptor.sourceId

/-- What a run does to the review threads: which rows it writes and which it may delete. -/
def reviewThreadPass : MarkPass ItemEndpoint String where
  startedAt := env.startedAt
  sweepAt := env.sweepAt
  writes k := ∃ b ∈ bundles, ∃ t ∈ b.reviewThreads, t.endpoint = k
  reaches k := sweeps opts result ∧ k.sourceId = source.descriptor.sourceId

/-- A table whose rows are replaced where the run has one for them, and
then swept, has been passed over. -/
theorem result_of_rows {K R : Type} (pass : MarkPass K String) (mark : R → Mark String)
    (fresh : K → Option R → Option R) (swept : K → R → R) (rows rows' : K → Option R)
    (hrows : ∀ k, rows' k = ((fresh k (rows k)).or (rows k)).map (swept k))
    (hwrites : ∀ k, pass.writes k ↔ fresh k (rows k) ≠ none)
    (hfresh : ∀ k r, fresh k (rows k) = some r → mark (swept k r) = ⟨pass.startedAt, none⟩)
    (hswept : ∀ k r, pass.reaches k → (mark r).deletedAt = none →
      (mark r).lastSeenAt < pass.startedAt →
        mark (swept k r) = { mark r with deletedAt := some pass.sweepAt })
    (hkept : ∀ k r, ¬ (pass.reaches k ∧ (mark r).deletedAt = none ∧
      (mark r).lastSeenAt < pass.startedAt) → swept k r = r) :
    pass.Result (fun k => (rows k).map mark) fun k => (rows' k).map mark where
  written k hk := by
    obtain ⟨r, hr⟩ := Option.ne_none_iff_exists'.mp ((hwrites k).mp hk)
    rw [hrows, hr, Option.some_or, Option.map_some, Option.map_some, hfresh k r hr]
  swept k m hm hs := by
    have hnone : fresh k (rows k) = none := by
      by_contra hne
      exact hs.1 ((hwrites k).mpr hne)
    obtain ⟨r, hr, rfl⟩ := Option.map_eq_some_iff.mp hm
    rw [hrows, hnone, Option.none_or, hr, Option.map_some, Option.map_some,
      hswept k r hs.2.1 hs.2.2.1 hs.2.2.2]
  kept k hw hs := by
    have hnone : fresh k (rows k) = none := by
      by_contra hne
      exact hw ((hwrites k).mpr hne)
    rw [hrows, hnone, Option.none_or]
    cases hr : rows k with
    | none => rfl
    | some r =>
      have hkeep := hkept k r fun h => hs (mark r) (by rw [hr]; rfl) ⟨hw, h⟩
      rw [Option.map_some, hkeep]

theorem unseen_iff {deletedAt : Option String} {lastSeenAt cutoff : String} :
    Store.unseen deletedAt lastSeenAt cutoff = true ↔ deletedAt = none ∧ lastSeenAt < cutoff := by
  simp [Store.unseen]

theorem itemPass_result (s : Store P) :
    (itemPass source opts env result bundles).Result s.itemMarks
      (commitRun s source opts env result bundles).itemMarks := by
  refine result_of_rows (itemPass source opts env result bundles)
    (fun row : ItemRow => ⟨row.lastSeenAt, row.deletedAt⟩)
    (fun k _ => (lastItem bundles k).map (itemRow source env.startedAt))
    (sweptItemRow source opts env result) s.items.get? _
    (commitRun_items s source opts env result bundles) ?_ ?_ ?_ ?_
  · intro k
    rw [Ne, Option.map_eq_none_iff, lastItem_eq_none_iff]
    simp [itemPass]
  · intro k r hr
    obtain ⟨i, -, rfl⟩ := Option.map_eq_some_iff.mp hr
    rw [sweptItemRow_itemRow]
    rfl
  · intro k r hreach hlive hlt
    rw [sweptItemRow, if_pos ⟨hreach.1, hreach.2, unseen_iff.mpr ⟨hlive, hlt⟩⟩]
    rfl
  · intro k r hnot
    rw [sweptItemRow, if_neg]
    rintro ⟨hs, hk, hunseen⟩
    exact hnot ⟨⟨hs, hk⟩, unseen_iff.mp hunseen⟩

theorem refinedAt_ne_none_iff (k : EdgeRowKey) :
    refinedAt bundles k ≠ none ↔ ∃ e ∈ refinedEdges bundles, e.rowKey = k := by
  have hfilter := filter_refinedEdges bundles k
  constructor
  · intro hne
    obtain ⟨e, he⟩ := Option.ne_none_iff_exists'.mp hne
    have hmem : e ∈ (refinedEdges bundles).filter fun e => e.rowKey = k := by
      rw [hfilter, he]
      exact List.mem_singleton_self e
    exact ⟨e, (List.mem_filter.mp hmem).1, by simpa using (List.mem_filter.mp hmem).2⟩
  · rintro ⟨e, he, hk⟩ hnone
    have hmem : e ∈ (refinedEdges bundles).filter fun e => e.rowKey = k :=
      List.mem_filter.mpr ⟨he, by simpa using hk⟩
    rw [hfilter, hnone] at hmem
    cases hmem

theorem edgePass_result (s : Store P) :
    (edgePass source opts env result bundles).Result s.edgeMarks
      (commitRun s source opts env result bundles).edgeMarks := by
  refine result_of_rows (edgePass source opts env result bundles)
    (fun row : EdgeRow => ⟨row.lastSeenAt, row.deletedAt⟩)
    (fun k old => (refinedAt bundles k).map fun e => edgeRow env.startedAt e old)
    (sweptEdgeRow source opts env result) s.edges.get? _
    (commitRun_edges s source opts env result bundles) ?_ ?_ ?_ ?_
  · intro k
    rw [Ne, Option.map_eq_none_iff]
    exact (refinedAt_ne_none_iff bundles k).symm
  · intro k r hr
    obtain ⟨e, -, rfl⟩ := Option.map_eq_some_iff.mp hr
    rw [sweptEdgeRow, if_neg]
    · rfl
    · rintro ⟨-, -, -, hunseen⟩
      exact String.lt_irrefl _ (unseen_iff.mp hunseen).2
  · intro k r hreach hlive hlt
    rw [sweptEdgeRow, if_pos ⟨hreach.1, hreach.2.1, hreach.2.2, unseen_iff.mpr ⟨hlive, hlt⟩⟩]
    rfl
  · intro k r hnot
    rw [sweptEdgeRow, if_neg]
    rintro ⟨hs, hfrom, hto, hunseen⟩
    exact hnot ⟨⟨hs, hfrom, hto⟩, unseen_iff.mp hunseen⟩

theorem reviewThreadPass_result (s : Store P) :
    (reviewThreadPass source opts env result bundles).Result s.reviewThreadMarks
      (commitRun s source opts env result bundles).reviewThreadMarks := by
  refine result_of_rows (reviewThreadPass source opts env result bundles)
    (fun row : ReviewThreadRow => ⟨row.lastSeenAt, row.deletedAt⟩)
    (fun k _ => (lastReviewThread bundles k).map (reviewThreadRow env.startedAt))
    (sweptReviewThreadRow source opts env result) s.reviewThreads.get? _
    (commitRun_reviewThreads s source opts env result bundles) ?_ ?_ ?_ ?_
  · intro k
    simp only [reviewThreadPass, Ne, Option.map_eq_none_iff, lastReviewThread,
      List.getLast?_eq_none_iff, List.filter_eq_nil_iff, List.mem_flatMap, decide_eq_true_eq]
    constructor
    · rintro ⟨b, hb, t, ht, hk⟩ hall
      exact hall t ⟨b, hb, ht⟩ hk
    · intro hnot
      by_contra hnone
      refine hnot fun t hmem hk => ?_
      obtain ⟨b, hb, ht⟩ := hmem
      exact hnone ⟨b, hb, t, ht, hk⟩
  · intro k r hr
    obtain ⟨t, -, rfl⟩ := Option.map_eq_some_iff.mp hr
    rw [sweptReviewThreadRow, if_neg]
    · rfl
    · rintro ⟨-, -, hunseen⟩
      exact String.lt_irrefl _ (unseen_iff.mp hunseen).2
  · intro k r hreach hlive hlt
    rw [sweptReviewThreadRow, if_pos ⟨hreach.1, hreach.2, unseen_iff.mpr ⟨hlive, hlt⟩⟩]
    rfl
  · intro k r hnot
    rw [sweptReviewThreadRow, if_neg]
    rintro ⟨hs, hk, hunseen⟩
    exact hnot ⟨⟨hs, hk⟩, unseen_iff.mp hunseen⟩

end Passes

/-! ## Runs of any sources -/

/-- What a source normalizes is its own: its items and review threads carry
its id, and an edge within one source is within this one. -/
structure OwnRows (source : Source P) : Prop where
  item : ∀ r b i, source.normalize r = .ok (some b) → b.item = some i →
    i.sourceId = source.descriptor.sourceId
  edge : ∀ r b e, source.normalize r = .ok (some b) → e ∈ b.edges →
    e.fromEnd.sourceId = e.toEnd.sourceId → e.fromEnd.sourceId = source.descriptor.sourceId
  reviewThread : ∀ r b t, source.normalize r = .ok (some b) → t ∈ b.reviewThreads →
    t.sourceId = source.descriptor.sourceId

/-- One call of `syncSource`. -/
structure SourceRun (P : Type) where
  source : Source P
  prevWatermark : Option String
  opts : SyncOptions
  env : RunEnv

namespace SourceRun

/-- A run on the store. -/
def apply (s : Store P) (run : SourceRun P) : Store P :=
  (syncSource s run.source run.prevWatermark run.opts run.env).1

/-- The run's source. -/
def sourceId (run : SourceRun P) : SourceId := run.source.descriptor.sourceId

/-- The run commits what it fetched. -/
def Committed (s : Store P) (run : SourceRun P) (result : FetchResult P)
    (bundles : List NormalizedBundle) : Prop :=
  Commits s run.source run.prevWatermark run.opts run.env result bundles

end SourceRun

/-- After a full and complete pass the live rows among some are exactly the
ones it wrote, and exactly the ones last seen at or after its start. -/
structure SweptExactly {K : Type} (pass : MarkPass K String) (own : K → Prop)
    (after : K → Option (Mark String)) : Prop where
  written : ∀ k, own k → (LiveMark after k ↔ pass.writes k)
  seen : ∀ k, own k →
    (LiveMark after k ↔ ∃ m, after k = some m ∧ ¬ m.lastSeenAt < pass.startedAt)

/-- No row of the table is tombstoned. -/
def NoneTombstoned {K : Type} (before after : K → Option (Mark String)) : Prop :=
  ∀ k m t, after k = some m → m.deletedAt = some t →
    ∃ m₀, before k = some m₀ ∧ m₀.deletedAt = some t

/-- What one run does to the tombstones of the three tables. -/
structure RunExact (s : Store P) (run : SourceRun P) : Prop where
  swept : ∀ result bundles, run.Committed s result bundles → sweeps run.opts result = true →
    SweptExactly (itemPass run.source run.opts run.env result bundles)
        (fun k => k.sourceId = run.sourceId) (run.apply s).itemMarks ∧
      SweptExactly (edgePass run.source run.opts run.env result bundles)
        (fun k => k.2.1.sourceId = run.sourceId ∧ k.2.2.sourceId = run.sourceId)
        (run.apply s).edgeMarks ∧
      SweptExactly (reviewThreadPass run.source run.opts run.env result bundles)
        (fun k => k.sourceId = run.sourceId) (run.apply s).reviewThreadMarks
  revived : ∀ result bundles, run.Committed s result bundles →
    (∀ k, (itemPass run.source run.opts run.env result bundles).writes k →
        LiveMark (run.apply s).itemMarks k) ∧
      (∀ k, (edgePass run.source run.opts run.env result bundles).writes k →
        LiveMark (run.apply s).edgeMarks k) ∧
      ∀ k, (reviewThreadPass run.source run.opts run.env result bundles).writes k →
        LiveMark (run.apply s).reviewThreadMarks k
  otherItems : ∀ k, k.sourceId ≠ run.sourceId → (run.apply s).itemMarks k = s.itemMarks k
  otherEdges : ∀ k, k.2.1.sourceId = k.2.2.sourceId → k.2.1.sourceId ≠ run.sourceId →
    (run.apply s).edgeMarks k = s.edgeMarks k
  crossEdges : ∀ k, k.2.1.sourceId ≠ k.2.2.sourceId → ∀ m, s.edgeMarks k = some m →
    ∃ m', (run.apply s).edgeMarks k = some m' ∧ m'.deletedAt = m.deletedAt
  otherReviewThreads : ∀ k, k.sourceId ≠ run.sourceId →
    (run.apply s).reviewThreadMarks k = s.reviewThreadMarks k
  unswept : (¬ ∃ result bundles, run.Committed s result bundles ∧ sweeps run.opts result = true) →
    NoneTombstoned s.itemMarks (run.apply s).itemMarks ∧
      NoneTombstoned s.edgeMarks (run.apply s).edgeMarks ∧
      NoneTombstoned s.reviewThreadMarks (run.apply s).reviewThreadMarks

/-! ## One run -/

theorem exists_record_of_bundle {source : Source P} {records : List (RawRecord P)}
    {bundles : List NormalizedBundle} (h : normalizeRecords source records = .ok bundles)
    {b : NormalizedBundle} (hb : b ∈ bundles) :
    ∃ r ∈ records, source.normalize r = .ok (some b) := by
  have aux : ∀ (records : List (RawRecord P)) (outs : List (Option NormalizedBundle)),
      records.mapM source.normalize = .ok outs → ∀ o ∈ outs, ∃ r ∈ records,
        source.normalize r = .ok o := by
    intro records
    induction records with
    | nil =>
      intro outs houts o ho
      obtain rfl := Except.ok.inj houts
      cases ho
    | cons r records ih =>
      intro outs houts o ho
      rw [List.mapM_cons] at houts
      cases hr : source.normalize r with
      | error msg =>
        rw [hr] at houts
        cases houts
      | ok out =>
        cases hrest : records.mapM source.normalize with
        | error msg =>
          rw [hr, hrest] at houts
          cases houts
        | ok rest =>
          rw [hr, hrest] at houts
          obtain rfl := Except.ok.inj houts
          rcases List.mem_cons.mp ho with rfl | ho
          · exact ⟨r, List.mem_cons_self, hr⟩
          · obtain ⟨r', hr', hout⟩ := ih rest hrest o ho
            exact ⟨r', List.mem_cons_of_mem _ hr', hout⟩
  unfold normalizeRecords at h
  cases houts : records.mapM source.normalize with
  | error msg =>
    rw [houts] at h
    cases h
  | ok outs =>
    rw [houts] at h
    obtain rfl := Except.ok.inj h
    obtain ⟨o, ho, rfl⟩ := List.mem_filterMap.mp hb
    exact aux records outs houts _ ho

/-- An edge a run writes was reported by one of its bundles. -/
theorem exists_edge_of_writes {source : Source P} {opts : SyncOptions} {env : RunEnv}
    {result : FetchResult P} {bundles : List NormalizedBundle} {k : EdgeRowKey}
    (h : (edgePass source opts env result bundles).writes k) :
    ∃ b ∈ bundles, ∃ e ∈ b.edges, e.fromEnd = k.2.1 ∧ e.toEnd = k.2.2 := by
  have hne := (refinedAt_ne_none_iff bundles k).mpr h
  rcases reconcileMap_get? (discovered bundles)
      (k.1, refOfEndpoint k.2.1, refOfEndpoint k.2.2) with ⟨hnone, -⟩ | ⟨e, -, hreports, -⟩
  · exact absurd (by rw [refinedAt, hnone]; rfl) hne
  · obtain ⟨d, hd⟩ := List.exists_mem_of_ne_nil _ hreports
    obtain ⟨hd, hkey⟩ := List.mem_filter.mp hd
    have hkey : keyOf d.1 = (k.1, refOfEndpoint k.2.1, refOfEndpoint k.2.2) := by simpa using hkey
    simp only [keyOf, Prod.mk.injEq, refOfEndpoint_injective.eq_iff] at hkey
    obtain ⟨b, hb, hdb⟩ := List.mem_flatMap.mp hd
    cases hi : b.item with
    | none =>
      rw [hi] at hdb
      cases hdb
    | some i =>
      rw [hi] at hdb
      obtain ⟨e, he, rfl⟩ := List.mem_map.mp hdb
      exact ⟨b, hb, e, he, hkey.2⟩

/-- A run that commits nothing leaves the three tables as they are. -/
theorem marks_of_not_committed {s : Store P} {run : SourceRun P}
    (h : ¬ ∃ result bundles, run.Committed s result bundles) :
    (run.apply s).itemMarks = s.itemMarks ∧ (run.apply s).edgeMarks = s.edgeMarks ∧
      (run.apply s).reviewThreadMarks = s.reviewThreadMarks := by
  rcases syncSource_cases s run.source run.prevWatermark run.opts run.env with
    ⟨result, bundles, hc, -⟩ | ⟨-, ⟨msg, heq⟩ | heq⟩
  · exact absurd ⟨result, bundles, hc⟩ h
  · obtain ⟨hitems, hedges⟩ := recordFailedRun_frame s run.source run.opts run.env msg
    have hthreads := recordFailedRun_reviewThreads s run.source run.opts run.env msg
    unfold SourceRun.apply Store.itemMarks Store.edgeMarks Store.reviewThreadMarks
    rw [heq, hitems, hedges, hthreads]
    exact ⟨rfl, rfl, rfl⟩
  · unfold SourceRun.apply
    rw [heq]
    exact ⟨rfl, rfl, rfl⟩

theorem apply_of_committed {s : Store P} {run : SourceRun P} {result : FetchResult P}
    {bundles : List NormalizedBundle} (h : run.Committed s result bundles) :
    run.apply s = commitRun s run.source run.opts run.env result bundles := by
  simp [SourceRun.apply, syncSource, h.fetched, h.normalized, h.written, h.committed]

theorem committed_unique {s : Store P} {run : SourceRun P} {result result' : FetchResult P}
    {bundles bundles' : List NormalizedBundle} (h : run.Committed s result bundles)
    (h' : run.Committed s result' bundles') : result = result' ∧ bundles = bundles' := by
  obtain rfl := Except.ok.inj (h.fetched.symm.trans h'.fetched)
  exact ⟨rfl, Except.ok.inj (h.normalized.symm.trans h'.normalized)⟩

/-- What a sequence of runs keeps: every row was last seen before the runs
to come, and a link between sources is never gone. -/
structure Seasoned (s : Store P) (runs : List (SourceRun P)) : Prop where
  item : ∀ run ∈ runs, ∀ k m, s.itemMarks k = some m → m.lastSeenAt < run.env.startedAt
  edge : ∀ run ∈ runs, ∀ k m, s.edgeMarks k = some m → m.lastSeenAt < run.env.startedAt
  reviewThread : ∀ run ∈ runs, ∀ k m, s.reviewThreadMarks k = some m →
    m.lastSeenAt < run.env.startedAt
  crossEdge : ∀ k m, k.2.1.sourceId ≠ k.2.2.sourceId → s.edgeMarks k = some m →
    m.deletedAt = none

/-- A committed run passes over the three tables, and writes only rows of
its own source and links between sources. -/
structure PassedOver (s : Store P) (run : SourceRun P) (result : FetchResult P)
    (bundles : List NormalizedBundle) : Prop where
  items : (itemPass run.source run.opts run.env result bundles).Result s.itemMarks
    (run.apply s).itemMarks
  edges : (edgePass run.source run.opts run.env result bundles).Result s.edgeMarks
    (run.apply s).edgeMarks
  reviewThreads : (reviewThreadPass run.source run.opts run.env result bundles).Result
    s.reviewThreadMarks (run.apply s).reviewThreadMarks
  ownItem : ∀ k, (itemPass run.source run.opts run.env result bundles).writes k →
    k.sourceId = run.sourceId
  ownEdge : ∀ k, (edgePass run.source run.opts run.env result bundles).writes k →
    k.2.1.sourceId = k.2.2.sourceId → k.2.1.sourceId = run.sourceId
  ownReviewThread : ∀ k, (reviewThreadPass run.source run.opts run.env result bundles).writes k →
    k.sourceId = run.sourceId

theorem passedOver {s : Store P} {run : SourceRun P} {result : FetchResult P}
    {bundles : List NormalizedBundle} (hown : OwnRows run.source)
    (hc : run.Committed s result bundles) : PassedOver s run result bundles where
  items := by
    rw [apply_of_committed hc]
    exact itemPass_result run.source run.opts run.env result bundles s
  edges := by
    rw [apply_of_committed hc]
    exact edgePass_result run.source run.opts run.env result bundles s
  reviewThreads := by
    rw [apply_of_committed hc]
    exact reviewThreadPass_result run.source run.opts run.env result bundles s
  ownItem := by
    rintro k ⟨b, hb, i, hi, rfl⟩
    obtain ⟨r, -, hr⟩ := exists_record_of_bundle hc.normalized hb
    exact hown.item r b i hr hi
  ownEdge := by
    intro k hw hintra
    obtain ⟨b, hb, e, he, hfrom, hto⟩ := exists_edge_of_writes hw
    obtain ⟨r, -, hr⟩ := exists_record_of_bundle hc.normalized hb
    rw [← hfrom, ← hto] at hintra
    rw [← hfrom]
    exact hown.edge r b e hr he hintra
  ownReviewThread := by
    rintro k ⟨b, hb, t, ht, rfl⟩
    obtain ⟨r, -, hr⟩ := exists_record_of_bundle hc.normalized hb
    exact hown.reviewThread r b t hr ht

theorem sweptExactly {K : Type} {pass : MarkPass K String} {own : K → Prop}
    {before after : K → Option (Mark String)} (h : pass.Result before after)
    (hbefore : ∀ k m, before k = some m → m.lastSeenAt < pass.startedAt)
    (hreach : ∀ k, own k → pass.reaches k) : SweptExactly pass own after where
  written k hk := h.live_iff hbefore (hreach k hk)
  seen k hk := by
    rw [h.live_iff hbefore (hreach k hk), h.seen_iff (String.lt_irrefl _) hbefore]

/-- **One run does to the tombstones what it should.** -/
theorem runExact {s : Store P} {run : SourceRun P} {runs : List (SourceRun P)}
    (hown : OwnRows run.source) (h : Seasoned s (run :: runs)) : RunExact s run := by
  -- a committed run is the pass over the marks; any other leaves them alone
  by_cases hc : ∃ result bundles, run.Committed s result bundles
  · obtain ⟨result, bundles, hc⟩ := hc
    have hp := passedOver hown hc
    refine ⟨?_, ?_, ?_, ?_, ?_, ?_, ?_⟩
    · intro result' bundles' hc' hs
      obtain ⟨rfl, rfl⟩ := committed_unique hc hc'
      refine ⟨sweptExactly hp.items (h.item run List.mem_cons_self) fun k hk => ⟨hs, hk⟩,
        sweptExactly hp.edges (h.edge run List.mem_cons_self) fun k hk => ⟨hs, hk⟩,
        sweptExactly hp.reviewThreads (h.reviewThread run List.mem_cons_self)
          fun k hk => ⟨hs, hk⟩⟩
    · intro result' bundles' hc'
      obtain ⟨rfl, rfl⟩ := committed_unique hc hc'
      exact ⟨fun k => hp.items.live_of_writes, fun k => hp.edges.live_of_writes,
        fun k => hp.reviewThreads.live_of_writes⟩
    · intro k hk
      exact hp.items.kept_of_not_reaches (fun hw => hk (hp.ownItem k hw)) fun hr => hk hr.2
    · intro k hintra hk
      exact hp.edges.kept_of_not_reaches (fun hw => hk (hp.ownEdge k hw hintra))
        fun hr => hk hr.2.1
    · intro k hcross m hm
      have hreach : ¬ (edgePass run.source run.opts run.env result bundles).reaches k :=
        fun hr => hcross (hr.2.1.trans hr.2.2.symm)
      have hlive := h.crossEdge k m hcross hm
      by_cases hw : (edgePass run.source run.opts run.env result bundles).writes k
      · exact ⟨_, hp.edges.written k hw, hlive.symm⟩
      · exact ⟨m, (hp.edges.kept_of_not_reaches hw hreach).trans hm, rfl⟩
    · intro k hk
      exact hp.reviewThreads.kept_of_not_reaches (fun hw => hk (hp.ownReviewThread k hw))
        fun hr => hk hr.2
    · intro hnot
      have hs : ¬ sweeps run.opts result = true := fun hs => hnot ⟨result, bundles, hc, hs⟩
      refine ⟨fun k m t hm ht => ⟨m, ?_, ht⟩, fun k m t hm ht => ⟨m, ?_, ht⟩,
        fun k m t hm ht => ⟨m, ?_, ht⟩⟩
      · exact hp.items.deletedAt_of_no_reach (fun k hr => hs hr.1) hm ht
      · exact hp.edges.deletedAt_of_no_reach (fun k hr => hs hr.1) hm ht
      · exact hp.reviewThreads.deletedAt_of_no_reach (fun k hr => hs hr.1) hm ht
  · obtain ⟨hitems, hedges, hthreads⟩ := marks_of_not_committed hc
    refine ⟨fun result bundles h => absurd ⟨result, bundles, h⟩ hc,
      fun result bundles h => absurd ⟨result, bundles, h⟩ hc, ?_, ?_, ?_, ?_, ?_⟩
    · exact fun k _ => by rw [hitems]
    · exact fun k _ _ => by rw [hedges]
    · exact fun k _ m hm => ⟨m, by rw [hedges, hm], rfl⟩
    · exact fun k _ => by rw [hthreads]
    · intro _
      rw [hitems, hedges, hthreads]
      exact ⟨fun k m t hm ht => ⟨m, hm, ht⟩, fun k m t hm ht => ⟨m, hm, ht⟩,
        fun k m t hm ht => ⟨m, hm, ht⟩⟩

/-! ## The adapters' sources -/

/-- A GitLab bundle is an activity alone, a merge request's or an issue's. -/
theorem gitLab_normalize_cases {src : GitLabSource} {r : RawRecord GitLab.Payload}
    {b : NormalizedBundle} (h : src.normalize r = some b) :
    (b.item = none ∧ b.edges = [] ∧ b.reviewThreads = []) ∨
      ∃ p, b = src.normalizeMergeRequest r.externalId p ∨ b = src.normalizeIssue r.externalId p := by
  unfold GitLabSource.normalize at h
  split at h
  · obtain ⟨a, -, rfl⟩ := Option.map_eq_some_iff.mp h
    exact Or.inl ⟨rfl, rfl, rfl⟩
  · rename_i p _ _
    exact Or.inr ⟨p, Or.inl (Option.some.inj h).symm⟩
  · rename_i p _ _
    exact Or.inr ⟨p, Or.inr (Option.some.inj h).symm⟩
  · cases h

theorem gitLab_mentionEdges_own {p : GitLab.Node} {self : ItemEndpoint} {selfState : ItemState}
    {skipFrom : List String} {e : CanonicalEdge}
    (h : e ∈ GitLabSource.mentionEdges p self selfState skipFrom) :
    e.fromEnd.sourceId = self.sourceId := by
  obtain ⟨m, -, hm⟩ := List.mem_filterMap.mp h
  split at hm
  · cases hm
  · rw [← Option.some.inj hm]

theorem gitLab_relateEdges_own {p : GitLab.Node} {self : ItemEndpoint} {selfState : ItemState}
    {e : CanonicalEdge} (h : e ∈ GitLabSource.relateEdges p self selfState) :
    e.fromEnd.sourceId = self.sourceId := by
  obtain ⟨m, -, hm⟩ := List.mem_filterMap.mp h
  split at hm
  · cases hm
  · simp only at hm
    split at hm <;> rw [← Option.some.inj hm]

/-- **A GitLab source reports only its own rows.** -/
theorem ownRows_gitLab (src : GitLabSource) (now : String) (answers : GitLab.Answers) :
    OwnRows (src.toSource now answers) where
  item r b i hb hi := by
    rcases gitLab_normalize_cases (Except.ok.inj hb) with ⟨hnone, -⟩ | ⟨p, rfl | rfl⟩
    · rw [hnone] at hi
      cases hi
    · rw [← Option.some.inj hi]
      rfl
    · rw [← Option.some.inj hi]
      rfl
  edge r b e hb he _ := by
    rcases gitLab_normalize_cases (Except.ok.inj hb) with ⟨-, hnil, -⟩ | ⟨p, rfl | rfl⟩
    · rw [hnil] at he
      cases he
    · exact gitLab_mentionEdges_own he
    · rcases List.mem_append.mp he with he | he
      · rcases List.mem_append.mp he with he | he
        · obtain ⟨mr, -, rfl⟩ := List.mem_map.mp he
          rfl
        · exact gitLab_relateEdges_own he
      · exact gitLab_mentionEdges_own he
  reviewThread r b t hb ht := by
    rcases gitLab_normalize_cases (Except.ok.inj hb) with ⟨-, -, hnil⟩ | ⟨p, rfl | rfl⟩
    · rw [hnil] at ht
      cases ht
    · obtain ⟨d, -, hd⟩ := List.mem_filterMap.mp ht
      simp only at hd
      split at hd
      · cases hd
      · split at hd
        · cases hd
        · rw [← Option.some.inj hd]
          rfl
    · cases ht

/-- A GitHub bundle is an activity alone, a pull request's or an issue's. -/
theorem gitHub_normalize_cases {src : GitHubSource} {r : RawRecord GitHub.Payload}
    {b : NormalizedBundle} (h : src.normalize r = some b) :
    (b.item = none ∧ b.edges = [] ∧ b.reviewThreads = []) ∨
      ∃ p, b = src.normalizePullRequest r.externalId p ∨ b = src.normalizeIssue r.externalId p := by
  unfold GitHubSource.normalize at h
  split at h
  · obtain ⟨a, -, rfl⟩ := Option.map_eq_some_iff.mp h
    exact Or.inl ⟨rfl, rfl, rfl⟩
  · rename_i p _ _
    exact Or.inr ⟨p, Or.inl (Option.some.inj h).symm⟩
  · rename_i p _ _
    exact Or.inr ⟨p, Or.inr (Option.some.inj h).symm⟩
  · cases h

theorem gitHub_mentionEdges_own {p : GitHub.Node} {self : ItemEndpoint} {selfState : ItemState}
    {e : CanonicalEdge} (h : e ∈ GitHubSource.mentionEdges p self selfState) :
    e.fromEnd.sourceId = self.sourceId := by
  obtain ⟨ev, -, hev⟩ := List.mem_filterMap.mp h
  split at hev
  · cases hev
  · split at hev
    · cases hev
    · rw [← Option.some.inj hev]

/-- **A GitHub source reports only its own rows**, where its tracker edges
start in the tracker's source, as the phase table's do. -/
theorem ownRows_gitHub (src : GitHubSource) (now : String) (answers : GitHub.Answers)
    (htracker : ∀ p self selfState, ∀ e ∈ src.trackerEdges p self selfState,
      e.fromEnd.sourceId = self.sourceId) : OwnRows (src.toSource now answers) where
  item r b i hb hi := by
    rcases gitHub_normalize_cases (Except.ok.inj hb) with ⟨hnone, -⟩ | ⟨p, rfl | rfl⟩
    · rw [hnone] at hi
      cases hi
    · rw [← Option.some.inj hi]
      rfl
    · rw [← Option.some.inj hi]
      rfl
  edge r b e hb he _ := by
    rcases gitHub_normalize_cases (Except.ok.inj hb) with ⟨-, hnil, -⟩ | ⟨p, rfl | rfl⟩
    · rw [hnil] at he
      cases he
    · rcases List.mem_append.mp he with he | he
      · obtain ⟨iss, -, rfl⟩ := List.mem_map.mp he
        rfl
      · exact gitHub_mentionEdges_own he
    · rcases List.mem_append.mp he with he | he
      · rcases List.mem_append.mp he with he | he
        · obtain ⟨pr, -, rfl⟩ := List.mem_map.mp he
          rfl
        · exact gitHub_mentionEdges_own he
      · exact htracker p _ _ e he
  reviewThread r b t hb ht := by
    rcases gitHub_normalize_cases (Except.ok.inj hb) with ⟨-, -, hnil⟩ | ⟨p, rfl | rfl⟩
    · rw [hnil] at ht
      cases ht
    · unfold GitHubSource.normalizePullRequest GitHubSource.reviewThreads at ht
      simp only at ht
      split at ht
      · cases ht
      · split at ht
        · cases ht
        · obtain ⟨d, -, hd⟩ := List.mem_filterMap.mp ht
          obtain ⟨id, -, rfl⟩ := Option.map_eq_some_iff.mp hd
          rfl
    · cases ht

/-- So does one that reads its tracker edges off the table. -/
theorem ownRows_gitHub_tableEdges (src : GitHubSource) (now : String) (answers : GitHub.Answers)
    (htable : src.trackerEdges = GitHub.tableEdges) : OwnRows (src.toSource now answers) :=
  ownRows_gitHub src now answers fun p self selfState e he => by
    rw [htable] at he
    exact GitHub.tableEdges_own he

/-! ## Every run of a sequence -/

/-- The marks of one table stay before the start of a later run. -/
theorem lastSeenAt_lt_of_result {K : Type} {pass : MarkPass K String}
    {before after : K → Option (Mark String)} (h : pass.Result before after) {later : String}
    (hstart : pass.startedAt < later)
    (hbefore : ∀ k m, before k = some m → m.lastSeenAt < later) :
    ∀ k m, after k = some m → m.lastSeenAt < later := by
  intro k m hm
  rcases h.lastSeenAt_cases hm with heq | ⟨m₀, hm₀, heq⟩
  · rw [heq]
    exact hstart
  · rw [heq]
    exact hbefore k m₀ hm₀

theorem seasoned_apply {s : Store P} {run : SourceRun P} {runs : List (SourceRun P)}
    (hown : OwnRows run.source) (hstart : ∀ r ∈ runs, run.env.startedAt < r.env.startedAt)
    (h : Seasoned s (run :: runs)) : Seasoned (run.apply s) runs := by
  by_cases hc : ∃ result bundles, run.Committed s result bundles
  · obtain ⟨result, bundles, hc⟩ := hc
    have hp := passedOver hown hc
    refine ⟨fun r hr => ?_, fun r hr => ?_, fun r hr => ?_, ?_⟩
    · exact lastSeenAt_lt_of_result hp.items (hstart r hr) (h.item r (List.mem_cons_of_mem _ hr))
    · exact lastSeenAt_lt_of_result hp.edges (hstart r hr) (h.edge r (List.mem_cons_of_mem _ hr))
    · exact lastSeenAt_lt_of_result hp.reviewThreads (hstart r hr)
        (h.reviewThread r (List.mem_cons_of_mem _ hr))
    · intro k m hcross hm
      by_cases hw : (edgePass run.source run.opts run.env result bundles).writes k
      · rw [hp.edges.written k hw] at hm
        rw [← Option.some.inj hm]
      · have hreach : ¬ (edgePass run.source run.opts run.env result bundles).reaches k :=
          fun hr => hcross (hr.2.1.trans hr.2.2.symm)
        rw [hp.edges.kept_of_not_reaches hw hreach] at hm
        exact h.crossEdge k m hcross hm
  · obtain ⟨hitems, hedges, hthreads⟩ := marks_of_not_committed hc
    refine ⟨fun r hr => ?_, fun r hr => ?_, fun r hr => ?_, ?_⟩
    · rw [hitems]
      exact h.item r (List.mem_cons_of_mem _ hr)
    · rw [hedges]
      exact h.edge r (List.mem_cons_of_mem _ hr)
    · rw [hthreads]
      exact h.reviewThread r (List.mem_cons_of_mem _ hr)
    · rw [hedges]
      exact h.crossEdge

theorem runExact_run {s : Store P} (runs : List (SourceRun P))
    (hown : ∀ run ∈ runs, OwnRows run.source)
    (hstart : runs.Pairwise fun a b => a.env.startedAt < b.env.startedAt) (h : Seasoned s runs) :
    EachStep SourceRun.apply RunExact s runs := by
  induction runs generalizing s with
  | nil => trivial
  | cons run runs ih =>
    obtain ⟨hhead, htail⟩ := List.pairwise_cons.mp hstart
    have hrun := hown run List.mem_cons_self
    refine ⟨runExact hrun h, ih (fun r hr => hown r (List.mem_cons_of_mem _ hr)) htail ?_⟩
    exact seasoned_apply hrun hhead h

/-- **Soft deletion is exact in every run of every sequence of runs.** The
sources are any that report only their own rows; start times are compared
as the text the store compares. -/
theorem softDeletes_exact (driver : Driver) (runs : List (SourceRun P))
    (hown : ∀ run ∈ runs, OwnRows run.source)
    (hstart : runs.Pairwise fun a b => a.env.startedAt < b.env.startedAt) :
    EachStep SourceRun.apply RunExact (Store.empty driver) runs := by
  refine runExact_run runs hown hstart ⟨?_, ?_, ?_, ?_⟩
  · intro run _ k m hm
    cases hm
  · intro run _ k m hm
    cases hm
  · intro run _ k m hm
    cases hm
  · intro k m _ hm
    cases hm

namespace TwoSweeps

open OneProject

/-- A full sweep of the project that finds some issues. -/
def sweepAt (startedAt : String) (nodes : List GitLab.Node) : SourceRun GitLab.Payload :=
  { source := gitlab.toSource startedAt (gitlabAnswers (some ⟨nodes, false, none⟩))
    prevWatermark := none
    opts := { full := true, dryRun := false, ciRefreshGraceMs := none, ciRefreshLimit := none }
    env := { startedAt, sweepAt := startedAt, finishedAt := startedAt, txError := none } }

/-- An issue that is gone a day later. -/
def sweepRuns : List (SourceRun GitLab.Payload) :=
  [sweepAt "2026-06-01T08:00:00.000Z" [gitlabNode "1" "2026-06-01T07:00:00Z"],
    sweepAt "2026-06-02T08:00:00.000Z" []]

end TwoSweeps

open TwoSweeps in
theorem softDeletes_exact_twoSweeps :
    EachStep SourceRun.apply RunExact (Store.empty .sqlite) sweepRuns := by
  refine softDeletes_exact .sqlite sweepRuns ?_ (by decide)
  intro run hrun
  simp only [sweepRuns, List.mem_cons, List.not_mem_nil, or_false] at hrun
  rcases hrun with rfl | rfl <;> exact ownRows_gitLab _ _ _

end SymphonyBoard
