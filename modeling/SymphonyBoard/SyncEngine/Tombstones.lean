import SymphonyBoard.SyncEngine.Writes
/-!
# What a run tombstones

A committed full and complete run tombstones exactly the live rows of its
source that were last seen before it and that none of its records
normalizes to (`tombstoned_syncSource_iff`).
-/

namespace SymphonyBoard

variable {P : Type}

/-- A live row of the first store is tombstoned in the second. -/
def Tombstoned (s s' : Store P) (k : ItemEndpoint) : Prop :=
  ∃ row row', s.items.get? k = some row ∧ row.deletedAt = none ∧
    s'.items.get? k = some row' ∧ row'.deletedAt ≠ none

/-- A live row that was last seen before some time. -/
def SeenBefore (s : Store P) (k : ItemEndpoint) (startedAt : String) : Prop :=
  ∃ row, s.items.get? k = some row ∧ row.deletedAt = none ∧ row.lastSeenAt < startedAt

theorem tombstoned_commitRun_iff (s : Store P) (source : Source P) (opts : SyncOptions)
    (env : RunEnv) (result : FetchResult P) (bundles : List NormalizedBundle) (k : ItemEndpoint) :
    Tombstoned s (commitRun s source opts env result bundles) k ↔
      sweeps opts result ∧ k.sourceId = source.descriptor.sourceId ∧ lastItem bundles k = none ∧
        SeenBefore s k env.startedAt := by
  simp only [Tombstoned, SeenBefore, commitRun_items]
  cases hlast : lastItem bundles k with
  | some i =>
    -- a seen item has a live row that the sweep does not reach
    simp only [Option.map_some, Option.some_or, reduceCtorEq, false_and, and_false, iff_false]
    rintro ⟨row, row', -, -, hrow', hdel⟩
    rw [← Option.some.inj hrow', sweptItemRow_itemRow] at hdel
    exact hdel rfl
  | none =>
    simp only [Option.map_none, Option.none_or, true_and]
    constructor
    · rintro ⟨row, row', hrow, hlive, hrow', hdel⟩
      rw [hrow, Option.map_some] at hrow'
      rw [← Option.some.inj hrow', sweptItemRow] at hdel
      split at hdel
      · rename_i hswept
        refine ⟨hswept.1, hswept.2.1, row, hrow, hlive, ?_⟩
        simpa [Store.unseen, hlive] using hswept.2.2
      · exact absurd hlive hdel
    · rintro ⟨hs, hk, row, hrow, hlive, hlt⟩
      refine ⟨row, _, hrow, hlive, by rw [hrow, Option.map_some], ?_⟩
      have hunseen : Store.unseen row.deletedAt row.lastSeenAt env.startedAt = true := by
        simp [Store.unseen, hlive, hlt]
      rw [sweptItemRow, if_pos ⟨hs, hk, hunseen⟩]
      exact Option.some_ne_none _

/-- A full run that fetches and writes commits what it fetched. -/
theorem commits_full {s : Store P} {source : Source P}
    {normalize : RawRecord P → Option NormalizedBundle} (hn : NormalizesWith source normalize)
    {prevWatermark : Option String} {opts : SyncOptions} {env : RunEnv} {result : FetchResult P}
    (hfetch : source.fetch { since := prevWatermark, full := true } = .ok result)
    (hfull : opts.full = true) (hwrite : opts.dryRun = false) (htx : env.txError = none) :
    Commits s source prevWatermark opts env result (result.records.filterMap normalize) where
  fetched := by
    simp only [fetchWithRefresh, hfull, hfetch, bind, Except.bind]
    rfl
  normalized := hn.records result.records
  written := hwrite
  committed := htx

/-- **What a full and complete run tombstones.** -/
theorem tombstoned_syncSource_iff {s : Store P} {source : Source P}
    {normalize : RawRecord P → Option NormalizedBundle} (hn : NormalizesWith source normalize)
    {prevWatermark : Option String} {opts : SyncOptions} {env : RunEnv} {result : FetchResult P}
    (hfetch : source.fetch { since := prevWatermark, full := true } = .ok result)
    (hfull : opts.full = true) (hwrite : opts.dryRun = false) (htx : env.txError = none)
    (hc : result.complete = true) {k : ItemEndpoint}
    (hk : k.sourceId = source.descriptor.sourceId) :
    Tombstoned s (syncSource s source prevWatermark opts env).1 k ↔
      SeenBefore s k env.startedAt ∧ ¬ ∃ r ∈ result.records, NormalizesTo normalize r k := by
  have hcom := commits_full (s := s) hn hfetch hfull hwrite htx
  have heq : (syncSource s source prevWatermark opts env).1 =
      commitRun s source opts env result (result.records.filterMap normalize) := by
    simp [syncSource, hcom.fetched, hcom.normalized, hwrite, htx]
  have hs : sweeps opts result = true := by simp [sweeps, hfull, hc]
  rw [heq, tombstoned_commitRun_iff, lastItem_eq_none_iff]
  constructor
  · rintro ⟨-, -, hnone, hseen⟩
    refine ⟨hseen, ?_⟩
    rintro ⟨r, hr, b, i, hb, hi, hik⟩
    exact hnone b (List.mem_filterMap.mpr ⟨r, hr, hb⟩) i hi hik
  · rintro ⟨hseen, hnone⟩
    refine ⟨hs, hk, ?_, hseen⟩
    intro b hb i hi hik
    obtain ⟨r, hr, hrb⟩ := List.mem_filterMap.mp hb
    exact hnone ⟨r, hr, b, i, hrb, hi, hik⟩

end SymphonyBoard
