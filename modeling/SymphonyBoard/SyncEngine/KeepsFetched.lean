import Mathlib.Data.List.Nodup
import SymphonyBoard.SyncEngine.Runner
/-!
# What a complete multi-source run keeps

A leg's sweep reaches the items of its source id, whichever entry of the
configuration it runs for. `keepsFetched_iff` says which accepted
configurations are safe: those whose enabled entries have source ids of
their own, which `configErrors` does not ask for.
-/

namespace SymphonyBoard

section Legs

variable {P : Type}

/-- A leg of a full run that fetched everything and committed it. -/
structure CompleteLeg (p : PreparedSource P) (result : FetchResult P)
    (bundles : List NormalizedBundle) : Prop where
  fetched : p.source.fetch { since := none, full := true } = .ok result
  complete : result.complete = true
  normalized : normalizeRecords p.source result.records = .ok bundles
  committed : p.env.txError = none

/-- The leg fetches an item. -/
def Fetches (p : PreparedSource P) (k : ItemEndpoint) : Prop :=
  ∃ result bundles, CompleteLeg p result bundles ∧ ∃ b ∈ bundles, ∃ i, b.item = some i ∧
    i.endpoint = k

/-- The leg as a run of its source. -/
def PreparedSource.fullRun (p : PreparedSource P) : SourceRun P :=
  { source := p.source
    prevWatermark := none
    opts := { full := true, dryRun := false, ciRefreshGraceMs := none, ciRefreshLimit := none }
    env := p.env }

variable {p q : PreparedSource P} {result : FetchResult P} {bundles : List NormalizedBundle}

theorem syncLeg_full {opts : SyncRunOptions} (hmode : opts.mode = .full)
    (hdry : opts.dryRun = false) (s : Store P) : (syncLeg opts s p).1 = p.fullRun.apply s := by
  unfold syncLeg SourceRun.apply PreparedSource.fullRun
  simp [hmode, hdry]

/-- A full fetch does not look at the store. -/
theorem CompleteLeg.run (h : CompleteLeg p result bundles) (s : Store P) :
    p.fullRun.Committed s result bundles where
  fetched := by
    unfold fetchWithRefresh PreparedSource.fullRun
    simp only
    rw [h.fetched]
    rfl
  normalized := h.normalized
  written := rfl
  committed := h.committed

theorem CompleteLeg.passedOver (h : CompleteLeg p result bundles) (s : Store P) :
    PassedOver s p.fullRun result bundles :=
  SymphonyBoard.passedOver p.own (h.run s)

/-- What a leg fetches is its source's, and live after it. -/
theorem Fetches.live {k : ItemEndpoint} (h : Fetches p k) (s : Store P) :
    LiveMark (p.fullRun.apply s).itemMarks k ∧ k.sourceId = p.source.descriptor.sourceId := by
  obtain ⟨result, bundles, hleg, hk⟩ := h
  have hp := hleg.passedOver s
  exact ⟨hp.items.live_of_writes hk, hp.ownItem k hk⟩

/-- A leg leaves other sources' items alone. -/
theorem CompleteLeg.kept (h : CompleteLeg p result bundles) (s : Store P) {k : ItemEndpoint}
    (hk : k.sourceId ≠ p.source.descriptor.sourceId) :
    (p.fullRun.apply s).itemMarks k = s.itemMarks k := by
  have hp := h.passedOver s
  exact hp.items.kept_of_not_reaches (fun hw => hk (hp.ownItem k hw)) fun hr => hk hr.2

/-- So do all the legs of other sources. -/
theorem foldl_kept (legs : List (PreparedSource P))
    (hall : ∀ p ∈ legs, ∃ result bundles, CompleteLeg p result bundles) (s : Store P)
    {k : ItemEndpoint} (hk : ∀ p ∈ legs, k.sourceId ≠ p.source.descriptor.sourceId) :
    (legs.foldl (fun s p => p.fullRun.apply s) s).itemMarks k = s.itemMarks k := by
  induction legs generalizing s with
  | nil => rfl
  | cons p legs ih =>
    obtain ⟨result, bundles, hleg⟩ := hall p List.mem_cons_self
    rw [List.foldl_cons, ih (fun q hq => hall q (List.mem_cons_of_mem _ hq)) _
      fun q hq => hk q (List.mem_cons_of_mem _ hq)]
    exact hleg.kept s (hk p List.mem_cons_self)

/-- **Legs of distinct sources keep what each fetched.** -/
theorem live_after_legs (legs : List (PreparedSource P))
    (hids : (legs.map fun p => p.source.descriptor.sourceId).Nodup)
    (hall : ∀ p ∈ legs, ∃ result bundles, CompleteLeg p result bundles) (s : Store P)
    (hp : p ∈ legs) {k : ItemEndpoint} (hk : Fetches p k) :
    LiveMark (legs.foldl (fun s p => p.fullRun.apply s) s).itemMarks k := by
  induction legs generalizing s with
  | nil => cases hp
  | cons q legs ih =>
    have hrest : ∀ q ∈ legs, ∃ result bundles, CompleteLeg q result bundles := fun q hq =>
      hall q (List.mem_cons_of_mem _ hq)
    obtain ⟨hq, hnodup⟩ := List.nodup_cons.mp hids
    rcases List.mem_cons.mp hp with rfl | hp
    · obtain ⟨hlive, hown⟩ := hk.live s
      have hother : ∀ q ∈ legs, k.sourceId ≠ q.source.descriptor.sourceId := by
        intro q' hq' heq
        exact hq (List.mem_map.mpr ⟨q', hq', heq.symm.trans hown⟩)
      have hkept := foldl_kept legs hrest (p.fullRun.apply s) hother
      obtain ⟨m, hm, hdel⟩ := hlive
      exact ⟨m, by rw [List.foldl_cons, hkept, hm], hdel⟩
    · exact ih hnodup hrest _ hp

end Legs

/-- **Every complete run of the configuration keeps what it fetched**: a
full run over some of its enabled entries, in any order and over any store,
whose fetches are all complete and whose transactions all commit. -/
def KeepsFetched (cfg : AppConfig) : Prop :=
  ∀ (P : Type) (store : Store P) (prepared : List (PreparedSource P)) (skipped : List String)
    (opts : SyncRunOptions) (emit : Option EmitOutcomes) (errored : List SourceRunResult),
    opts.mode = .full → opts.dryRun = false →
    (prepared.map (·.config)).Subperm cfg.enabledSources →
    (∀ p ∈ prepared, ∃ result bundles, CompleteLeg p result bundles) →
    ∀ p ∈ prepared, ∀ k, Fetches p k →
      LiveMark (executeSyncRun true store prepared skipped opts emit errored).1.store.itemMarks k

theorem fullRun_store {P : Type} (store : Store P) (prepared : List (PreparedSource P))
    (skipped : List String) {opts : SyncRunOptions} (emit : Option EmitOutcomes)
    (errored : List SourceRunResult) (hmode : opts.mode = .full) (hdry : opts.dryRun = false) :
    (executeSyncRun true store prepared skipped opts emit errored).1.store =
      prepared.foldl (fun s p => p.fullRun.apply s) store := by
  rw [executeSyncRun_store prepared opts emit store skipped errored (Or.inr rfl)]
  simp only [syncLeg_full hmode hdry]

theorem keepsFetched_of_nodup {cfg : AppConfig}
    (h : (cfg.enabledSources.map (·.sourceId)).Nodup) : KeepsFetched cfg := by
  intro P store prepared skipped opts emit errored hmode hdry hconfigs hall p hp k hk
  rw [fullRun_store store prepared skipped emit errored hmode hdry]
  refine live_after_legs prepared ?_ hall store hp hk
  -- the prepared sources' ids are their entries', which are distinct
  obtain ⟨entries, hperm, hsub⟩ := hconfigs
  have hentries : (entries.map (·.sourceId)).Nodup := (hsub.map _).nodup h
  have hids : ((prepared.map (·.config)).map (·.sourceId)).Nodup :=
    (hperm.map _).nodup_iff.mp hentries
  rw [List.map_map] at hids
  have hval : (prepared.map fun p => p.source.descriptor.sourceId).map SourceId.val =
      prepared.map ((·.sourceId) ∘ (·.config)) := by
    rw [List.map_map]
    exact List.map_congr_left fun p _ => p.built
  exact List.Nodup.of_map SourceId.val (hval ▸ hids)

/-! ## Two entries of one source -/

namespace SharedSource

variable (sourceId : SourceId)

/-- An open issue. -/
def issue : CanonicalItem :=
  { sourceId, externalId := "1", kind := .issue, projectPath := some "org/app", iid := some 1
    url := "", title := none, state := .opened, stateRaw := none, isDraft := none, author := none
    createdAt := none, updatedAt := none, closedAt := none, mergedAt := none, reviewState := none
    ciState := none, mergeState := none, openReviewThreads := none, totalReviewThreads := none
    commentTotal := none, demand := 0 }

/-- A source that lists some records, each the issue. -/
def listing (records : List (RawRecord Unit)) : Source Unit :=
  { descriptor := { sourceId, kind := "github", host := "github.com", displayName := none }
    normalizerVersion := "1"
    fetch := fun _ => .ok { records, watermark := none, complete := true, error := none }
    fetchRefresh := none
    normalize := fun _ => .ok (some
      { item := some (issue sourceId), labels := [], edges := [], activities := []
        reviewThreads := [] }) }

theorem listing_own (records : List (RawRecord Unit)) : OwnRows (listing sourceId records) where
  item _ b i hb hi := by
    obtain rfl := Option.some.inj (Except.ok.inj hb)
    rw [← Option.some.inj hi]
    rfl
  edge _ b e hb he := by
    obtain rfl := Option.some.inj (Except.ok.inj hb)
    cases he
  reviewThread _ b t hb ht := by
    obtain rfl := Option.some.inj (Except.ok.inj hb)
    cases ht

/-- Its record. -/
def record : RawRecord Unit :=
  { entityKind := .issue, externalId := "1", apiVersion := none, fetchedAt := "", payload := () }

/-- A leg of an entry that starts at a time and lists some records. -/
def leg {sourceId : SourceId} {config : SourceConfig} (h : sourceId.val = config.sourceId)
    (records : List (RawRecord Unit)) (startedAt : String) : PreparedSource Unit :=
  { config, source := listing sourceId records
    env := { startedAt, sweepAt := startedAt, finishedAt := startedAt, txError := none }
    built := h, own := listing_own sourceId records }

theorem leg_complete {sourceId : SourceId} {config : SourceConfig}
    (h : sourceId.val = config.sourceId) (records : List (RawRecord Unit)) (startedAt : String) :
    ∃ result bundles, CompleteLeg (leg h records startedAt) result bundles := by
  have hnorm : NormalizesWith (listing sourceId records) fun _ => some
      { item := some (issue sourceId), labels := [], edges := [], activities := []
        reviewThreads := [] } := fun _ => rfl
  exact ⟨_, _, rfl, rfl, hnorm.records records, rfl⟩

end SharedSource

open SharedSource in
/-- The second entry's sweep tombstones what the first one fetched. -/
theorem not_keepsFetched_of_shared {cfg : AppConfig} {a b : SourceConfig} {sourceId : SourceId}
    (hsub : [a, b].Sublist cfg.enabledSources) (ha : sourceId.val = a.sourceId)
    (hb : sourceId.val = b.sourceId) : ¬KeepsFetched cfg := by
  intro hkeeps
  have hnorm : NormalizesWith (listing sourceId [record]) fun _ => some
      { item := some (issue sourceId), labels := [], edges := [], activities := []
        reviewThreads := [] } := fun _ => rfl
  have hfirst : CompleteLeg (leg ha [record] "2026-06-01T08:00:00.000Z") _ _ :=
    ⟨rfl, rfl, hnorm.records [record], rfl⟩
  have hsecond : CompleteLeg (leg hb [] "2026-06-01T08:05:00.000Z") _ [] := ⟨rfl, rfl, rfl, rfl⟩
  have hfetches : Fetches (leg ha [record] "2026-06-01T08:00:00.000Z")
      (issue sourceId).endpoint :=
    ⟨_, _, hfirst, _, List.mem_singleton_self _, issue sourceId, rfl, rfl⟩
  have hlive := hkeeps Unit (Store.empty .sqlite)
    [leg ha [record] "2026-06-01T08:00:00.000Z", leg hb [] "2026-06-01T08:05:00.000Z"] []
    { mode := .full, dryRun := false, sourceId := none } none [] rfl rfl
    ⟨_, List.Perm.refl _, hsub⟩
    (by
      intro p hp
      rcases List.mem_pair.mp hp with rfl | rfl
      · exact leg_complete ha _ _
      · exact leg_complete hb _ _)
    _ List.mem_cons_self _ hfetches
  rw [fullRun_store _ _ _ _ _ rfl rfl] at hlive
  simp only [List.foldl_cons, List.foldl_nil] at hlive
  generalize hs : (leg ha [record] "2026-06-01T08:00:00.000Z").fullRun.apply
    (Store.empty .sqlite) = s at hlive
  -- the first leg writes the issue, the second does not and starts later
  have hmark : s.itemMarks (issue sourceId).endpoint =
      some ⟨"2026-06-01T08:00:00.000Z", none⟩ := by
    rw [← hs]
    exact (hfirst.passedOver _).items.written _
      ⟨_, List.mem_singleton_self _, issue sourceId, rfl, rfl⟩
  have hunwritten : ¬∃ b ∈ ([] : List NormalizedBundle), ∃ i, b.item = some i ∧
      i.endpoint = (issue sourceId).endpoint := by
    rintro ⟨b, hb, -⟩
    cases hb
  have hbefore : "2026-06-01T08:00:00.000Z" < "2026-06-01T08:05:00.000Z" := by decide
  have hswept := (hsecond.passedOver s).items.swept _ _ hmark
    ⟨hunwritten, ⟨rfl, rfl⟩, rfl, hbefore⟩
  obtain ⟨m, hm, hdel⟩ := hlive
  rw [hswept] at hm
  rw [← Option.some.inj hm] at hdel
  cases hdel

/-- **An accepted configuration keeps what its complete runs fetch just
when no two of its enabled entries share a source id.** -/
theorem keepsFetched_iff {isValidTimezone : String → Bool} (c : AcceptedConfig isValidTimezone) :
    KeepsFetched c.cfg ↔ (c.cfg.enabledSources.map (·.sourceId)).Nodup := by
  constructor
  · intro hkeeps
    rw [List.nodup_iff_sublist]
    intro sourceId hdup
    obtain ⟨entries, hsub, hids⟩ := List.sublist_map_iff.mp hdup
    have hlength : entries.length = 2 := by rw [← List.length_map, ← hids]; rfl
    obtain ⟨a, b, rfl⟩ := List.length_eq_two.mp hlength
    simp only [List.map_cons, List.map_nil, List.cons.injEq, and_true] at hids
    have hmem : a ∈ c.cfg.sources := (List.mem_filter.mp (hsub.subset List.mem_cons_self)).1
    have hbar : '|' ∉ sourceId.toList := hids.1 ▸ c.noBar hmem
    obtain ⟨id, hid⟩ : ∃ id : SourceId, id.val = sourceId := ⟨⟨sourceId, hbar⟩, rfl⟩
    exact not_keepsFetched_of_shared hsub (hid.trans hids.1) (hid.trans hids.2) hkeeps
  · exact keepsFetched_of_nodup

/-! ## A configuration with two entries of one source -/

namespace SharedSource

/-- An entry for one project of github.com. -/
def entry (project : String) : Json :=
  .obj [("source_id", .str "github:github.com"), ("kind", .str "github"),
    ("host", .str "github.com"), ("token_env", .str "GITHUB_TOKEN"),
    ("graphql_url", .str "https://api.github.com/graphql"), ("projects", .arr [.str project])]

/-- The configuration file: two projects of one host. -/
def raw : Json :=
  .obj [("db_path", .str "data/board.db"), ("sources", .arr [entry "org/app", entry "org/lib"])]

/-- A source of the configuration. -/
def config (project : String) : SourceConfig :=
  { sourceId := "github:github.com", kind := "github", host := "github.com", enabled := none
    pool := { tokenEnv := some "GITHUB_TOKEN", fallbackTokenEnvs := none, githubApp := none }
    tokenPools := none, authPools := none, authPolicy := none, restUrl := none
    projects := [{ path := project, tokenPool := none, authPolicy := none }] }

/-- The file passes `validateConfig`, and each source has one project. -/
def accepted : AcceptedConfig (· = "UTC") where
  raw := raw
  label := "config"
  cfg := { sources := [config "org/app", config "org/lib"] }
  typed := by rfl
  accepted := by decide

end SharedSource

open SharedSource in
/-- The configuration is accepted, and its second entry's leg sweeps the
first one's items. -/
theorem not_keepsFetched : ¬∀ (isValidTimezone : String → Bool)
    (c : AcceptedConfig isValidTimezone), KeepsFetched c.cfg := by
  intro h
  have hsub : [config "org/app", config "org/lib"].Sublist accepted.cfg.enabledSources :=
    List.Sublist.refl _
  have hid : (⟨"github:github.com", noBarGithub⟩ : SourceId).val = "github:github.com" := rfl
  exact not_keepsFetched_of_shared hsub hid hid (h _ accepted)

end SymphonyBoard
