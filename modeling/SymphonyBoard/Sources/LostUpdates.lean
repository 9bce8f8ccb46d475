import SymphonyBoard.Common.Run
import SymphonyBoard.Sources.Completeness
import SymphonyBoard.Sources.GitHub.Incremental
import SymphonyBoard.SyncEngine.Incremental
/-!
# Updates that incremental runs lose

The watermark of a source is one for all its listings. An incremental run
that reads some listings through and stops short in another stores the
latest time it has read, and an update the other listing still had to show
can be older than that: no later run asks for it. `updatesKept_run` says
which runs lose nothing.
-/

namespace SymphonyBoard

/-- At or after a watermark; everything is at or after none. -/
def AtOrAfter (watermark : Option String) (updatedAt : String) : Prop :=
  ∀ w ∈ nonEmpty watermark, NotBefore updatedAt w

instance (watermark : Option String) (updatedAt : String) :
    Decidable (AtOrAfter watermark updatedAt) :=
  inferInstanceAs (Decidable (∀ w ∈ nonEmpty watermark, NotBefore updatedAt w))

theorem AtOrAfter.of_notBefore {watermark : Option String} {a b : String}
    (hb : AtOrAfter watermark b) (h : NotBefore a b) : AtOrAfter watermark a :=
  fun w hw => h.trans (hb w hw)

/-- What is at or after the watermark comes before the first item that is
older than it as text. -/
theorem mem_takeWhile_of_atOrAfter {N : Type} (updatedAt : N → String)
    {watermark since : Option String} {l : List N}
    (hsorted : l.Pairwise fun a b => NotBefore (updatedAt a) (updatedAt b))
    (htext : ∀ x ∈ l, AtOrAfter watermark (updatedAt x) → notOlder since (updatedAt x) = true)
    {x : N} (hx : x ∈ l) (hafter : AtOrAfter watermark (updatedAt x)) :
    x ∈ l.takeWhile fun node => notOlder since (updatedAt node) :=
  mem_takeWhile_of_sorted htext (hsorted.imp fun hab hb => hb.of_notBefore hab) hx hafter

section Merge

variable {P N : Type} {A : Reader P N} {source : Source P}

/-- A record of an item stands for it in every merge. -/
theorem Reader.Reads.normalizesTo_of_refreshMerge (h : A.Reads source) {opts : FetchOptions}
    {primary : FetchResult P} (hfetch : source.fetch opts = .ok primary)
    {records : List (RawRecord P)} (hm : RefreshMerge source primary records)
    {kind : ItemKind} {p : N} {r r' : RawRecord P} (hr : A.OfItem r kind p)
    (hr' : r' ∈ records) (hkey : r'.key = r.key) :
    NormalizesTo A.normalize r' ⟨A.sourceId, r.externalId⟩ := by
  obtain ⟨hkind, hid⟩ := Prod.mk.inj hkey
  have hknown : A.Knows r' := by
    rcases hm.mem hr' with hmem | ⟨_, _, _, hf, hok, hmem⟩
    · exact h.fetched _ _ hfetch r' hmem
    · exact h.refreshed _ hf _ _ _ hok r' hmem
  obtain ⟨_, _, hitem⟩ := hknown.ofItem (by rw [hkind]; exact hr.entityKind_ne_activity)
  rw [hitem.normalizesTo_iff, hid]

end Merge

/-! ## GitLab -/

namespace GitLab

/-- A provider in one run: its answers, and the items it shows, latest
first, which its listings hand out in order. -/
structure Provider where
  answers : Answers
  visible : RefKind → Nat → List Node
  sorted : ∀ kind i, (visible kind i).Pairwise fun a b => NotBefore a.updatedAt b.updatedAt
  shows : ∀ kind i, ∃ remaining, Serves (request (answers.listing kind i)) remaining ∧
    remaining (0, none) = visible kind i

end GitLab

namespace GitLabSource

open GitLab

variable (src : GitLabSource)

/-- A run of the source. -/
def step (s : Store Payload) (r : SyncRun GitLab.Provider) : Store Payload :=
  runSource src.descriptor.sourceId (fun now p => src.toSource now p.answers) s r

/-- Every update that an incremental run is shown, at or after the
watermark before it, is stored by the run or at or after the watermark it
leaves. -/
def KeepsUpdates (s : Store Payload) (r : SyncRun GitLab.Provider) : Prop :=
  r.full = false → ∀ i project kind, src.projects[i]? = some project →
    ∀ x ∈ r.answers.visible kind i,
      AtOrAfter (s.getWatermark src.descriptor.sourceId) x.updatedAt →
      StoredAt (src.step s r) ⟨src.descriptor.sourceId, x.id⟩ r.env.startedAt ∨
        AtOrAfter ((src.step s r).getWatermark src.descriptor.sourceId) x.updatedAt

/-- The run reads every listing through, unless it tracks no time at all;
and no shown item at or after the watermark is before it as text. -/
structure ReadsThrough (s : Store Payload) (r : SyncRun GitLab.Provider) : Prop where
  listings : src.trackedTimes r.now (nonEmpty (s.getWatermark src.descriptor.sourceId))
      r.answers.answers = [] ∨
    ∀ i project kind, src.projects[i]? = some project →
      (listingRead (nonEmpty (s.getWatermark src.descriptor.sourceId)) r.answers.answers kind
        i).2.ReadThrough
  text : ∀ kind i, ∀ x ∈ r.answers.visible kind i,
    AtOrAfter (s.getWatermark src.descriptor.sourceId) x.updatedAt →
      notOlder (nonEmpty (s.getWatermark src.descriptor.sourceId)) x.updatedAt = true

/-- A shown item at or after the watermark has a record in a fetch that
reads its listing through. -/
theorem exists_record_of_shown (now : String) {p : GitLab.Provider} {since : Option String}
    {i : Nat} {project : String} (hi : src.projects[i]? = some project) {kind : RefKind}
    (hthrough : (listingRead since p.answers kind i).2.ReadThrough)
    {watermark : Option String}
    (htext : ∀ x ∈ p.visible kind i, AtOrAfter watermark x.updatedAt →
      notOlder since x.updatedAt = true) {x : Node} (hx : x ∈ p.visible kind i)
    (hafter : AtOrAfter watermark x.updatedAt) :
    ∃ r ∈ (src.resolved now since p.answers).map (·.1), RecordFor kind x.id r := by
  obtain ⟨remaining, hs, hstart⟩ := p.shows kind i
  have hread := bulkPages_serves hs maxPages (0, none) hthrough
  rw [hstart] at hread
  have hkept := mem_takeWhile_of_atOrAfter Node.updatedAt (p.sorted kind i) htext hx hafter
  exact src.mem_records_of_read now since p.answers hi (by rw [listingRead, hread]; exact hkept)

/-- **A run that reads every listing through loses no update.** -/
theorem keepsUpdates_step {s : Store Payload} {r : SyncRun GitLab.Provider}
    (h : r.full = false → src.ReadsThrough s r) : src.KeepsUpdates s r := by
  intro hfull i project kind hi x hx hafter
  obtain ⟨hlistings, htext⟩ := h hfull
  have hstep : src.step s r = (syncSource s (src.toSource r.now r.answers.answers)
      (s.getWatermark src.descriptor.sourceId) r.opts r.env).1 := by
    simp [step, runSource, hfull]
  have hn : NormalizesWith (src.toSource r.now r.answers.answers) src.normalize := fun _ => rfl
  -- the update is stored, or the run leaves the watermark where it was
  have hkept : StoredAt (src.step s r) ⟨src.descriptor.sourceId, x.id⟩ r.env.startedAt ∨
      (src.step s r).getWatermark src.descriptor.sourceId =
        s.getWatermark src.descriptor.sourceId := by
    rw [hstep]
    refine stored_or_watermark_kept hn hfull fun primary hfetch => ?_
    obtain rfl := Except.ok.inj hfetch
    rcases hlistings with hnil | hthrough
    · left
      have : (src.fetch { since := s.getWatermark src.descriptor.sourceId, full := false } r.now
          r.answers.answers).watermark = [].foldl pickLatest none := by
        rw [← hnil]
        rfl
      exact this
    · right
      obtain ⟨rec, hmem, hrec⟩ := src.exists_record_of_shown r.now hi
        (hthrough i project kind hi) (htext kind i) hx hafter
      obtain ⟨_, _, hitem⟩ := src.ofItem_of_recordFor hrec
      refine ⟨rec, List.mem_append_left _ hmem, fun records hm r' hr' hkey => ?_⟩
      rw [src.normalize_eq, ← hrec.externalId]
      exact (src.reads r.now r.answers.answers).normalizesTo_of_refreshMerge hfetch hm hitem hr' hkey
  rcases hkept with hstored | hsame
  · exact Or.inl hstored
  · exact Or.inr (by rw [hsame]; exact hafter)

end GitLabSource

/-! ## GitHub -/

namespace GitHub

/-- A provider in one run: its answers, and the items it shows, latest
first. -/
structure Provider where
  answers : Answers
  visible : RefKind → Nat → List Node
  sorted : ∀ kind i, (visible kind i).Pairwise fun a b => NotBefore a.updatedAt b.updatedAt
  shows : GitHubSource.Shows answers visible

end GitHub

namespace GitHubSource

open GitHub

variable (src : GitHubSource)

/-- A run of the source. -/
def step (s : Store Payload) (r : SyncRun GitHub.Provider) : Store Payload :=
  runSource src.descriptor.sourceId (fun now p => src.toSource now p.answers) s r

/-- Every update that an incremental run is shown, at or after the
watermark before it, is stored by the run or at or after the watermark it
leaves. -/
def KeepsUpdates (s : Store Payload) (r : SyncRun GitHub.Provider) : Prop :=
  r.full = false → ∀ i project kind, src.projects[i]? = some project →
    ∀ x ∈ r.answers.visible kind i,
      AtOrAfter (s.getWatermark src.descriptor.sourceId) x.updatedAt →
      StoredAt (src.step s r) ⟨src.descriptor.sourceId, x.id⟩ r.env.startedAt ∨
        AtOrAfter ((src.step s r).getWatermark src.descriptor.sourceId) x.updatedAt

/-- The run withholds its watermark, or reads every listing through unless
it tracks no time at all; and no shown item at or after the watermark is
before it as text. -/
structure ReadsThrough (s : Store Payload) (r : SyncRun GitHub.Provider) : Prop where
  listings :
    src.withholds r.now (nonEmpty (s.getWatermark src.descriptor.sourceId))
      r.answers.answers = true ∨
    src.trackedTimes r.now (nonEmpty (s.getWatermark src.descriptor.sourceId))
      r.answers.answers = [] ∨
    ∀ i project kind, src.projects[i]? = some project →
      ReadThrough r.now (nonEmpty (s.getWatermark src.descriptor.sourceId)) r.answers.answers
        project i kind
  text : ∀ kind i, ∀ x ∈ r.answers.visible kind i,
    AtOrAfter (s.getWatermark src.descriptor.sourceId) x.updatedAt →
      notOlder (nonEmpty (s.getWatermark src.descriptor.sourceId)) x.updatedAt = true

/-- **A run that withholds its watermark or reads every listing through
loses no update.** -/
theorem keepsUpdates_step {s : Store Payload} {r : SyncRun GitHub.Provider}
    (h : r.full = false → src.ReadsThrough s r) : src.KeepsUpdates s r := by
  intro hfull i project kind hi x hx hafter
  obtain ⟨hlistings, htext⟩ := h hfull
  have hstep : src.step s r = (syncSource s (src.toSource r.now r.answers.answers)
      (s.getWatermark src.descriptor.sourceId) r.opts r.env).1 := by
    simp [step, runSource, hfull]
  have hn : NormalizesWith (src.toSource r.now r.answers.answers) src.normalize := fun _ => rfl
  have hkept : StoredAt (src.step s r) ⟨src.descriptor.sourceId, x.id⟩ r.env.startedAt ∨
      (src.step s r).getWatermark src.descriptor.sourceId =
        s.getWatermark src.descriptor.sourceId := by
    rw [hstep]
    refine stored_or_watermark_kept hn hfull fun primary hfetch => ?_
    obtain rfl := Except.ok.inj hfetch
    have hwatermark : (src.fetch { since := s.getWatermark src.descriptor.sourceId, full := false }
        r.now r.answers.answers).watermark =
          if src.withholds r.now (nonEmpty (s.getWatermark src.descriptor.sourceId))
            r.answers.answers then none
          else (src.trackedTimes r.now (nonEmpty (s.getWatermark src.descriptor.sourceId))
            r.answers.answers).foldl pickLatest none := rfl
    cases hwith : src.withholds r.now (nonEmpty (s.getWatermark src.descriptor.sourceId))
        r.answers.answers with
    | true => exact Or.inl (by rw [hwatermark, hwith, if_pos rfl])
    | false =>
      rw [hwith] at hlistings
      rcases hlistings with hyes | hnil | hthrough
      · cases hyes
      · left
        rw [hwatermark, hwith, hnil]
        rfl
      · right
        have hdown := mem_takeWhile_of_atOrAfter Node.updatedAt (r.answers.sorted kind i)
          (htext kind i) hx hafter
        obtain ⟨rec, hmem, hrec⟩ := src.exists_record_of_shown r.now _ r.answers.answers
          r.answers.shows hwith hi (hthrough i project kind hi) hdown
        obtain ⟨_, _, hitem⟩ := src.ofItem_of_recordFor hrec
        refine ⟨rec, List.mem_append_left _ hmem, fun records hm r' hr' hkey => ?_⟩
        rw [src.normalize_eq, ← hrec.externalId]
        exact (src.reads r.now r.answers.answers).normalizesTo_of_refreshMerge hfetch hm hitem hr'
          hkey
  rcases hkept with hstored | hsame
  · exact Or.inl hstored
  · exact Or.inr (by rw [hsame]; exact hafter)

end GitHubSource

/-! ## Runs -/

/-- **Which incremental runs lose no update.** For both adapters, from any
store: in a history of runs, if every incremental run reads its listings
through (or keeps the watermark to itself, or tracks no time), every run
keeps the updates it is shown. -/
theorem updatesKept_run (gitlab : GitLabSource) (github : GitHubSource) :
    (∀ (s : Store GitLab.Payload) (runs : List (SyncRun GitLab.Provider)),
      EachStep gitlab.step (fun s r => r.full = false → gitlab.ReadsThrough s r) s runs →
      EachStep gitlab.step gitlab.KeepsUpdates s runs) ∧
    (∀ (s : Store GitHub.Payload) (runs : List (SyncRun GitHub.Provider)),
      EachStep github.step (fun s r => r.full = false → github.ReadsThrough s r) s runs →
      EachStep github.step github.KeepsUpdates s runs) := by
  constructor
  · exact fun s runs h => h.imp fun s r => gitlab.keepsUpdates_step
  · exact fun s runs h => h.imp fun s r => github.keepsUpdates_step

/-! ## One project, two runs -/

namespace TwoRuns

open OneProject

/-- A listing that answers its first request with all it has. -/
def once {N : Type} (nodes : List N) : ℕ → Option String → Except String (Option (Connection N))
  | 0, _ => .ok (some { nodes, hasNextPage := false, endCursor := none })
  | _ + 1, _ => .error "no more pages"

theorem once_serves {N : Type} {ask : Pager (ℕ × Option String) String N} (nodes : List N)
    (hask : ask = fun s => (once nodes s.1 s.2).map fun found => found.map fun conn =>
      ({ nodes := conn.nodes, hasNextPage := conn.hasNextPage }, (s.1 + 1, conn.endCursor))) :
    Serves ask fun s => if s.1 = 0 then nodes else [] := by
  subst hask
  exact {
    page
      | (0, _), page, s', h => by
        obtain ⟨rfl, rfl⟩ := Prod.mk.inj (Option.some.inj (Except.ok.inj h))
        simp
      | (_ + 1, _), _, _, h => by cases h
    last
      | (0, _), page, s', h, _ => by
        obtain ⟨rfl, rfl⟩ := Prod.mk.inj (Option.some.inj (Except.ok.inj h))
        simp
      | (_ + 1, _), _, _, h, _ => by cases h }

/-- Latest first. -/
def LatestFirst {N : Type} (updatedAt : N → String) (nodes : List N) : Prop :=
  nodes.Pairwise fun a b => NotBefore (updatedAt a) (updatedAt b)

theorem latestFirst_nil {N : Type} (updatedAt : N → String) : LatestFirst updatedAt [] := .nil

theorem latestFirst_gitlabNode (id updatedAt : String) :
    LatestFirst GitLab.Node.updatedAt [gitlabNode id updatedAt] :=
  List.pairwise_singleton _ _

theorem latestFirst_githubNode (id updatedAt : String) :
    LatestFirst GitHub.Node.updatedAt [githubNode id updatedAt] :=
  List.pairwise_singleton _ _

/-- Where no change request is listed, no two share a number. -/
theorem noNumbers : ∀ a ∈ ([] : List GitHub.Node), ∀ b ∈ ([] : List GitHub.Node),
    a.number = b.number → a.id = b.id :=
  fun _ ha => absurd ha List.not_mem_nil

/-- The nodes a GitLab listing shows, whenever it is asked. -/
def gitlabShown (issues mergeRequests : List GitLab.Node) : GitLab.RefKind → ℕ → List GitLab.Node
  | .issue, _ => issues
  | .changeRequest, _ => mergeRequests

/-- A GitLab project that answers with what it shows. -/
def gitlabProvider (issues mergeRequests : List GitLab.Node)
    (hissues : LatestFirst GitLab.Node.updatedAt issues)
    (hmergeRequests : LatestFirst GitLab.Node.updatedAt mergeRequests) : GitLab.Provider where
  answers :=
    { gitlabAnswers none with
      issues := fun _ => once issues, mergeRequests := fun _ => once mergeRequests }
  visible := gitlabShown issues mergeRequests
  sorted kind i := by
    cases kind with
    | issue => exact hissues
    | changeRequest => exact hmergeRequests
  shows kind i := by
    cases kind with
    | issue => exact ⟨_, once_serves issues rfl, rfl⟩
    | changeRequest => exact ⟨_, once_serves mergeRequests rfl, rfl⟩

/-- A listing of one page. -/
def githubOnce (nodes : List GitHub.Node) : GitHub.Listing
  | 0, _, _ => .ok (some { nodes, hasNextPage := false, endCursor := none })
  | _ + 1, _, _ => .error (.other "no more pages")

theorem githubOnce_serves (nodes : List GitHub.Node) :
    Serves (GitHub.request (githubOnce nodes)) fun s => if s.call = 0 then nodes else [] where
  page
    | ⟨0, _, _⟩, page, s', h => by
      obtain ⟨rfl, rfl⟩ := Prod.mk.inj (Option.some.inj (Except.ok.inj h))
      simp
    | ⟨_ + 1, _, _⟩, _, _, h => by simp [GitHub.request, githubOnce] at h
  last
    | ⟨0, _, _⟩, page, s', h, _ => by
      obtain ⟨rfl, rfl⟩ := Prod.mk.inj (Option.some.inj (Except.ok.inj h))
      simp
    | ⟨_ + 1, _, _⟩, _, _, h, _ => by simp [GitHub.request, githubOnce] at h

/-- The nodes a GitHub listing shows, whenever it is asked. -/
def githubShown (issues pullRequests : List GitHub.Node) : GitHub.RefKind → ℕ → List GitHub.Node
  | .issue, _ => issues
  | .changeRequest, _ => pullRequests

/-- A GitHub repository that answers with what it shows; the probe lists the
pull requests, and each is found by its number. -/
def githubProvider (issues pullRequests : List GitHub.Node)
    (hissues : LatestFirst GitHub.Node.updatedAt issues)
    (hpulls : LatestFirst GitHub.Node.updatedAt pullRequests)
    (hnumber : ∀ a ∈ pullRequests, ∀ b ∈ pullRequests, a.number = b.number → a.id = b.id) :
    GitHub.Provider where
  answers :=
    { githubAnswers none with
      issues := fun _ => githubOnce issues, pullRequests := fun _ => githubOnce pullRequests
      probe := fun _ => once (pullRequests.map GitHub.probeRow)
      detail := fun _ _ number => .ok (pullRequests.find? (·.number = some number)) }
  visible := githubShown issues pullRequests
  sorted kind i := by
    cases kind with
    | issue => exact hissues
    | changeRequest => exact hpulls
  shows :=
    { listing := fun kind i => by
        cases kind with
        | issue => exact ⟨_, githubOnce_serves issues, rfl⟩
        | changeRequest => exact ⟨_, githubOnce_serves pullRequests, rfl⟩
      probe := fun i => ⟨_, once_serves _ rfl, rfl⟩
      detail := fun i pos number node h x hx hxn => by
        have hfind := Except.ok.inj h
        refine hnumber node (List.mem_of_find?_eq_some hfind) x hx ?_
        rw [hxn]
        simpa using List.find?_some hfind }

/-- A run's surroundings: it ends in the instant it started, and its transaction commits. -/
def env (startedAt : String) : RunEnv :=
  { startedAt, sweepAt := startedAt, finishedAt := startedAt, txError := none }

/-- An incremental run, of nothing but its start and its answers. -/
def run {A : Type} (startedAt : String) (answers : A) : SyncRun A :=
  { now := startedAt, full := false, dryRun := false, ciRefreshGraceMs := none,
    ciRefreshLimit := some 0, env := env startedAt, answers }

/-- The first run of each source: one issue, and no watermark before it. -/
def gitlabFirst : SyncRun GitLab.Provider :=
  run "2026-06-01T08:30:00.000Z"
    (gitlabProvider [gitlabNode "1" "2026-06-01T08:00:00Z"] []
      (latestFirst_gitlabNode "1" "2026-06-01T08:00:00Z") (latestFirst_nil GitLab.Node.updatedAt))

/-- The first GitHub run: one issue and no change request. -/
def githubFirst : SyncRun GitHub.Provider :=
  run "2026-06-01T08:30:00.000Z"
    (githubProvider [githubNode "1" "2026-06-01T08:00:00Z"] []
      (latestFirst_githubNode "1" "2026-06-01T08:00:00Z") (latestFirst_nil GitHub.Node.updatedAt)
      noNumbers)

/-- What the second run is shown: two updates after the first run's
watermark, the issue at it, and two items before it. -/
def gitlabLater : GitLab.Provider :=
  gitlabProvider
    [gitlabNode "2" "2026-06-01T10:00:00Z", gitlabNode "1" "2026-06-01T08:00:00Z",
      gitlabNode "0" "2026-06-01T07:00:00Z"]
    [gitlabNode "7" "2026-06-01T09:30:00Z", gitlabNode "6" "2026-06-01T07:30:00Z"]
    (by unfold LatestFirst; decide) (by unfold LatestFirst; decide)

/-- GitHub at the next run: a new issue, the moved front, and one the watermark leaves out. -/
def githubLater : GitHub.Provider :=
  githubProvider
    [githubNode "2" "2026-06-01T10:00:00Z", githubNode "1" "2026-06-01T08:00:00Z",
      githubNode "0" "2026-06-01T07:00:00Z"]
    [{ githubNode "PR_7" "2026-06-01T09:30:00Z" with number := some 7 },
      { githubNode "PR_6" "2026-06-01T07:30:00Z" with number := some 6 }]
    (by unfold LatestFirst; decide) (by unfold LatestFirst; decide) (by decide)

/-- The GitLab run that stops at the watermark of the first. -/
def gitlabNext : SyncRun GitLab.Provider := run "2026-06-01T10:30:00.000Z" gitlabLater

/-- The GitHub run that stops at the watermark of the first. -/
def githubNext : SyncRun GitHub.Provider := run "2026-06-01T10:30:00.000Z" githubLater

theorem gitlab_watermark_first : (gitlab.step (Store.empty .sqlite) gitlabFirst).getWatermark
    gitlab.descriptor.sourceId = some "2026-06-01T08:00:00Z" := by
  decide

theorem github_watermark_first : (github.step (Store.empty .sqlite) githubFirst).getWatermark
    github.descriptor.sourceId = some "2026-06-01T08:00:00Z" := by
  decide +kernel

theorem gitlab_readsThrough_first : gitlab.ReadsThrough (Store.empty .sqlite) gitlabFirst where
  listings := Or.inr fun i project kind _ => by cases kind <;> exact Or.inl rfl
  text _ _ _ _ _ := rfl

theorem github_readsThrough_first : github.ReadsThrough (Store.empty .sqlite) githubFirst where
  listings := by
    refine Or.inr (Or.inr fun i project kind _ => ?_)
    have hnone : nonEmpty ((Store.empty .sqlite : Store GitHub.Payload).getWatermark
        github.descriptor.sourceId) = none := rfl
    rw [hnone]
    cases kind <;> left <;>
      simp [githubFirst, run, githubProvider, githubOnce, GitHub.listPages, GitHub.request,
        GitHub.ReaderState.start, GitHub.visitNodes, GitHub.visitOf, notOlder]
  text _ _ _ _ _ := rfl

/-- The second run stops at the watermark of the first, in both listings. -/
theorem gitlab_readsThrough_next :
    gitlab.ReadsThrough (gitlab.step (Store.empty .sqlite) gitlabFirst) gitlabNext where
  listings := Or.inr fun i project kind _ => by
    rw [gitlab_watermark_first]
    cases kind <;> exact Or.inr rfl
  text kind i := by
    rw [gitlab_watermark_first]
    cases kind with
    | issue =>
      show ∀ x ∈ gitlabLater.visible .issue 0, _
      decide
    | changeRequest =>
      show ∀ x ∈ gitlabLater.visible .changeRequest 0, _
      decide

theorem github_readsThrough_next :
    github.ReadsThrough (github.step (Store.empty .sqlite) githubFirst) githubNext where
  listings := Or.inr (Or.inr fun i project kind _ => by
    rw [github_watermark_first]
    cases kind with
    | issue =>
      right
      rw [GitHub.listPages]
      rfl
    | changeRequest => exact ⟨_, _, rfl, Or.inr rfl⟩)
  text kind i := by
    rw [github_watermark_first]
    cases kind with
    | issue =>
      show ∀ x ∈ githubLater.visible .issue 0, _
      decide
    | changeRequest =>
      show ∀ x ∈ githubLater.visible .changeRequest 0, _
      decide

/-- **The same for two runs of each source**, the second of which stops at
the watermark the first one stored. -/
theorem updatesKept_twoRuns :
    EachStep gitlab.step gitlab.KeepsUpdates (Store.empty .sqlite) [gitlabFirst, gitlabNext] ∧
      EachStep github.step github.KeepsUpdates (Store.empty .sqlite) [githubFirst, githubNext] :=
  ⟨(updatesKept_run gitlab github).1 _ _
      ⟨fun _ => gitlab_readsThrough_first, fun _ => gitlab_readsThrough_next, trivial⟩,
    (updatesKept_run gitlab github).2 _ _
      ⟨fun _ => github_readsThrough_first, fun _ => github_readsThrough_next, trivial⟩⟩

/-- The merge requests of the second run's provider: one, updated at 09:00,
and the request for it fails. -/
def failingProvider : GitLab.Provider where
  answers :=
    { gitlabAnswers none with
      issues := fun _ => once [gitlabNode "1" "2026-06-01T10:00:00Z"]
      mergeRequests := fun _ _ _ => .error "HTTP 500" }
  visible
    | .issue, _ => [gitlabNode "1" "2026-06-01T10:00:00Z"]
    | .changeRequest, _ => [gitlabNode "2" "2026-06-01T09:00:00Z"]
  sorted kind i := by cases kind <;> exact List.pairwise_singleton _ _
  shows kind i := by
    cases kind with
    | issue => exact ⟨_, once_serves _ rfl, rfl⟩
    | changeRequest =>
      exact ⟨fun _ => [gitlabNode "2" "2026-06-01T09:00:00Z"],
        ⟨(fun _ _ _ h => by cases h), (fun _ _ _ h _ => by cases h)⟩, rfl⟩

/-- A GitLab run whose second page fails. -/
def gitlabSecond : SyncRun GitLab.Provider := run "2026-06-01T10:30:00.000Z" failingProvider

/-- The merge request the failed page would have shown. -/
def mergeRequest : ItemEndpoint := ⟨gitlab.descriptor.sourceId, "2"⟩

end TwoRuns

open TwoRuns OneProject in
/-- **A failed listing can lose an update.** The merge request was updated
after the watermark of the first run; its listing fails in the second,
which still stores the time of the issue it has read. -/
theorem not_updatesKept :
    ¬ ∀ (src : GitLabSource) (runs : List (SyncRun GitLab.Provider)),
      (∀ r ∈ runs, r.full = false) →
      EachStep src.step src.KeepsUpdates (Store.empty .sqlite) runs := by
  intro h
  have eight : dateParse "2026-06-01T08:00:00Z" = some 1780300800000 := by decide
  have nine : dateParse "2026-06-01T09:00:00Z" = some 1780304400000 := by decide
  have ten : dateParse "2026-06-01T10:00:00Z" = some 1780308000000 := by decide
  have hsecond := (h gitlab [gitlabFirst, gitlabSecond] (by decide)).2.1
  have hbefore : (gitlab.step (Store.empty .sqlite) gitlabFirst).getWatermark
      gitlab.descriptor.sourceId = some "2026-06-01T08:00:00Z" := by decide
  have hafter : (gitlab.step (gitlab.step (Store.empty .sqlite) gitlabFirst)
      gitlabSecond).getWatermark gitlab.descriptor.sourceId = some "2026-06-01T10:00:00Z" := by
    decide
  have hrow : ((gitlab.step (gitlab.step (Store.empty .sqlite) gitlabFirst)
      gitlabSecond).items.get? mergeRequest).isSome = false := by decide
  have hselected : AtOrAfter ((gitlab.step (Store.empty .sqlite) gitlabFirst).getWatermark
      gitlab.descriptor.sourceId) "2026-06-01T09:00:00Z" := by
    rw [hbefore]
    intro w hw
    obtain rfl := Option.some.inj hw
    exact ⟨_, _, nine, eight, by decide⟩
  rcases hsecond rfl 0 "group/project" .changeRequest rfl (gitlabNode "2" "2026-06-01T09:00:00Z")
    List.mem_cons_self hselected with ⟨row, hstored, -⟩ | hkept
  · cases hrow.symm.trans (congrArg Option.isSome hstored)
  · rw [hafter] at hkept
    obtain ⟨x, y, hx, hy, hle⟩ := hkept "2026-06-01T10:00:00Z" rfl
    obtain rfl := Option.some.inj (hx.symm.trans nine)
    obtain rfl := Option.some.inj (hy.symm.trans ten)
    exact absurd hle (by decide)

end SymphonyBoard
