import SymphonyBoard.Sources.GitHub.Reads
import SymphonyBoard.Sources.GitLab.Reads
/-!
# When a complete full sweep is complete

A full sweep reports `complete` when it met no error. Two ways out of the
paging loops are no error: a response without a connection ends a listing
in both adapters, and the GitLab loop stops after its last allowed page
whether or not there is another. `completeSweep_iff` says that these are
the only ways a complete sweep misses a page.
-/

namespace SymphonyBoard

namespace GitLab

/-- Every page of a listing was read, up to one without a next page, and
every node on them has a record. -/
structure ListingComplete (answers : Answers) (records : List (RawRecord Payload))
    (kind : RefKind) (i : Nat) : Prop where
  ended : (GitLabSource.listingRead none answers kind i).2 = .lastPage
  nodes : ∃ n l, ReadsTo (request (answers.listing kind i)) (0, none) n l .lastPage ∧
    ∀ node ∈ l, ∃ r ∈ records, RecordFor kind node.id r

/-- Following the pages of a listing runs into a response without a
connection, or every page the loop may read has a next page. -/
def CutShort (listing : Listing) : Prop :=
  (∃ n l, n < maxPages ∧ ReadsTo (request listing) (0, none) n l .noListing) ∨
    ∃ l, ReadsFirst (request listing) (0, none) maxPages l

end GitLab

namespace GitHub

/-- Every page of a listing was read, up to one without a next page, and
every node on them has a record. -/
structure ListingComplete (answers : Answers) (records : List (RawRecord Payload))
    (now : String) (kind : RefKind) (project : String) (i : Nat) : Prop where
  ended : (GitHubSource.listingRead now answers kind project i).2 = .lastPage
  nodes : ∃ n l, ReadsTo (request (answers.listing kind i)) .start n l .lastPage ∧
    ∀ node ∈ l, ∃ r ∈ records, RecordFor kind node.id r

/-- Following the pages of a listing runs into a response without a
connection. -/
def CutShort (listing : Listing) : Prop :=
  ∃ n l, ReadsTo (request listing) .start n l .noListing

end GitHub

/-! ## One listing of a complete sweep -/

open GitLab in
theorem gitlab_listingComplete_iff {src : GitLabSource} {since : Option String} {now : String}
    {answers : GitLab.Answers}
    (hc : (src.fetch { since, full := true } now answers).complete = true) {i : Nat}
    {project : String} (h : src.projects[i]? = some project) (kind : GitLab.RefKind) :
    ListingComplete answers (src.fetch { since, full := true } now answers).records kind i ↔
      ¬ CutShort (answers.listing kind i) := by
  have hsince : GitLabSource.sinceOf { since, full := true } = none := rfl
  have hnot := src.not_failed_of_complete now answers hc h kind
  rw [hsince] at hnot
  rcases bulkPages_full (answers.listing kind i) maxPages (0, none) with
    ⟨n, l, o, hn, hr, heq⟩ | ⟨l, hr, hcap⟩
  · constructor
    · rintro ⟨hend, -⟩ (⟨n', l', -, hr'⟩ | ⟨l', hfirst⟩)
      · obtain ⟨-, -, rfl⟩ := hr.unique hr'
        rw [GitLabSource.listingRead, heq] at hend
        cases hend
      · have := hr.le_of_readsFirst hfirst
        omega
    · intro hcut
      cases o with
      | noListing => exact absurd (Or.inl ⟨n, l, hn, hr⟩) hcut
      | failed msg =>
        refine absurd ?_ (hnot msg)
        rw [GitLabSource.listingRead, heq]
        rfl
      | lastPage =>
        refine ⟨by rw [GitLabSource.listingRead, heq]; rfl, n, l, hr, fun node hnode => ?_⟩
        have hread : node ∈ (GitLabSource.listingRead none answers kind i).1 := by
          rw [GitLabSource.listingRead, heq]
          exact hnode
        obtain ⟨r, hmem, hrec⟩ := src.mem_records_of_read now none answers h hread
        exact ⟨r, List.mem_append_left _ hmem, hrec⟩
  · constructor
    · rintro ⟨hend, -⟩
      rw [GitLabSource.listingRead, hcap] at hend
      cases hend
    · intro hcut
      exact absurd (Or.inr ⟨l, hr⟩) hcut

open GitHub in
theorem github_listingComplete_iff {src : GitHubSource} {since : Option String} {now : String}
    {answers : GitHub.Answers}
    (hc : (src.fetch { since, full := true } now answers).complete = true) {i : Nat}
    {project : String} (h : src.projects[i]? = some project) (kind : GitHub.RefKind) :
    ListingComplete answers (src.fetch { since, full := true } now answers).records now kind
        project i ↔
      ¬ CutShort (answers.listing kind i) := by
  have hnot := src.not_failed_of_complete now answers rfl hc h kind
  have hv := keepsNode_visitOf project (answers.trackerRefs i) (answers.threadPages i) kind
  rcases listPages_full kind now hv (answers.listing kind i) 0 .start with
    ⟨msg, hfail⟩ | ⟨n, l, hr, hend⟩ | ⟨n, l, hr, hend, hrec⟩
  · exact absurd hfail (hnot msg)
  · constructor
    · rintro ⟨hend', -⟩
      rw [GitHubSource.listingRead, hend] at hend'
      cases hend'
    · intro hcut
      exact absurd ⟨n, l, hr⟩ hcut
  · constructor
    · rintro - ⟨n', l', hr'⟩
      obtain ⟨-, -, h⟩ := hr.unique hr'
      cases h
    · intro _
      refine ⟨hend, n, l, hr, fun node hnode => ?_⟩
      obtain ⟨r, hmem, hr⟩ := hrec.exists_record hnode
      exact ⟨r, List.mem_append_left _ (List.mem_flatMap.mpr
        ⟨_, src.mem_sweepReads now answers h kind, hmem⟩), hr⟩

/-! ## The sweep -/

/-- **When a complete sweep is complete.** For both adapters: a full fetch
that reports `complete` has read every page of both listings of every
configured project, with a record for every node on them, exactly if no
listing is cut short without an error. -/
theorem completeSweep_iff (since : Option String) (now : String) :
    (∀ (src : GitLabSource) (answers : GitLab.Answers),
      (src.fetch { since, full := true } now answers).complete = true →
      ((∀ i project kind, src.projects[i]? = some project →
          GitLab.ListingComplete answers
            (src.fetch { since, full := true } now answers).records kind i) ↔
        ∀ i project kind, src.projects[i]? = some project →
          ¬ GitLab.CutShort (answers.listing kind i))) ∧
    (∀ (src : GitHubSource) (answers : GitHub.Answers),
      (src.fetch { since, full := true } now answers).complete = true →
      ((∀ i project kind, src.projects[i]? = some project →
          GitHub.ListingComplete answers
            (src.fetch { since, full := true } now answers).records now kind project i) ↔
        ∀ i project kind, src.projects[i]? = some project →
          ¬ GitHub.CutShort (answers.listing kind i))) := by
  constructor
  · intro src answers hc
    constructor
    · intro h i project kind hi
      exact (gitlab_listingComplete_iff hc hi kind).mp (h i project kind hi)
    · intro h i project kind hi
      exact (gitlab_listingComplete_iff hc hi kind).mpr (h i project kind hi)
  · intro src answers hc
    constructor
    · intro h i project kind hi
      exact (github_listingComplete_iff hc hi kind).mp (h i project kind hi)
    · intro h i project kind hi
      exact (github_listingComplete_iff hc hi kind).mpr (h i project kind hi)

/-! ## One project on each provider -/

namespace OneProject

/-- A GitLab source of one project, without a REST client. -/
def gitlab : GitLabSource :=
  { descriptor :=
      { sourceId := ⟨"gitlab:gitlab.com", noBarGitlab⟩, kind := "gitlab", host := "gitlab.com",
        displayName := none }
    projects := ["group/project"]
    hasRest := false
    toActivity := fun _ => none }

/-- A GitHub source of one repository, without a tracker. -/
def github : GitHubSource :=
  { descriptor :=
      { sourceId := ⟨"github:github.com", noBarGithub⟩, kind := "github", host := "github.com",
        displayName := none }
    projects := ["owner/name"]
    hasRest := fun _ => false
    partialReason := none
    toActivity := fun _ => none
    trackerEdges := fun _ _ _ => [] }

/-- A bare open item. -/
def gitlabNode (id updatedAt : String) : GitLab.Node :=
  { id, iid := id, title := none, webUrl := none, createdAt := none, updatedAt, closedAt := none,
    mergedAt := none, state := some "opened", author := none, labels := [],
    userNotesCount := none, upvotes := none, draft := false, approved := false,
    approvalsRequired := none, resolvableDiscussionsCount := none,
    resolvedDiscussionsCount := none, headPipelineStatus := none, detailedMergeStatus := none,
    approvedBy := [], projectPath := none, relatedMergeRequests := [], notes := [],
    discussions := [], mentions := [], relates := [] }

/-- A bare open item. -/
def githubNode (id updatedAt : String) : GitHub.Node :=
  { id, number := none, title := none, body := none, url := none, createdAt := none, updatedAt,
    closedAt := none, mergedAt := none, state := some "OPEN", author := none,
    nameWithOwner := none, labels := [], commentsTotalCount := none, reactionsTotalCount := none,
    totalCommentsCount := none, crossReferences := [], closedByPullRequests := [],
    closingIssues := [], isDraft := false, reviewDecision := none, mergeable := none,
    checkState := none, reviews := [], reviewThreads := none, trackerRefs := none }

/-- A provider whose listings both answer every request with `found`. -/
def gitlabAnswers (found : Option (Connection GitLab.Node)) : GitLab.Answers :=
  { mergeRequests := fun _ _ _ => .ok found
    issues := fun _ _ _ => .ok found
    resolve := fun _ =>
      { details := .ok { relatedMergeRequests := [], approvedBy := [], notes := [] }
        discussions := fun _ => .ok [] }
    activity := fun _ => .ok { events := [], commits := [] }
    byIid := fun _ => .ok none
    refreshDiscussions := fun _ _ => .ok [] }

/-- The same of GitHub. -/
def githubAnswers (found : Option (Connection GitHub.Node)) : GitHub.Answers :=
  { issues := fun _ _ _ _ => .ok found
    pullRequests := fun _ _ _ _ => .ok found
    trackerRefs := fun _ _ => .ok none
    threadPages := fun _ _ _ => .ok none
    probe := fun _ _ _ => .ok none
    detail := fun _ _ _ => .ok none
    detailThreadPages := fun _ _ _ => .ok none
    activity := fun _ => .ok { events := [], issueComments := [], reviewComments := [], commits := [] }
    byNumber := fun _ => .ok none
    refreshThreadPages := fun _ _ => .ok none }

/-- A last page without items. -/
def emptyPage {N : Type} : Connection N := { nodes := [], hasNextPage := false, endCursor := none }

/-- A listing of two pages, by how many were read before: two items and one
more. -/
def twoPages {N : Type} (item : String → N) : Nat → Connection N
  | 0 => { nodes := [item "1", item "2"], hasNextPage := true, endCursor := some "page 2" }
  | _ + 1 => { nodes := [item "3"], hasNextPage := false, endCursor := none }

/-- Both listings of the project on GitLab have two pages. -/
def gitlabTwoPages : GitLab.Answers :=
  { gitlabAnswers none with
    mergeRequests := fun _ n _ =>
      .ok (some (twoPages (fun i => gitlabNode ("MergeRequest/" ++ i) "2026-01-02T00:00:00Z") n))
    issues := fun _ n _ =>
      .ok (some (twoPages (fun i => gitlabNode ("Issue/" ++ i) "2026-01-02T00:00:00Z") n)) }

/-- Both listings of the repository on GitHub have two pages. The first
request for the pull requests is too heavy, and is made again at half size. -/
def githubTwoPages : GitHub.Answers :=
  { githubAnswers none with
    issues := fun _ n _ _ =>
      .ok (some (twoPages (fun i => githubNode ("I_" ++ i) "2026-01-02T00:00:00Z") n))
    pullRequests := fun _ n _ _ =>
      match n with
      | 0 => .error (.http 502 "Bad Gateway")
      | n + 1 =>
        .ok (some (twoPages (fun i => githubNode ("PR_" ++ i) "2026-01-02T00:00:00Z") n)) }

theorem gitlab_complete {answers : GitLab.Answers}
    (h : answers = gitlabAnswers none ∨ answers = gitlabTwoPages) :
    (gitlab.fetch { since := none, full := true } "" answers).complete = true := by
  rcases h with rfl | rfl <;> rfl

/-- The part of a GitHub listing that a page of bare items makes. -/
def githubRead (kind : GitHub.RefKind) (nodes : List GitHub.Node) : GitHub.Read :=
  { records := nodes.map (GitHub.nodeRecord kind "")
    times := nodes.map (·.updatedAt)
    refsErrors := [] }

/-- The last page of a listing of bare items. -/
theorem listPages_last {kind : GitHub.RefKind} {visit : GitHub.Visit} {listing : GitHub.Listing}
    {fetched : ℕ} {s : GitHub.ReaderState} (nodes : List GitHub.Node) (s' : GitHub.ReaderState)
    (hask : GitHub.request listing s = .ok (some (⟨nodes, false⟩, s')))
    (hvisit : GitHub.visitNodes none kind "" visit fetched nodes = (githubRead kind nodes, none)) :
    GitHub.listPages none kind "" visit listing fetched s =
      (githubRead kind nodes, .lastPage) := by
  rw [GitHub.listPages, hask]
  simp only [hvisit]
  rfl

/-- A page of a listing of bare items, and what comes after it. -/
theorem listPages_more {kind : GitHub.RefKind} {visit : GitHub.Visit} {listing : GitHub.Listing}
    {fetched : ℕ} {s : GitHub.ReaderState} (nodes : List GitHub.Node) (s' : GitHub.ReaderState)
    (hask : GitHub.request listing s = .ok (some (⟨nodes, true⟩, s')))
    (hvisit : GitHub.visitNodes none kind "" visit fetched nodes = (githubRead kind nodes, none))
    (hroom : fetched + nodes.length < GitHub.maxItems) (hnodes : nodes ≠ []) :
    GitHub.listPages none kind "" visit listing fetched s =
      ((githubRead kind nodes).append
        (GitHub.listPages none kind "" visit listing (fetched + nodes.length) s').1,
        (GitHub.listPages none kind "" visit listing (fetched + nodes.length) s').2) := by
  rw [GitHub.listPages, hask]
  simp only [hvisit, Bool.true_eq_false, if_false, hnodes, or_false, not_le.mpr hroom]

/-- Both pages of a GitHub listing are visited, without an error. -/
theorem github_sweepListing (kind : GitHub.RefKind) :
    (GitHub.sweepListing none kind "owner/name" ""
      (GitHub.visitOf "owner/name" (fun _ => .ok none) (fun _ _ => .ok none) kind)
      (githubTwoPages.listing kind 0)).errors = [] := by
  unfold GitHub.sweepListing
  cases kind with
  | issue =>
    rw [listPages_more _ ⟨1, some "page 2", 50⟩ rfl rfl (by decide) (by decide),
      listPages_last _ ⟨2, none, 50⟩ rfl rfl]
    rfl
  | changeRequest =>
    rw [listPages_more _ ⟨2, some "page 2", 25⟩ rfl rfl (by decide) (by decide),
      listPages_last _ ⟨3, none, 25⟩ rfl rfl]
    rfl

/-- A sweep whose listings end without an error is complete. -/
theorem github_complete (issues pullRequests : GitHub.Listing)
    (hissues : (GitHub.sweepListing none .issue "owner/name" ""
      (GitHub.visitOf "owner/name" (fun _ => .ok none) (fun _ _ => .ok none) .issue)
      issues).errors = [])
    (hpulls : (GitHub.sweepListing none .changeRequest "owner/name" ""
      (GitHub.visitOf "owner/name" (fun _ => .ok none) (fun _ _ => .ok none) .changeRequest)
      pullRequests).errors = []) :
    (github.fetch { since := none, full := true } ""
      { githubAnswers none with
        issues := fun _ => issues, pullRequests := fun _ => pullRequests }).complete = true := by
  show (github.fetchErrors "" none _).isEmpty = true
  simp only [GitHubSource.fetchErrors, GitHubSource.sweepReads, GitHubSource.activityReads, github,
    List.zipIdx_singleton, List.flatMap_cons, List.flatMap_nil,
    GitHubSource.issueRead, GitHubSource.pullRequestRead]
  show ([] ++ ((GitHub.sweepListing none .issue "owner/name" "" _ _).errors ++
    ((GitHub.sweepListing none .changeRequest "owner/name" "" _ _).errors ++ [])) ++ []).isEmpty =
    true
  rw [List.isEmpty_iff]
  exact (congrArg₂ (fun a b => [] ++ (a ++ (b ++ [])) ++ []) hissues hpulls)

/-- Both pages of a GitLab listing are there to be read. -/
theorem gitlab_readsTo (kind : GitLab.RefKind) (i : ℕ) :
    ∃ l, ReadsTo (GitLab.request (gitlabTwoPages.listing kind i)) (0, none) 1 l .lastPage := by
  cases kind with
  | issue => exact ⟨_, .more rfl rfl (.last rfl rfl)⟩
  | changeRequest => exact ⟨_, .more rfl rfl (.last rfl rfl)⟩

/-- So of a GitHub listing. -/
theorem github_readsTo (kind : GitHub.RefKind) (i : ℕ) :
    ∃ l, ReadsTo (GitHub.request (githubTwoPages.listing kind i)) .start 1 l .lastPage := by
  cases kind with
  | issue => exact ⟨_, .more rfl rfl (.last rfl rfl)⟩
  | changeRequest => exact ⟨_, .more rfl rfl (.last rfl rfl)⟩

end OneProject

open OneProject in
/-- **The same for one project with listings of two pages**, on each
provider. -/
theorem completeSweep_twoPages :
    (∀ i project kind, gitlab.projects[i]? = some project →
        GitLab.ListingComplete gitlabTwoPages
          (gitlab.fetch { since := none, full := true } "" gitlabTwoPages).records kind i) ∧
      (∀ i project kind, github.projects[i]? = some project →
        GitHub.ListingComplete githubTwoPages
          (github.fetch { since := none, full := true } "" githubTwoPages).records "" kind project
            i) := by
  constructor
  · refine ((completeSweep_iff none "").1 gitlab gitlabTwoPages (gitlab_complete (Or.inr rfl))).mpr ?_
    intro i project kind _
    obtain ⟨l, hread⟩ := gitlab_readsTo kind i
    rintro (⟨n, l', -, h⟩ | ⟨l', h⟩)
    · cases (hread.unique h).2.2
    · exact absurd (hread.le_of_readsFirst h) (by decide)
  · refine ((completeSweep_iff none "").2 github githubTwoPages (github_complete _ _
      (github_sweepListing .issue) (github_sweepListing .changeRequest))).mpr ?_
    intro i project kind _
    obtain ⟨l, hread⟩ := github_readsTo kind i
    rintro ⟨n, l', h⟩
    cases (hread.unique h).2.2

open OneProject in
/-- **A complete sweep can miss a whole project.** GitLab answers a project
the token cannot see with null and no error. -/
theorem not_completeSweep_complete :
    ¬ ∀ (src : GitLabSource) (since : Option String) (now : String) (answers : GitLab.Answers),
      (src.fetch { since, full := true } now answers).complete = true →
      ∀ i project kind, src.projects[i]? = some project →
        GitLab.ListingComplete answers
          (src.fetch { since, full := true } now answers).records kind i := by
  intro h
  have := (h gitlab none "" (gitlabAnswers none) (gitlab_complete (Or.inl rfl)) 0
    "group/project" .issue rfl).ended
  exact absurd this (by decide)

end SymphonyBoard
