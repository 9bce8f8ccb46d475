import SymphonyBoard.Common.Paging
import SymphonyBoard.Sources.GitHub.Normalize
/-!
# The GitHub fetch

`fetch` and `fetchRefresh` of `src/sources/github.ts`. What the provider
answers in one run is a value, `GitHub.Answers`: every request has its own
answer, so it stands for every sequence of responses. The rows of the
activity feeds are taken as read (`ActivityRows`), and so is the outcome of
a tracker's reference lookup: the REST paging, the side-branch expansion,
the commit decorations and the lookup's batching are left out.
-/

namespace SymphonyBoard

namespace GitHub

/-- `PAGE_SIZE`. -/
def pageSize : Nat := 50

/-- `MAX_PAGES`. -/
def maxPages : Nat := 40

/-- `MAX_ITEMS`. -/
def maxItems : Nat := 4000

/-- `MAX_REVIEW_THREAD_PAGES`. -/
def maxReviewThreadPages : Nat := 40

/-- `API_VERSION` -/
def apiVersion : String := "github.graphql.v4"

/-! ## Requests -/

/-- The errors of the GraphQL client, as far as the fetch tells them apart. -/
inductive GqlError
  | http (status : Nat) (message : String)
  | nonJson (status : Nat) (message : String)
  | other (message : String)

/-- What an error says. -/
def GqlError.message : GqlError → String
  | .http _ message => message
  | .nonJson _ message => message
  | .other message => message

/-- `isGithubHeavyQueryFailure`: the failures a smaller page can avoid. -/
def GqlError.isHeavy : GqlError → Bool
  | .http status _ => status ∈ [502, 503, 504]
  | .nonJson status _ => (200 ≤ status && status < 300) || status ∈ [502, 503, 504]
  | .other _ => false

/-- The answers to a listing's requests, by how many were made before, the
cursor they ask from and the page size. -/
abbrev Listing := Nat → Option String → Nat → Except GqlError (Option (Connection Node))

/-- Where the loop over a listing's pages is. -/
structure ReaderState where
  call : Nat
  cursor : Option String
  pageSize : Nat
deriving DecidableEq

/-- Before the first request, with full pages. -/
def ReaderState.start : ReaderState := { call := 0, cursor := none, pageSize := GitHub.pageSize }

/-- One page of a listing. A page that fails as too heavy is asked for once
more at half size from the same cursor, and the listing stays at that
size. -/
def request (listing : Listing) : Pager ReaderState String Node := fun s =>
  let answered : Nat → Nat → Option (Connection Node) → Option (Page Node × ReaderState) :=
    fun call size found => found.map fun conn =>
      ({ nodes := conn.nodes, hasNextPage := conn.hasNextPage },
        { call, cursor := conn.endCursor, pageSize := size })
  match listing s.call s.cursor s.pageSize with
  | .ok found => .ok (answered (s.call + 1) s.pageSize found)
  | .error err =>
    if s.pageSize ≠ pageSize ∨ ¬ err.isHeavy then .error err.message
    else
      match listing (s.call + 1) s.cursor (pageSize / 2) with
      | .ok found => .ok (answered (s.call + 2) (pageSize / 2) found)
      | .error err => .error err.message

/-- The answers to a pull request's further review thread pages; a page
missing from the response is none. -/
abbrev ThreadPages := Nat → Except String (Option ThreadConnection)

/-- A row of the incremental probe. -/
structure ProbeNode where
  number : Option Nat
  updatedAt : Option String

/-- The answers to the probe, request by request. -/
abbrev ProbeListing := Nat → Option String → Except String (Option (Connection ProbeNode))

/-- What the activity feeds of one project returned. -/
structure ActivityRows where
  events : List RepoEvent
  issueComments : List Comment
  reviewComments : List Comment
  commits : List Commit

/-- What the provider answers in one run: for each configured project by
its place, for each visited node by its place in the listing, for each
candidate by its place and the number asked for, and for each refresh
target by its place. A tracker lookup answers nothing when the issue names
no row to look up. -/
structure Answers where
  issues : Nat → Listing
  pullRequests : Nat → Listing
  trackerRefs : Nat → Nat → Except String (Option TrackerRefs)
  threadPages : Nat → Nat → ThreadPages
  probe : Nat → ProbeListing
  detail : Nat → Nat → Nat → Except String (Option Node)
  detailThreadPages : Nat → Nat → ThreadPages
  activity : Nat → Except String ActivityRows
  byNumber : Nat → Except String (Option Node)
  refreshThreadPages : Nat → ThreadPages

/-- `project.split("/")`: the owner and the name, where there is one. -/
def ownerName (project : String) : Option (String × String) :=
  match (project.toList.splitOn '/').map String.ofList with
  | owner :: name :: _ => if owner = "" ∨ name = "" then none else some (owner, name)
  | _ => none

/-! ## Nodes -/

/-- The further pages of a connection, from page `page`, with the pages it
may still read. -/
def moreThreads (label : String) (answer : ThreadPages) :
    Nat → Nat → ThreadConnection → Except String ThreadConnection
  | 0, _, _ =>
    .error (label ++ ": review threads exceeded " ++ toString maxReviewThreadPages ++ " pages")
  | left + 1, page, conn =>
    if nonEmpty conn.endCursor = none then
      .error (label ++ ": review thread page is missing an end cursor")
    else do
      match ← answer page with
      | none => .error (label ++ ": review thread page is missing from the response")
      | some next =>
        let conn : ThreadConnection :=
          { totalCount := next.totalCount.or conn.totalCount, hasNextPage := next.hasNextPage,
            endCursor := next.endCursor, nodes := conn.nodes ++ next.nodes }
        if conn.hasNextPage then moreThreads label answer left (page + 1) conn
        else return conn

/-- `completeReviewThreads`: the payload with all its review threads. -/
def completeReviewThreads (project : String) (answer : ThreadPages) (node : Node) :
    Except String Node :=
  match node.reviewThreads with
  | none => .ok node
  | some conn =>
    if ¬ conn.hasNextPage then .ok node
    else
      match ownerName project, node.number with
      | some (owner, name), some number => do
        let label := owner ++ "/" ++ name ++ " PR #" ++ toString number
        let conn ← moreThreads label answer (maxReviewThreadPages - 1) 1 conn
        return { node with reviewThreads := some conn }
      | _, _ => .error "cannot paginate review threads without a repository and PR number"

/-- `resolveTrackerRefs`: the payload with its references, or the error of
the lookup, which leaves the payload as it was. -/
def resolveTrackerRefs (project : String) (answer : Except String (Option TrackerRefs))
    (node : Node) : Node × Option String :=
  match answer with
  | .ok none => (node, none)
  | .ok (some refs) => ({ node with trackerRefs := some refs }, none)
  | .error msg =>
    (node, some (project ++ " #" ++ toString (node.number.getD 0) ++ " tracker refs: " ++ msg))

/-- What a listing is of. -/
inductive RefKind
  | issue
  | changeRequest
deriving DecidableEq

/-- The kind, as messages spell it. -/
def kindText : RefKind → String
  | .issue => "issue"
  | .changeRequest => "change_request"

/-- The kind of the records. -/
def entityKind : RefKind → EntityKind
  | .issue => .issue
  | .changeRequest => .changeRequest

/-- The record of a listed node. -/
def nodeRecord (kind : RefKind) (now : String) (node : Node) : RawRecord Payload :=
  { entityKind := entityKind kind, externalId := node.id, apiVersion := some apiVersion,
    fetchedAt := now, payload := .node node }

/-- What is done with one node of a listing before its record is made. -/
abbrev Visit := Nat → Node → Except String (Node × Option String)

/-- An issue's references are looked up; a pull request's review threads
are completed. -/
def visitOf (project : String) (refs : Nat → Except String (Option TrackerRefs))
    (threads : Nat → ThreadPages) : RefKind → Visit
  | .issue => fun pos node => .ok (resolveTrackerRefs project (refs pos) node)
  | .changeRequest => fun pos node =>
    (completeReviewThreads project (threads pos) node).map fun node => (node, none)

/-! ## The listings -/

/-- What a listing, or a part of it, yields: the records, the timestamps
the watermark is taken from, the errors of the tracker lookups, and how it
ends, if it does. -/
structure Read where
  records : List (RawRecord Payload)
  times : List String
  refsErrors : List String

/-- Nothing read. -/
def Read.empty : Read := ⟨[], [], []⟩

/-- One part of a listing, then the next. -/
def Read.append (a b : Read) : Read :=
  ⟨a.records ++ b.records, a.times ++ b.times, a.refsErrors ++ b.refsErrors⟩

/-- The nodes of a page, from their place in the listing. A node older
than the watermark, or one whose visit fails, ends the listing. -/
def visitNodes (since : Option String) (kind : RefKind) (now : String) (visit : Visit) :
    Nat → List Node → Read × Option ListingEnd
  | _, [] => (.empty, none)
  | pos, node :: nodes =>
    if ¬ notOlder since node.updatedAt then (.empty, some .olderNode)
    else
      match visit pos node with
      | .error msg => (⟨[], [node.updatedAt], []⟩, some (.failed msg))
      | .ok (visited, refsError) =>
        let rest := visitNodes since kind now visit (pos + 1) nodes
        (Read.append ⟨[nodeRecord kind now visited], [node.updatedAt], refsError.toList⟩ rest.1,
          rest.2)

/-- What is said of a listing with too many items. -/
def stoppedMessage (fetched : Nat) : String :=
  "stopped after " ++ toString fetched ++ " records with more pages left (cap " ++
    toString maxItems ++ ")"

/-- The loop over the pages of one listing, `fetched` nodes in. -/
def listPages (since : Option String) (kind : RefKind) (now : String) (visit : Visit)
    (listing : Listing) (fetched : Nat) (s : ReaderState) : Read × ListingEnd :=
  match request listing s with
  | .error msg => (.empty, .failed msg)
  | .ok none => (.empty, .noConnection)
  | .ok (some (page, s')) =>
    match visitNodes since kind now visit fetched page.nodes with
    | (read, some ending) => (read, ending)
    | (read, none) =>
      if page.hasNextPage = false then (read, .lastPage)
      else if maxItems ≤ fetched + page.nodes.length ∨ page.nodes = [] then
        (read, .failed (stoppedMessage (fetched + page.nodes.length)))
      else
        let rest := listPages since kind now visit listing (fetched + page.nodes.length) s'
        (read.append rest.1, rest.2)
termination_by maxItems - fetched
decreasing_by
  rename_i h
  have := List.length_pos_of_ne_nil (not_or.mp h).2
  omega

/-! ## Incremental pull requests -/

/-- A pull request to read in full. -/
structure Candidate where
  number : Nat
  updatedAt : String

/-- How the probe ends: with candidates, where its pages end; with a row
that has no number; or with an error. -/
inductive ProbeEnd
  | done (candidates : List Candidate) (ending : ListingEnd)
  | noNumber
  | failed (msg : String)

/-- What was found before, in front. -/
def ProbeEnd.prepend (l : List Candidate) : ProbeEnd → ProbeEnd
  | .done candidates ending => .done (l ++ candidates) ending
  | e => e

/-- The rows of one probe page: the candidates up to a row older than the
watermark, and whether there was one. -/
def probeRows (project since : String) :
    List ProbeNode → Except ProbeEnd (List Candidate × Bool)
  | [] => .ok ([], false)
  | node :: nodes =>
    match node.updatedAt, node.number with
    | none, _ =>
      .error (.failed (project ++ ": incremental PR probe returned a row without updatedAt"))
    | some updatedAt, number =>
      if updatedAt < since then .ok ([], true)
      else
        match number with
        | none => .error .noNumber
        | some number => do
          let rest ← probeRows project since nodes
          return (⟨number, updatedAt⟩ :: rest.1, rest.2)

/-- One page of the probe. -/
def probeRequest (listing : ProbeListing) : Pager (Nat × Option String) String ProbeNode := fun s =>
  (listing s.1 s.2).map fun found => found.map fun conn =>
    ({ nodes := conn.nodes, hasNextPage := conn.hasNextPage }, (s.1 + 1, conn.endCursor))

/-- The loop over the probe's pages, with the pages it may still read. -/
def probePages (project since : String) (listing : ProbeListing) :
    Nat → Nat × Option String → ProbeEnd
  | 0, _ => .done [] .pageCap
  | left + 1, s =>
    match probeRequest listing s with
    | .error msg => .failed msg
    | .ok none => .done [] .noConnection
    | .ok (some (page, s')) =>
      match probeRows project since page.nodes with
      | .error e => e
      | .ok (candidates, stop) =>
        if stop then .done candidates .olderNode
        else if page.hasNextPage = false then .done candidates .lastPage
        else if nonEmpty s'.2 = none then
          .failed (project ++ ": incremental PR page is missing an end cursor")
        else (probePages project since listing left s').prepend candidates

/-- One candidate's full payload. -/
def resolveDetail (project now : String) (answer : Except String (Option Node))
    (threads : ThreadPages) (candidate : Candidate) : ResolveOutcome Payload :=
  let fail : String → ResolveOutcome Payload := fun msg =>
    { record := none,
      error := some (project ++ " #" ++ toString candidate.number ++ " incremental detail: " ++
        msg) }
  match answer with
  | .error msg => fail msg
  | .ok none =>
    { record := none,
      error := some (project ++ " #" ++ toString candidate.number ++
        ": detail missing after incremental probe") }
  | .ok (some node) =>
    match completeReviewThreads project threads node with
    | .error msg => fail msg
    | .ok node => { record := some (nodeRecord .changeRequest now node), error := none }

/-- Every candidate's full payload, in order. -/
def resolveCandidates (project now : String) (detail : Nat → Nat → Except String (Option Node))
    (threads : Nat → ThreadPages) (candidates : List Candidate) : List (ResolveOutcome Payload) :=
  candidates.zipIdx.map fun (candidate, i) =>
    resolveDetail project now (detail i candidate.number) (threads i) candidate

/-- The timestamp a record of the incremental path counts with. -/
def detailTime (r : RawRecord Payload) : Option String :=
  match r.payload with
  | .node node => nonEmpty (some node.updatedAt)
  | _ => none

/-- `fetchIncrementalPullRequests`; an error is one it throws. -/
def fetchIncrementalPullRequests (project since now : String) (listing : ProbeListing)
    (detail : Nat → Nat → Except String (Option Node)) (threads : Nat → ThreadPages) :
    Except String (FetchResult Payload) :=
  let incomplete : String → FetchResult Payload := fun msg =>
    { records := [], watermark := none, complete := false, error := some msg }
  match ownerName project with
  | none => .ok (incomplete (project ++ ": invalid repository path"))
  | some _ =>
    match probePages project since listing maxPages (0, none) with
    | .failed msg => .error msg
    | .noNumber =>
      .ok (incomplete (project ++ ": incremental PR probe returned a row without a number"))
    | .done candidates _ =>
      let outcomes := resolveCandidates project now detail threads candidates
      let errors := outcomes.filterMap (·.error)
      let records := outcomes.filterMap (·.record)
      .ok
        { records
          watermark := (records.filterMap detailTime).foldl pickLatest none
          complete := errors.isEmpty
          error := errors.head? }

/-! ## The activity feeds -/

/-- When an event of the activity feed happened. -/
def RepoEvent.occurred (e : RepoEvent) : Option String := nonEmpty (e.timestamp.or e.pushedAt)

/-- When a comment was last written. -/
def Comment.updated (c : Comment) : Option String := (cleanText c.updatedAt).or (cleanText c.createdAt)

/-- When a commit of the feed was made; none without a sha. -/
def Commit.occurred (c : Commit) : Option String :=
  if c.sha = "" then none else nonEmpty (c.committerDate.or c.authorDate)

/-- The rows of a feed that have a time, with it. -/
def dated {α : Type} (time : α → Option String) (rows : List α) : List (α × String) :=
  rows.filterMap fun row => (time row).map (row, ·)

/-- The record of a row of the activity feed. -/
def activityRecord (now externalId : String) (payload : Payload) : RawRecord Payload :=
  { entityKind := .activity, externalId, apiVersion := some (apiVersion ++ ".rest"),
    fetchedAt := now, payload }

/-- The records of one of the two comment surfaces. -/
def commentRecords (project now idPrefix : String) (wrap : String → Comment → Payload)
    (rows : List (Comment × String)) : List (RawRecord Payload) :=
  rows.map fun (c, updated) =>
    activityRecord now
      (stableActivityId
        [some idPrefix, some project, ((c.nodeId.or c.id).or c.htmlUrl).or (some updated)])
      (wrap project c)

/-- `fetchRepoActivity`: a record for each event, comment and commit, and
the latest time among them. -/
def repoActivity (project now : String) (rows : ActivityRows) :
    List (RawRecord Payload) × Option String :=
  let events := dated (·.occurred) rows.events
  let issueComments := dated (·.updated) rows.issueComments
  let reviewComments := dated (·.updated) rows.reviewComments
  let commits := dated (·.occurred) rows.commits
  let commentLatest := ((issueComments ++ reviewComments).map (·.2)).foldl pickLatest none
  (events.map (fun (e, occurred) =>
      activityRecord now
        (stableActivityId [some "repo-activity", some project, e.activityType.or e.pushType, e.ref,
          e.before, e.after, some occurred])
        (.repoActivity project e)) ++
    commentRecords project now "issue-comment" .issueComment issueComments ++
    commentRecords project now "pr-review-comment" .reviewComment reviewComments ++
    (firstOfEach (·.sha) (commits.map (·.1))).map (fun c =>
      activityRecord now (stableActivityId [some "commit", some project, some c.sha])
        (.commit project c)),
    (events.map (·.2) ++ commentLatest.toList ++ commits.map (·.2)).foldl pickLatest none)

/-- What one listing of the sweep gives the fetch: its records, the
timestamps it is tracked by, its errors in order, and whether it withholds
the watermark. -/
structure SweepRead where
  records : List (RawRecord Payload)
  times : List String
  errors : List String
  withholds : Bool

/-- A listing read page by page. A failure is an error of the sweep;
tracker lookups that failed, and failed incremental pull requests,
withhold the watermark. -/
def sweepListing (since : Option String) (kind : RefKind) (project now : String) (visit : Visit)
    (listing : Listing) : SweepRead :=
  let read := listPages since kind now visit listing 0 .start
  { records := read.1.records
    times := read.1.times
    errors := read.1.refsErrors ++
      (match read.2 with
      | .failed msg => [project ++ " " ++ kindText kind ++ ": " ++ msg]
      | _ => [])
    withholds := !read.1.refsErrors.isEmpty }

/-- The incremental pull requests of a project, as the sweep takes them. -/
def sweepIncremental (project since now : String) (listing : ProbeListing)
    (detail : Nat → Nat → Except String (Option Node)) (threads : Nat → ThreadPages) : SweepRead :=
  match fetchIncrementalPullRequests project since now listing detail threads with
  | .error msg =>
    { records := [], times := [],
      errors := [project ++ " " ++ kindText .changeRequest ++ ": " ++ msg], withholds := true }
  | .ok incremental =>
    { records := incremental.records
      times := (nonEmpty incremental.watermark).toList
      errors := if incremental.complete then [] else incremental.error.toList
      withholds := !incremental.complete }

end GitHub

open GitHub

namespace GitHubSource

variable (src : GitHubSource)

/-- `since`, for a fetch with the given options. -/
def sinceOf (opts : FetchOptions) : Option String :=
  if opts.full then none else nonEmpty opts.since

/-- One project's issues. -/
def issueRead (now : String) (since : Option String) (answers : Answers) (project : String)
    (i : Nat) : SweepRead :=
  sweepListing since .issue project now
    (visitOf project (answers.trackerRefs i) (answers.threadPages i) .issue) (answers.issues i)

/-- One project's pull requests: page by page where there is no watermark,
else probed and resolved one by one. -/
def pullRequestRead (now : String) (since : Option String) (answers : Answers)
    (project : String) (i : Nat) : SweepRead :=
  match since with
  | some since =>
    sweepIncremental project since now (answers.probe i) (answers.detail i)
      (answers.detailThreadPages i)
  | none =>
    sweepListing none .changeRequest project now
      (visitOf project (answers.trackerRefs i) (answers.threadPages i) .changeRequest)
      (answers.pullRequests i)

/-- Every listing of the sweep, in order. -/
def sweepReads (now : String) (since : Option String) (answers : Answers) : List SweepRead :=
  src.projects.zipIdx.flatMap fun (project, i) =>
    [issueRead now since answers project i, pullRequestRead now since answers project i]

/-- The activity feeds of every project that has a REST client. -/
def activityReads (now : String) (answers : Answers) :
    List (Except String (List (RawRecord Payload) × Option String)) :=
  (src.projects.zipIdx.filter fun p => src.hasRest p.1).map fun (project, i) =>
    match answers.activity i with
    | .ok rows => .ok (repoActivity project now rows)
    | .error msg => .error (project ++ " activity: " ++ msg)

/-- The errors of a fetch, in the order they are met. -/
def fetchErrors (now : String) (since : Option String) (answers : Answers) : List String :=
  src.partialReason.toList ++ (src.sweepReads now since answers).flatMap (·.errors) ++
    (src.activityReads now answers).filterMap fun
      | .ok _ => none
      | .error msg => some msg

/-- The timestamps a fetch takes its watermark from, in order. -/
def trackedTimes (now : String) (since : Option String) (answers : Answers) : List String :=
  (src.sweepReads now since answers).flatMap (·.times) ++
    (src.activityReads now answers).filterMap fun
      | .ok read => nonEmpty read.2
      | .error _ => none

/-- A fetch that left something behind keeps its watermark to itself. -/
def withholds (now : String) (since : Option String) (answers : Answers) : Bool :=
  (nonEmpty src.partialReason).isSome || (src.sweepReads now since answers).any (·.withholds)

/-- `fetch` of the source: the listings, then the activity feeds. -/
def fetch (opts : FetchOptions) (now : String) (answers : Answers) : FetchResult Payload :=
  let since := sinceOf opts
  let errors := src.fetchErrors now since answers
  { records := (src.sweepReads now since answers).flatMap (·.records) ++
      (src.activityReads now answers).flatMap fun
        | .ok read => read.1
        | .error _ => []
    watermark := if src.withholds now since answers then none
      else (src.trackedTimes now since answers).foldl pickLatest none
    complete := errors.isEmpty
    error := errors.head? }

/-- One refresh target: its pull request as the provider has it now. -/
def refreshItem (now : String) (answers : Answers) (target : RefreshCandidate) (i : Nat) :
    ResolveOutcome Payload :=
  let fail : String → ResolveOutcome Payload := fun msg =>
    { record := none,
      error := some (target.projectPath ++ " #" ++ toString target.iid ++ " ci refresh: " ++ msg) }
  match ownerName target.projectPath with
  | none => { record := none, error := none }
  | some _ =>
    match answers.byNumber i with
    | .error msg => fail msg
    | .ok none => { record := none, error := none }
    | .ok (some node) =>
      match completeReviewThreads target.projectPath (answers.refreshThreadPages i) node with
      | .error msg => fail msg
      | .ok node => { record := some (nodeRecord .changeRequest now node), error := none }

/-- `fetchRefresh` of the source: one request for each item asked for. -/
def fetchRefresh (now : String) (answers : Answers) (candidates : List RefreshCandidate) :
    FetchResult Payload :=
  refreshResult ((refreshTargets src.projects candidates).zipIdx.map fun (target, i) =>
    refreshItem now answers target i)

/-- The source the engine is handed: the provider answers as in `answers`. -/
def toSource (now : String) (answers : Answers) : Source Payload :=
  { descriptor := src.descriptor
    normalizerVersion := "github/13"
    fetch := fun opts => .ok (src.fetch opts now answers)
    fetchRefresh := some fun candidates _ => .ok (src.fetchRefresh now answers candidates)
    normalize := fun raw => .ok (src.normalize raw) }

end GitHubSource

end SymphonyBoard
