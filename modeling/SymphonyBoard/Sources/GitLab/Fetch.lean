import SymphonyBoard.Common.OrdMap
import SymphonyBoard.Common.Paging
import SymphonyBoard.Sources.GitLab.Normalize
/-!
# The GitLab fetch

`fetch` and `fetchRefresh` of `src/sources/gitlab.ts`. What the provider
answers in one run is a value, `GitLab.Answers`: every request has its own
answer, so it stands for every sequence of responses. The records of the
activity feeds are taken as read (`ActivityRows`): the REST paging, the
side-branch expansion and the commit decorations are left out.
-/

namespace SymphonyBoard

namespace GitLab

/-- `MAX_PAGES`. -/
def maxPages : Nat := 40

/-- `MAX_REST_PAGES`. -/
def maxRestPages : Nat := 10

/-- `API_VERSION` -/
def apiVersion : String := "gitlab.graphql"

/-- The answers to a listing's requests, by how many were made before and
the cursor they ask from. No connection is a null project or field. -/
abbrev Listing := Nat → Option String → Except String (Option (Connection Node))

/-- What the per-item resolve request returns; a missing field is empty. -/
structure Details where
  relatedMergeRequests : List RelatedMergeRequest
  approvedBy : List String
  notes : List Note

/-- The answers to the requests made about one item. -/
structure ResolveAnswers where
  details : Except String Details
  discussions : Nat → Except String (List Discussion)

/-- What the activity feeds of one project returned. -/
structure ActivityRows where
  events : List Event
  commits : List Commit

/-- What the provider answers in one run: for each configured project by
its place, for each collected item by its place, and for each refresh
target by its place. -/
structure Answers where
  mergeRequests : Nat → Listing
  issues : Nat → Listing
  resolve : Nat → ResolveAnswers
  activity : Nat → Except String ActivityRows
  byIid : Nat → Except String (Option Node)
  refreshDiscussions : Nat → Nat → Except String (List Discussion)

/-! ## Pass 1: the listings -/

/-- One page of a listing, from the call number and the cursor it has got
to. -/
def request (listing : Listing) : Pager (Nat × Option String) String Node := fun s =>
  (listing s.1 s.2).map fun found => found.map fun conn =>
    ({ nodes := conn.nodes, hasNextPage := conn.hasNextPage }, (s.1 + 1, conn.endCursor))

/-- The loop over the pages of one listing, with the pages it may still
read: the nodes it collects and how it ends. -/
def bulkPages (since : Option String) (listing : Listing) :
    Nat → Nat × Option String → List Node × ListingEnd
  | 0, _ => ([], .pageCap)
  | left + 1, s =>
    match request listing s with
    | .error msg => ([], .failed msg)
    | .ok none => ([], .noConnection)
    | .ok (some (page, s')) =>
      let fresh := page.nodes.takeWhile fun node => notOlder since node.updatedAt
      if fresh.length < page.nodes.length then (fresh, .olderNode)
      else if page.hasNextPage = false then (fresh, .lastPage)
      else
        let rest := bulkPages since listing left s'
        (fresh ++ rest.1, rest.2)

/-- An item of the sweep, with the project it was listed under. -/
structure Collected where
  kind : RefKind
  node : Node
  project : String
deriving DecidableEq

/-- The kind's word in a message. -/
def kindText : RefKind → String
  | .issue => "issue"
  | .changeRequest => "change_request"

/-- One listing's part of pass 1. -/
structure BulkRead where
  kind : RefKind
  project : String
  nodes : List Node
  ending : ListingEnd

/-- What a read hands to the phases after it: each node under the project it was listed for. -/
def BulkRead.collected (b : BulkRead) : List Collected :=
  b.nodes.map fun node =>
    { kind := b.kind, node := { node with projectPath := some b.project }, project := b.project }

/-- The error a failed read reports. -/
def BulkRead.error (b : BulkRead) : Option String :=
  match b.ending with
  | .failed msg => some (b.project ++ " " ++ kindText b.kind ++ ": " ++ msg)
  | _ => none

/-- One project's pages of one kind, read until the watermark or the end. -/
def bulkRead (since : Option String) (kind : RefKind) (project : String) (listing : Listing) :
    BulkRead :=
  let read := bulkPages since listing maxPages (0, none)
  { kind, project, nodes := read.1, ending := read.2 }

/-- Pass 1: every project's merge requests and then its issues. -/
def bulkReads (since : Option String) (projects : List String) (answers : Answers) :
    List BulkRead :=
  projects.zipIdx.flatMap fun (project, i) =>
    [bulkRead since .changeRequest project (answers.mergeRequests i),
      bulkRead since .issue project (answers.issues i)]

/-- `(project, kind, iid)` to the item last collected under it. -/
def indexItems (collected : List Collected) : OrdMap (String × RefKind × String) ResolvedRef :=
  collected.foldl (fun m c =>
    m.set (c.project, c.kind, c.node.iid) { externalId := c.node.id, state := c.node.state })
    OrdMap.empty

/-! ## Pass 2: the items -/

/-- `resolveNoteRefs`: mentions, and relations of the notes that are no
mention. -/
def resolveNoteRefs (node : Node) (selfProject : String)
    (index : OrdMap (String × RefKind × String) ResolvedRef) :
    List ResolvedRef × List ResolvedRef :=
  let lookup : NoteRef → Option ResolvedRef := fun ref =>
    index.get? (ref.projectPath.getD selfProject, ref.kind, ref.iid)
  let bodies := (node.notes.filter (·.system)).map fun n => n.body.getD ""
  (bodies.filterMap fun body => (parseMention body).bind lookup,
    bodies.filterMap fun body =>
      if (parseMention body).isSome then none else (parseRelate body).bind lookup)

/-- Whether the review discussions of a merge request are asked for. -/
def shouldFetchReviewDiscussions (node : Node) : Bool :=
  node.resolvableDiscussionsCount.any (0 < ·)

/-- `fetchMergeRequestDiscussions`, with the pages it may still read. -/
def discussionPages (answer : Nat → Except String (List Discussion)) :
    Nat → Nat → Except String (List Discussion)
  | 0, _ => .ok []
  | left + 1, page => do
    let discussions ← answer page
    if discussions.length < 100 then return discussions
    else return discussions ++ (← discussionPages answer left (page + 1))

/-- The discussions of a merge request that has any to fetch. -/
def mergeRequestDiscussions (hasRest : Bool) (answer : Nat → Except String (List Discussion))
    (node : Node) : Except String (List Discussion) :=
  if shouldFetchReviewDiscussions node && hasRest then discussionPages answer maxRestPages 1
  else .ok []

/-- The node with what its resolve requests returned, and their error.
What was attached before a request failed stays attached. -/
def attachDetails (hasRest : Bool) (answers : ResolveAnswers) (kind : RefKind) (node : Node) :
    Node × Option String :=
  match answers.details, kind with
  | .error msg, _ => (node, some msg)
  | .ok d, .issue =>
    ({ node with relatedMergeRequests := d.relatedMergeRequests, notes := d.notes }, none)
  | .ok d, .changeRequest =>
    let node := { node with approvedBy := d.approvedBy, notes := d.notes }
    match mergeRequestDiscussions hasRest answers.discussions node with
    | .ok discussions => ({ node with discussions }, none)
    | .error msg => (node, some msg)

/-- The entity a kind's node becomes. -/
def entityKind : RefKind → EntityKind
  | .issue => .issue
  | .changeRequest => .changeRequest

/-- The raw record a node becomes. -/
def nodeRecord (kind : RefKind) (now : String) (node : Node) : RawRecord Payload :=
  { entityKind := entityKind kind, externalId := node.id, apiVersion := some apiVersion,
    fetchedAt := now, payload := .node node }

/-- One item of pass 2: its record, always, and the error of its resolve. -/
def resolveItem (hasRest : Bool) (now : String)
    (index : OrdMap (String × RefKind × String) ResolvedRef) (answers : ResolveAnswers)
    (c : Collected) : RawRecord Payload × Option String :=
  let attached := attachDetails hasRest answers c.kind c.node
  let refs := resolveNoteRefs attached.1 c.project index
  (nodeRecord c.kind now { attached.1 with mentions := refs.1, relates := refs.2 },
    attached.2.map fun msg =>
      c.project ++ " " ++ kindText c.kind ++ "#" ++ c.node.iid ++ " resolve: " ++ msg)

/-! ## The activity feeds -/

/-- When a commit happened. -/
def Commit.occurred (c : Commit) : Option String :=
  (c.committedDate.or c.createdAt).or c.authoredDate

/-- The rows of the feeds that count: those with an id and a time. -/
def ActivityRows.dated (rows : ActivityRows) : List (Event × String) × List (Commit × String) :=
  (rows.events.filterMap fun e => (nonEmpty e.createdAt).map (e, ·),
    (rows.commits.filter fun c => c.id ≠ "").filterMap fun c => (nonEmpty c.occurred).map (c, ·))

/-- `fetchProjectActivity`: a record for each event and for each commit,
and the latest time among them. -/
def projectActivity (project now : String) (rows : ActivityRows) :
    List (RawRecord Payload) × Option String :=
  let record : String → Payload → RawRecord Payload := fun externalId payload =>
    { entityKind := .activity, externalId, apiVersion := some (apiVersion ++ ".rest"),
      fetchedAt := now, payload }
  let dated := rows.dated
  let commits := firstOfEach (·.id) (dated.2.map (·.1))
  (dated.1.map (fun e =>
      record (stableActivityId [some "event", some project, some e.1.id])
        (.projectEvent project e.1)) ++
    commits.map (fun c =>
      record (stableActivityId [some "commit", some project, some c.id]) (.commit project c)),
    (dated.1.map (·.2) ++ dated.2.map (·.2)).foldl pickLatest none)

end GitLab

open GitLab

namespace GitLabSource

variable (src : GitLabSource)

/-- The activity feeds of every project, by place, when there is a REST
client. -/
def activityReads (now : String) (answers : Answers) :
    List (Except String (List (RawRecord Payload) × Option String)) :=
  if src.hasRest then
    src.projects.zipIdx.map fun (project, i) =>
      match answers.activity i with
      | .ok rows => .ok (projectActivity project now rows)
      | .error msg => .error (project ++ " activity: " ++ msg)
  else []

/-- Everything pass 1 collected, in order. -/
def collected (since : Option String) (answers : Answers) : List Collected :=
  (bulkReads since src.projects answers).flatMap (·.collected)

/-- Pass 2 over everything pass 1 collected. -/
def resolved (now : String) (since : Option String) (answers : Answers) :
    List (RawRecord Payload × Option String) :=
  let items := src.collected since answers
  items.zipIdx.map fun (c, i) => resolveItem src.hasRest now (indexItems items) (answers.resolve i) c

/-- The watermark `fetch` reads under: none for a full sweep. -/
def sinceOf (opts : FetchOptions) : Option String :=
  if opts.full then none else nonEmpty opts.since

/-- The errors of a fetch, in the order they are met. -/
def fetchErrors (now : String) (since : Option String) (answers : Answers) : List String :=
  (bulkReads since src.projects answers).filterMap (·.error) ++
    (src.resolved now since answers).filterMap (·.2) ++
    (src.activityReads now answers).filterMap fun
      | .ok _ => none
      | .error msg => some msg

/-- The timestamps a fetch takes its watermark from, in order. -/
def trackedTimes (now : String) (since : Option String) (answers : Answers) : List String :=
  (src.collected since answers).map (·.node.updatedAt) ++
    (src.activityReads now answers).filterMap fun
      | .ok read => nonEmpty read.2
      | .error _ => none

/-- `fetch`: the bulk reads, then the activity of what they hold, with the reads' errors. -/
def fetch (opts : FetchOptions) (now : String) (answers : Answers) : FetchResult Payload :=
  let since := sinceOf opts
  let errors := src.fetchErrors now since answers
  { records := (src.resolved now since answers).map (·.1) ++
      (src.activityReads now answers).flatMap fun
        | .ok read => read.1
        | .error _ => []
    watermark := (src.trackedTimes now since answers).foldl pickLatest none
    complete := errors.isEmpty
    error := errors.head? }

/-- One refresh target: its merge request as the provider has it now. The
payload carries no references: the refresh reads no notes. -/
def refreshItem (now : String) (answers : Answers) (target : RefreshCandidate) (i : Nat) :
    ResolveOutcome Payload :=
  let fail : String → ResolveOutcome Payload := fun msg =>
    { record := none,
      error := some (target.projectPath ++ " !" ++ toString target.iid ++ " ci refresh: " ++ msg) }
  match answers.byIid i with
  | .error msg => fail msg
  | .ok none => { record := none, error := none }
  | .ok (some node) =>
    let node :=
      { node with projectPath := some target.projectPath, mentions := [], relates := [] }
    match mergeRequestDiscussions src.hasRest (answers.refreshDiscussions i) node with
    | .error msg => fail msg
    | .ok discussions =>
      { record := some (nodeRecord .changeRequest now { node with discussions }), error := none }

/-- `fetchRefresh`: the candidates alone, each read by its own query. -/
def fetchRefresh (now : String) (answers : Answers) (candidates : List RefreshCandidate) :
    FetchResult Payload :=
  refreshResult ((refreshTargets src.projects candidates).zipIdx.map fun (target, i) =>
    src.refreshItem now answers target i)

/-- The source the engine is handed: the provider answers as in `answers`. -/
def toSource (now : String) (answers : Answers) : Source Payload :=
  { descriptor := src.descriptor
    normalizerVersion := "gitlab/13"
    fetch := fun opts => .ok (src.fetch opts now answers)
    fetchRefresh := some fun candidates _ =>
      .ok (src.fetchRefresh now answers candidates)
    normalize := fun raw => .ok (src.normalize raw) }

end GitLabSource

end SymphonyBoard
