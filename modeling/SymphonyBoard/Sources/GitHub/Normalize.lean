import SymphonyBoard.Model.Activity
import SymphonyBoard.Sources.Adapter
/-!
# GitHub payloads and their normalization

`src/sources/github.ts`, the pure half. Two parts of it are parameters of
the source here, and everything below holds whatever they do: how an
activity payload becomes an activity (`toActivity`), and which edges a
tracker's phase table yields (`trackerEdges`).
-/

namespace SymphonyBoard

namespace GitHub

/-! ## Payloads -/

/-- An issue or pull request a connection refers to. -/
structure RefNode where
  id : String
  state : Option String
deriving DecidableEq

/-- A reference to an issue from elsewhere. -/
structure CrossReference where
  willCloseTarget : Bool
  source : Option RefNode
deriving DecidableEq

/-- A review of a pull request. -/
structure Review where
  id : Option String
  author : Option String
  state : Option String
  submittedAt : Option String
  url : Option String
deriving DecidableEq

/-- A comment of a review thread. -/
structure ThreadComment where
  id : Option String
  author : Option String
  avatarUrl : Option String
  body : Option String
  url : Option String
  createdAt : Option String
  updatedAt : Option String
deriving DecidableEq

/-- When a thread's last comment was written. -/
structure LatestComment where
  createdAt : Option String
  updatedAt : Option String
deriving DecidableEq

/-- A review thread of a pull request. -/
structure ReviewThread where
  id : Option String
  isResolved : Bool
  isOutdated : Option Bool
  resolvedBy : Option String
  path : Option String
  line : Option Nat
  startLine : Option Nat
  commentsTotalCount : Option Nat
  comments : List ThreadComment
  latestComment : Option LatestComment
deriving DecidableEq

/-- A page of review threads; on a payload, all of them once the pages
are complete. -/
structure ThreadConnection where
  totalCount : Option Nat
  hasNextPage : Bool
  endCursor : Option String
  nodes : List ReviewThread
deriving DecidableEq

/-- A label as the listing gives it. -/
structure LabelNode where
  name : String
  color : Option String
deriving DecidableEq

/-- `__trackerRefs`: a row reference and the item it names. -/
abbrev TrackerRefs := List (String × RefNode)

/-- An issue or a pull request. The last field is attached by the fetch. -/
structure Node where
  id : String
  number : Option Nat
  title : Option String
  body : Option String
  url : Option String
  createdAt : Option String
  updatedAt : String
  closedAt : Option String
  mergedAt : Option String
  state : Option String
  author : Option String
  nameWithOwner : Option String
  labels : List LabelNode
  commentsTotalCount : Option Nat
  reactionsTotalCount : Option Nat
  totalCommentsCount : Option Nat
  crossReferences : List CrossReference
  closedByPullRequests : List RefNode
  closingIssues : List RefNode
  isDraft : Bool
  reviewDecision : Option String
  mergeable : Option String
  checkState : Option String
  reviews : List Review
  reviewThreads : Option ThreadConnection
  trackerRefs : Option TrackerRefs
deriving DecidableEq

/-- An event of the repository activity feed, with its two generations of
field names. -/
structure RepoEvent where
  timestamp : Option String
  pushedAt : Option String
  activityType : Option String
  pushType : Option String
  ref : Option String
  before : Option String
  after : Option String
deriving DecidableEq

/-- A comment of the activity feed. -/
structure Comment where
  nodeId : Option String
  id : Option String
  htmlUrl : Option String
  createdAt : Option String
  updatedAt : Option String
deriving DecidableEq

/-- A commit of the activity feed. -/
structure Commit where
  sha : String
  committerDate : Option String
  authorDate : Option String
deriving DecidableEq

/-- What a record holds: a listed node, or a row of an activity feed. -/
inductive Payload
  | node (node : Node)
  | repoActivity (project : String) (event : RepoEvent)
  | issueComment (project : String) (comment : Comment)
  | reviewComment (project : String) (comment : Comment)
  | commit (project : String) (commit : Commit)
deriving DecidableEq

/-- The node of an item's payload. -/
def Payload.node? : Payload → Option Node
  | .node p => some p
  | _ => none

/-! ## Enumerations -/

/-- `mapState` -/
def mapState (s : Option String) : ItemState :=
  if s = some "OPEN" then .opened else if s = some "MERGED" then .merged else .closed

/-- `mapReview`: the decision of the reviews. -/
def mapReview (d : Option String) : Option ReviewState :=
  if d = some "APPROVED" then some .approved
  else if d = some "CHANGES_REQUESTED" then some .changesRequested
  else if d = some "REVIEW_REQUIRED" then some .reviewRequired
  else none

/-- `mapCi`: the state of the checks. -/
def mapCi (s : Option String) : CiState :=
  let c := (s.getD "").toUpper
  if c = "SUCCESS" then .passing
  else if c = "FAILURE" ∨ c = "ERROR" then .failing
  else if c = "PENDING" ∨ c = "EXPECTED" then .pending
  else .none

/-- `mapMerge`: whether it can be merged. -/
def mapMerge (m : Option String) : MergeState :=
  if m = some "MERGEABLE" then .mergeable
  else if m = some "CONFLICTING" then .conflicting
  else .unknown

/-- A submitted review's action; only `APPROVED` counts as an approval. -/
def mapReviewAction (state : String) : String :=
  if state = "APPROVED" then "approved"
  else if state = "CHANGES_REQUESTED" then "changes_requested"
  else if state = "DISMISSED" then "dismissed"
  else "reviewed"

/-- Open and total review threads, unknown when the pages are not
complete. -/
def reviewThreadCounts (p : Node) : Option Nat × Option Nat :=
  match p.reviewThreads with
  | none => (none, none)
  | some rt =>
    if rt.hasNextPage then (none, none)
    else (some (rt.nodes.countP fun t => !t.isResolved), some (rt.totalCount.getD rt.nodes.length))

end GitHub

open GitHub

/-- A configured GitHub source: its projects, which of them have a REST
client, why it covers only some of them, and its two parameters. -/
structure GitHubSource where
  descriptor : SourceDescriptor
  projects : List String
  hasRest : String → Bool
  partialReason : Option String
  toActivity : RawRecord GitHub.Payload → Option CanonicalActivity
  trackerEdges : Node → ItemEndpoint → ItemState → List CanonicalEdge

namespace GitHubSource

variable (src : GitHubSource)

/-! ## Items -/

/-- `commonItem`, with the fields only a pull request has still null. -/
def commonItem (p : Node) (kind : ItemKind) : CanonicalItem :=
  { sourceId := src.descriptor.sourceId
    externalId := p.id
    kind
    projectPath := p.nameWithOwner
    iid := p.number
    url := p.url.getD ""
    title := p.title
    state := mapState p.state
    stateRaw := p.state
    isDraft := none
    author := p.author
    createdAt := p.createdAt
    updatedAt := some p.updatedAt
    closedAt := p.closedAt
    mergedAt := none
    reviewState := none
    ciState := none
    mergeState := none
    openReviewThreads := none
    totalReviewThreads := none
    commentTotal := if kind = .changeRequest then p.totalCommentsCount else p.commentsTotalCount
    demand := p.commentsTotalCount.getD 0 + p.reactionsTotalCount.getD 0 }

/-- The labels of a node. -/
def labels (p : Node) : List CanonicalLabel := p.labels.map fun l => toLabel l.name l.color

/-- `mentions` edges from the cross-references that do not close. -/
def mentionEdges (p : Node) (self : ItemEndpoint) (selfState : ItemState) : List CanonicalEdge :=
  p.crossReferences.filterMap fun ev =>
    match ev.source with
    | none => none
    | some source =>
      if source.id = "" ∨ ev.willCloseTarget then none
      else some
        { type := .mentions, fromEnd := ⟨self.sourceId, source.id⟩, toEnd := self,
          fromState := some (mapState source.state), toState := some selfState }

/-- One `review` activity a submitted review. -/
def reviewActivities (p : Node) (item : CanonicalItem) : List CanonicalActivity :=
  let sourceId := src.descriptor.sourceId
  p.reviews.filterMap fun r =>
    (nonEmpty r.submittedAt).map fun occurredAt =>
      { sourceId
        externalId := stableActivityId [some "review", some p.id, r.id.or (some occurredAt)]
        kind := "review"
        action := mapReviewAction (r.state.getD "")
        projectPath := item.projectPath
        targetKind := some "change_request"
        target := some ⟨sourceId, p.id⟩
        targetIid := item.iid
        title := item.title
        url := r.url.or (some item.url)
        actor := r.author
        occurredAt }

/-- The comments of a thread that have an id. -/
def threadComments (t : ReviewThread) : List CanonicalReviewThreadComment :=
  t.comments.filterMap fun c =>
    (nonEmpty c.id).map fun id =>
      { id
        author := c.author
        avatarUrl := cleanText c.avatarUrl
        body := cleanText c.body
        url := cleanText c.url
        createdAt := cleanText c.createdAt
        updatedAt := cleanText c.updatedAt }

/-- The review threads of a payload whose thread pages are complete. -/
def reviewThreads (p : Node) (item : CanonicalItem) : List CanonicalReviewThread :=
  match p.reviewThreads with
  | none => []
  | some rt =>
    if rt.hasNextPage then []
    else rt.nodes.filterMap fun t =>
      (nonEmpty t.id).map fun id =>
        let comments := threadComments t
        { sourceId := src.descriptor.sourceId
          externalId := id
          projectPath := item.projectPath
          target := ⟨src.descriptor.sourceId, p.id⟩
          targetIid := item.iid
          title := item.title
          url := (comments.head?.bind (·.url)).or (some item.url)
          isResolved := t.isResolved
          isOutdated := t.isOutdated
          resolvedBy := t.resolvedBy
          path := cleanText t.path
          line := t.line
          startLine := t.startLine
          commentsTotal := t.commentsTotalCount.getD comments.length
          comments
          lastCommentAt := t.latestComment.bind fun c =>
            (cleanText c.updatedAt).or (cleanText c.createdAt) }

/-! ## Normalization -/

/-- The item of a pull request. -/
def pullRequestItem (p : Node) : CanonicalItem :=
  let threads := reviewThreadCounts p
  { src.commonItem p .changeRequest with
    isDraft := some p.isDraft
    mergedAt := p.mergedAt
    reviewState := mapReview p.reviewDecision
    ciState := some (mapCi p.checkState)
    mergeState := if mapState p.state = .opened then some (mapMerge p.mergeable) else none
    openReviewThreads := threads.1
    totalReviewThreads := threads.2 }

/-- A pull request reports the issues it closes and who mentions it. -/
def normalizePullRequest (externalId : String) (p : Node) : NormalizedBundle :=
  let self : ItemEndpoint := ⟨src.descriptor.sourceId, externalId⟩
  let selfState := mapState p.state
  let closes := p.closingIssues.map fun iss =>
    { type := .closes, fromEnd := self, toEnd := ⟨self.sourceId, iss.id⟩,
      fromState := some selfState, toState := some (mapState iss.state) }
  let item := src.pullRequestItem p
  { item := some item
    labels := labels p
    edges := closes ++ mentionEdges p self selfState
    activities := itemActivities item ++ src.reviewActivities p item
    reviewThreads := src.reviewThreads p item }

/-- An issue reports the pull requests that close it, who mentions it, and
the edges of its phase table. -/
def normalizeIssue (externalId : String) (p : Node) : NormalizedBundle :=
  let self : ItemEndpoint := ⟨src.descriptor.sourceId, externalId⟩
  let selfState := mapState p.state
  let closes := p.closedByPullRequests.map fun pr =>
    { type := .closes, fromEnd := ⟨self.sourceId, pr.id⟩, toEnd := self,
      fromState := some (mapState pr.state), toState := some selfState }
  let item := src.commonItem p .issue
  { item := some item
    labels := labels p
    edges := closes ++ mentionEdges p self selfState ++ src.trackerEdges p self selfState
    activities := itemActivities item
    reviewThreads := [] }

/-- `normalize`. A record whose payload is not of its kind, which no fetch
makes, normalizes to nothing. -/
def normalize (raw : RawRecord GitHub.Payload) : Option NormalizedBundle :=
  match raw.entityKind, raw.payload with
  | .activity, _ =>
    (src.toActivity raw).map fun a =>
      { item := none, labels := [], edges := [], activities := [a], reviewThreads := [] }
  | .changeRequest, .node p => some (src.normalizePullRequest raw.externalId p)
  | .issue, .node p => some (src.normalizeIssue raw.externalId p)
  | _, _ => none

/-- The records of GitHub, and what they normalize to. -/
def reader : Reader GitHub.Payload Node where
  sourceId := src.descriptor.sourceId
  node? := Payload.node?
  nodeId := Node.id
  toActivity := src.toActivity
  bundle
    | .changeRequest => src.normalizePullRequest
    | .issue => src.normalizeIssue
  item_bundle kind _ _ := by cases kind <;> exact ⟨_, rfl, rfl⟩

theorem normalize_eq : src.normalize = src.reader.normalize := by
  funext r
  unfold normalize Reader.normalize Reader.item?
  cases r.entityKind <;> cases r.payload <;> simp [reader, Payload.node?] <;> rfl

end GitHubSource

end SymphonyBoard
