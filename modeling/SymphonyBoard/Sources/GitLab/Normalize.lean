import SymphonyBoard.Model.Activity
import SymphonyBoard.Shared.Time
import SymphonyBoard.Sources.Adapter
/-!
# GitLab payloads and their normalization

`src/sources/gitlab.ts`, the pure half. An issue or merge request payload
is the provider's node with what the fetch attached to it; the payload of
an activity record is the fetch's own wrapper around a commit or a project
event.

How an activity payload becomes an activity is a parameter of the source
(`toActivity`): everything below holds whatever it does.
-/

namespace SymphonyBoard

namespace GitLab

/-! ## Payloads -/

/-- A cross-reference resolved to an item of the sweep. -/
structure ResolvedRef where
  externalId : String
  state : Option String
deriving DecidableEq

/-- A merge request that an issue is linked to. -/
structure RelatedMergeRequest where
  id : String
  iid : String
  state : Option String
deriving DecidableEq

/-- A note of an issue. -/
structure Note where
  system : Bool
  body : Option String
deriving DecidableEq

/-- Where in a diff a discussion is. -/
structure NotePosition where
  newPath : Option String
  oldPath : Option String
  newLine : Option Nat
  oldLine : Option Nat
  startNewLine : Option Nat
  startOldLine : Option Nat
deriving DecidableEq

/-- A note of a discussion. -/
structure DiscussionNote where
  id : Option String
  author : Option String
  avatarUrl : Option String
  body : Option String
  webUrl : Option String
  createdAt : Option String
  updatedAt : Option String
  resolvable : Bool
  resolved : Bool
  resolvedBy : Option String
  position : Option NotePosition
deriving DecidableEq

/-- A discussion of a merge request. -/
structure Discussion where
  id : Option String
  notes : List DiscussionNote
deriving DecidableEq

/-- A label as the listing gives it. -/
structure LabelNode where
  title : String
  color : Option String
deriving DecidableEq

/-- An issue or a merge request. The last six fields are the ones the
fetch attaches; the description is left out. -/
structure Node where
  id : String
  iid : String
  title : Option String
  webUrl : Option String
  createdAt : Option String
  updatedAt : String
  closedAt : Option String
  mergedAt : Option String
  state : Option String
  author : Option String
  labels : List LabelNode
  userNotesCount : Option Nat
  upvotes : Option Nat
  draft : Bool
  approved : Bool
  approvalsRequired : Option Nat
  resolvableDiscussionsCount : Option Nat
  resolvedDiscussionsCount : Option Nat
  headPipelineStatus : Option String
  detailedMergeStatus : Option String
  approvedBy : List String
  projectPath : Option String
  relatedMergeRequests : List RelatedMergeRequest
  notes : List Note
  discussions : List Discussion
  mentions : List ResolvedRef
  relates : List ResolvedRef
deriving DecidableEq

/-- A commit of the activity feed. -/
structure Commit where
  id : String
  committedDate : Option String
  createdAt : Option String
  authoredDate : Option String
deriving DecidableEq

/-- An event of the activity feed. -/
structure Event where
  id : String
  createdAt : Option String
deriving DecidableEq

/-- What a record holds: a listed node, or a row of the activity feed. -/
inductive Payload
  | node (node : Node)
  | commit (project : String) (commit : Commit)
  | projectEvent (project : String) (event : Event)
deriving DecidableEq

/-- The node of an item's payload. -/
def Payload.node? : Payload → Option Node
  | .node p => some p
  | _ => none

/-! ## System notes -/

/-- What a listing is of. -/
inductive RefKind
  | issue
  | changeRequest
deriving DecidableEq

/-- A parsed reference; no project path means the note's own project. -/
structure NoteRef where
  projectPath : Option String
  kind : RefKind
  iid : String
deriving DecidableEq

/-- `<path>#N` or `<path>!N`, at the end of a text. -/
def parseRefToken (token : List Char) : Option NoteRef :=
  let token := trimChars token
  let iid := (token.reverse.takeWhile (·.isDigit)).reverse
  let front := token.take (token.length - iid.length)
  match front.getLast? with
  | none => none
  | some c =>
    let path := front.dropLast
    let ref : RefKind → NoteRef := fun kind =>
      { projectPath := nonEmpty (some (String.ofList path)), kind, iid := String.ofList iid }
    if iid = [] ∨ path.any isLineTerminator then none
    else if c = '!' then some (ref .changeRequest)
    else if c = '#' then some (ref .issue)
    else none

/-- `(.+)` up to the end of the text. -/
def restOfLine (cs : List Char) : Option (List Char) :=
  if cs = [] ∨ cs.any isLineTerminator then none else some cs

/-- `mentioned in issue <ref>` or `mentioned in merge request <ref>`. -/
def parseMention (body : String) : Option NoteRef :=
  let body := trimChars body.toList
  let token := (stripPrefix? "mentioned in issue ".toList body).or
    (stripPrefix? "mentioned in merge request ".toList body)
  (token.bind restOfLine).bind parseRefToken

/-- `marked as related to <ref>`. -/
def parseRelate (body : String) : Option NoteRef :=
  ((stripPrefix? "marked as related to ".toList (trimChars body.toList)).bind restOfLine).bind
    parseRefToken

/-! ## Enumerations -/

/-- `mapState` -/
def mapState (s : Option String) : ItemState :=
  let v := (s.getD "").toLower
  if v = "opened" then .opened else if v = "merged" then .merged else .closed

/-- `mapReview`: approved, or still to be reviewed. -/
def mapReview (p : Node) : Option ReviewState :=
  if p.approved then some .approved
  else if 0 < p.approvalsRequired.getD 0 then some .reviewRequired
  else none

/-- `mapCi`: the state of the head pipeline. -/
def mapCi (status : Option String) : CiState :=
  let s := (status.getD "").toUpper
  if s = "SUCCESS" then .passing
  else if s = "FAILED" then .failing
  else if s ∈ ["RUNNING", "PENDING", "CREATED", "PREPARING", "SCHEDULED", "WAITING_FOR_RESOURCE",
      "WAITING_FOR_CALLBACK"] then .pending
  else .none

/-- `mapMerge`: whether it can be merged. -/
def mapMerge (detailed : Option String) : MergeState :=
  let s := (detailed.getD "").toUpper
  if s = "MERGEABLE" ∨ s = "NOT_OPEN" then .mergeable
  else if s = "CONFLICT" ∨ s = "NEED_REBASE" then .conflicting
  else if s ∈ ["", "UNCHECKED", "CHECKING", "PREPARING", "APPROVALS_SYNCING"] then .unknown
  else .blocked

/-- Open and total review threads, unknown when the field is absent. -/
def reviewThreadCounts (p : Node) : Option Nat × Option Nat :=
  match p.resolvableDiscussionsCount with
  | none => (none, none)
  | some resolvable => (some (resolvable - p.resolvedDiscussionsCount.getD 0), some resolvable)

/-- `Number(iid)`, for the decimal spelling the provider uses. -/
def iidNumber (iid : String) : Option Nat :=
  let cs := iid.toList
  if cs ≠ [] ∧ cs.all (·.isDigit) then
    some (cs.foldl (fun n c => n * 10 + (c.toNat - 48)) 0)
  else none

end GitLab

open GitLab

/-- A configured GitLab source: its projects, whether it has a REST client,
and how its activity payloads are read. -/
structure GitLabSource where
  descriptor : SourceDescriptor
  projects : List String
  hasRest : Bool
  toActivity : RawRecord GitLab.Payload → Option CanonicalActivity

namespace GitLabSource

variable (src : GitLabSource)

/-! ## Items -/

/-- `commonItem`, with the fields only a merge request has still null. -/
def commonItem (p : Node) (kind : ItemKind) : CanonicalItem :=
  { sourceId := src.descriptor.sourceId
    externalId := p.id
    kind
    projectPath := p.projectPath
    iid := iidNumber p.iid
    url := p.webUrl.getD ""
    title := p.title
    state := mapState p.state
    stateRaw := p.state
    isDraft := none
    author := p.author
    createdAt := p.createdAt
    updatedAt := some p.updatedAt
    closedAt := p.closedAt
    mergedAt := none
    reviewState := none
    ciState := none
    mergeState := none
    openReviewThreads := none
    totalReviewThreads := none
    commentTotal := p.userNotesCount
    demand := p.userNotesCount.getD 0 + p.upvotes.getD 0 }

/-- The labels of a node. -/
def labels (p : Node) : List CanonicalLabel := p.labels.map fun l => toLabel l.title l.color

/-- `mentions` edges, from the item that mentions to this one. -/
def mentionEdges (p : Node) (self : ItemEndpoint) (selfState : ItemState)
    (skipFrom : List String) : List CanonicalEdge :=
  p.mentions.filterMap fun m =>
    if m.externalId = "" ∨ m.externalId = self.externalId ∨ m.externalId ∈ skipFrom then none
    else some
      { type := .mentions, fromEnd := ⟨self.sourceId, m.externalId⟩, toEnd := self,
        fromState := some (mapState m.state), toState := some selfState }

/-- `relates` edges, their ends put in order. -/
def relateEdges (p : Node) (self : ItemEndpoint) (selfState : ItemState) : List CanonicalEdge :=
  p.relates.filterMap fun r =>
    if r.externalId = "" ∨ r.externalId = self.externalId then none
    else
      let other : ItemEndpoint := ⟨self.sourceId, r.externalId⟩
      let otherState := mapState r.state
      if self.externalId < r.externalId then some
        { type := .relates, fromEnd := self, toEnd := other, fromState := some selfState,
          toState := some otherState }
      else some
        { type := .relates, fromEnd := other, toEnd := self, fromState := some otherState,
          toState := some selfState }

/-! ## Merge request activities and review threads -/

/-- One `review` activity an approver, dated by the merge or the last
update. -/
def approvalActivities (p : Node) (item : CanonicalItem) : List CanonicalActivity :=
  let sourceId := src.descriptor.sourceId
  match nonEmpty (some (p.mergedAt.getD p.updatedAt)) with
  | none => []
  | some occurredAt =>
    (p.approvedBy.filter (· ≠ "")).map fun username =>
      { sourceId
        externalId := stableActivityId [some "review", some p.id, some "approved", some username]
        kind := "review"
        action := "approved"
        projectPath := item.projectPath
        targetKind := some "change_request"
        target := some ⟨sourceId, p.id⟩
        targetIid := item.iid
        title := item.title
        url := some item.url
        actor := some username
        occurredAt }

/-- A note's avatar address, a host-relative one made absolute. -/
def resolveAvatarUrl (value : Option String) : Option String :=
  (cleanText value).bind fun raw =>
    if raw.startsWith "http://" || raw.startsWith "https://" then some raw
    else if raw.startsWith "/" then some ("https://" ++ src.descriptor.host ++ raw)
    else none

/-- A note's own address, or its anchor on the item's. -/
def gitLabNoteUrl (webUrl : Option String) (itemUrl : String) (noteId : String) :
    Option String :=
  match nonEmpty webUrl, nonEmpty (some itemUrl) with
  | some url, _ => some url
  | none, some url => some (url ++ "#note_" ++ noteId)
  | none, none => some itemUrl

/-- Diff lines are counted from 1. -/
def lineNumber (value : Option Nat) : Option Nat := value.filter (0 < ·)

/-- The notes of a discussion that have an id. -/
def threadComments (d : Discussion) (item : CanonicalItem) : List CanonicalReviewThreadComment :=
  d.notes.filterMap fun n =>
    n.id.map fun id =>
      { id
        author := n.author
        avatarUrl := src.resolveAvatarUrl n.avatarUrl
        body := cleanText n.body
        url := gitLabNoteUrl (cleanText n.webUrl) item.url id
        createdAt := cleanText n.createdAt
        updatedAt := cleanText n.updatedAt }

/-- The latest comment instant, compared as instants. -/
def lastCommentAt (comments : List CanonicalReviewThreadComment) : Option String :=
  (comments.foldl (fun best c =>
    match c.updatedAt.or c.createdAt with
    | none => best
    | some instant =>
      match dateParse instant with
      | none => best
      | some ms =>
        match best with
        | none => some (ms, instant)
        | some (lastMs, _) => if lastMs < ms then some (ms, instant) else best)
    (none : Option (ℤ × String))).map (·.2)

/-- The discussions that can be resolved. -/
def reviewThreads (p : Node) (item : CanonicalItem) : List CanonicalReviewThread :=
  p.discussions.filterMap fun d =>
    let resolvable := d.notes.filter (·.resolvable)
    match nonEmpty d.id with
    | none => none
    | some id =>
      if resolvable = [] then none
      else
        let position := (resolvable.findSome? (·.position)).or (d.notes.findSome? (·.position))
        let comments := src.threadComments d item
        some
          { sourceId := src.descriptor.sourceId
            externalId := id
            projectPath := item.projectPath
            target := ⟨src.descriptor.sourceId, p.id⟩
            targetIid := item.iid
            title := item.title
            url := (comments.head?.bind (·.url)).or (some item.url)
            isResolved := resolvable.all (·.resolved)
            isOutdated := none
            resolvedBy := resolvable.findSome? fun n => nonEmpty n.resolvedBy
            path := (cleanText (position.bind (·.newPath))).or
              (cleanText (position.bind (·.oldPath)))
            line := (lineNumber (position.bind (·.newLine))).or
              (lineNumber (position.bind (·.oldLine)))
            startLine := (lineNumber (position.bind (·.startNewLine))).or
              (lineNumber (position.bind (·.startOldLine)))
            commentsTotal := comments.length
            comments
            lastCommentAt := lastCommentAt comments }

/-! ## Normalization -/

/-- The item of a merge request. -/
def mergeRequestItem (p : Node) : CanonicalItem :=
  let threads := reviewThreadCounts p
  { src.commonItem p .changeRequest with
    isDraft := some p.draft
    mergedAt := p.mergedAt
    reviewState := mapReview p
    ciState := some (mapCi p.headPipelineStatus)
    mergeState := if mapState p.state = .opened then some (mapMerge p.detailedMergeStatus) else none
    openReviewThreads := threads.1
    totalReviewThreads := threads.2 }

/-- A merge request reports only who mentions it: it has no link to the
issues it closes. -/
def normalizeMergeRequest (externalId : String) (p : Node) : NormalizedBundle :=
  let self : ItemEndpoint := ⟨src.descriptor.sourceId, externalId⟩
  let item := src.mergeRequestItem p
  { item := some item
    labels := labels p
    edges := mentionEdges p self (mapState p.state) []
    activities := itemActivities item ++ src.approvalActivities p item
    reviewThreads := src.reviewThreads p item }

/-- An issue reports the merge requests that close it, what it relates to,
and who mentions it, a closing merge request apart. -/
def normalizeIssue (externalId : String) (p : Node) : NormalizedBundle :=
  let self : ItemEndpoint := ⟨src.descriptor.sourceId, externalId⟩
  let selfState := mapState p.state
  let closes := p.relatedMergeRequests.map fun mr =>
    { type := .closes, fromEnd := ⟨self.sourceId, mr.id⟩, toEnd := self,
      fromState := some (mapState mr.state), toState := some selfState }
  let item := src.commonItem p .issue
  { item := some item
    labels := labels p
    edges := closes ++ relateEdges p self selfState ++
      mentionEdges p self selfState (p.relatedMergeRequests.map (·.id))
    activities := itemActivities item
    reviewThreads := [] }

/-- `normalize`. A record whose payload is not of its kind, which no fetch
makes, normalizes to nothing. -/
def normalize (raw : RawRecord GitLab.Payload) : Option NormalizedBundle :=
  match raw.entityKind, raw.payload with
  | .activity, _ =>
    (src.toActivity raw).map fun a =>
      { item := none, labels := [], edges := [], activities := [a], reviewThreads := [] }
  | .changeRequest, .node p => some (src.normalizeMergeRequest raw.externalId p)
  | .issue, .node p => some (src.normalizeIssue raw.externalId p)
  | _, _ => none

/-- The records of GitLab, and what they normalize to. -/
def reader : Reader GitLab.Payload Node where
  sourceId := src.descriptor.sourceId
  node? := Payload.node?
  nodeId := Node.id
  toActivity := src.toActivity
  bundle
    | .changeRequest => src.normalizeMergeRequest
    | .issue => src.normalizeIssue
  item_bundle kind _ _ := by cases kind <;> exact ⟨_, rfl, rfl⟩

theorem normalize_eq : src.normalize = src.reader.normalize := by
  funext r
  unfold normalize Reader.normalize Reader.item?
  cases r.entityKind <;> cases r.payload <;> simp [reader, Payload.node?] <;> rfl

end GitLabSource

end SymphonyBoard
