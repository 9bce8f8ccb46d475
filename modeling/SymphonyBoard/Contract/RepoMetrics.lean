import SymphonyBoard.Common.PlainCounts
import SymphonyBoard.Contract.Buckets
import Mathlib.Data.List.Infix
/-!
# Repository metrics

`computeRepoMetricStats` and `buildRepoMetrics` of `contract/build.ts`: what
a range counts of a repository's items, activities and edges, once for the
range and once for each bucket of it. The counters under free texts are
those of plain objects: under an inherited name there is no number. A counter weighs the rows stamped in
the range (`itemCounter_compute`, `activityCounter_compute`), so over a
tiling the buckets' counters sum to the range's (`sumsTo_of_tiles`). An edge
is counted in every bucket that one of its ends was updated in.
-/

namespace SymphonyBoard

/-! ## Counts of a range -/

/-- What is counted in a range. Where the keys are of an enumeration a plain
object counts as a map does. -/
structure RepoMetricStats where
  itemsActive : ℕ
  itemsOpened : ℕ
  itemsClosed : ℕ
  changeRequestsOpened : ℕ
  changeRequestsClosed : ℕ
  changeRequestsMerged : ℕ
  activities : ℕ
  activityScore : ℕ
  commits : ℕ
  pushes : ℕ
  comments : ℕ
  reviews : ℕ
  approvals : ℕ
  unresolvedReviewThreads : ℕ
  edgeDeclared : ℕ
  edgeFulfilled : ℕ
  edgeBroken : ℕ
  byItemState : OrdMap ItemState ℕ
  byItemKind : OrdMap ItemKind ℕ
  byActivityKind : PlainCounts
  byActivityAction : PlainCounts
  byEdgeType : OrdMap EdgeType ℕ
  /-- Under `other` where there is none. -/
  byEdgeLifecycle : OrdMap (Option EdgeLifecycle) ℕ
  byReviewState : OrdMap ReviewState ℕ
  byCiState : OrdMap CiState ℕ
  byMergeState : OrdMap MergeState ℕ
  byLabelScope : PlainCounts

/-- No counts. -/
def emptyRepoMetricStats : RepoMetricStats :=
  { itemsActive := 0, itemsOpened := 0, itemsClosed := 0, changeRequestsOpened := 0
    changeRequestsClosed := 0, changeRequestsMerged := 0, activities := 0, activityScore := 0
    commits := 0, pushes := 0, comments := 0, reviews := 0, approvals := 0
    unresolvedReviewThreads := 0, edgeDeclared := 0, edgeFulfilled := 0, edgeBroken := 0
    byItemState := .empty, byItemKind := .empty, byActivityKind := .empty
    byActivityAction := .empty, byEdgeType := .empty, byEdgeLifecycle := .empty
    byReviewState := .empty, byCiState := .empty, byMergeState := .empty, byLabelScope := .empty }

/-- `counts[key] += 1` for a key that may be absent. -/
def incSome {K : Type} [DecidableEq K] (counts : OrdMap K ℕ) : Option K → OrdMap K ℕ
  | none => counts
  | some key => counts.addAt key 1

/-- `text.includes(part)` -/
def includesText (text part : String) : Bool := decide (part.toList <:+: text.toList)

/-- A commit, by its kind or its action. -/
def isCommitActivity (activity : ActivityDTO) : Bool :=
  activity.kind = "commit" || activity.action = "committed"

/-- A push, by its kind or its action. -/
def isPushActivity (activity : ActivityDTO) : Bool :=
  activity.kind = "push" || activity.action = "pushed" || activity.action = "force_pushed"

/-- A comment, by its kind or its action. -/
def isCommentActivity (activity : ActivityDTO) : Bool :=
  activity.kind = "comment" || includesText activity.action "comment"

/-- A review, by its kind or its action. -/
def isReviewedActivity (activity : ActivityDTO) : Bool :=
  activity.kind = "review" || includesText activity.action "review"

/-- An approval, by its action. -/
def isApprovalActivity (activity : ActivityDTO) : Bool :=
  activity.action = "approved" || includesText activity.action "approval"

section Counts

variable (range : MsRange)

/-- A timestamp in the range. -/
def valueInRange (value : Option String) : Bool :=
  (timestampMs value).any fun ms => range.fromMs ≤ ms ∧ ms ≤ range.toMs

/-- An item that was updated in the range. -/
def countActive (item : ItemDTO) (stats : RepoMetricStats) : RepoMetricStats :=
  if valueInRange range item.updatedAt then
    { stats with
      itemsActive := stats.itemsActive + 1
      byItemState := stats.byItemState.addAt item.state 1
      byItemKind := stats.byItemKind.addAt item.kind 1
      byReviewState := incSome stats.byReviewState item.reviewState
      byCiState := incSome stats.byCiState item.ciState
      byMergeState := incSome stats.byMergeState item.mergeState
      unresolvedReviewThreads :=
        if item.totalReviewThreads = none then stats.unresolvedReviewThreads
        else stats.unresolvedReviewThreads + item.openReviewThreads.getD 0
      byLabelScope := item.labels.foldl (fun m l => m.inc (l.scope.getD "unscoped"))
        stats.byLabelScope }
  else stats

/-- An item that was opened in the range. -/
def countOpened (item : ItemDTO) (stats : RepoMetricStats) : RepoMetricStats :=
  if valueInRange range item.createdAt then
    { stats with
      itemsOpened := stats.itemsOpened + 1
      changeRequestsOpened :=
        if item.kind = .changeRequest then stats.changeRequestsOpened + 1
        else stats.changeRequestsOpened }
  else stats

/-- An item that was closed in the range. -/
def countClosed (item : ItemDTO) (stats : RepoMetricStats) : RepoMetricStats :=
  if valueInRange range item.closedAt then
    { stats with
      itemsClosed := stats.itemsClosed + 1
      changeRequestsClosed :=
        if item.kind = .changeRequest ∧ item.state = .closed then stats.changeRequestsClosed + 1
        else stats.changeRequestsClosed }
  else stats

/-- A change request that was merged in the range. -/
def countMerged (item : ItemDTO) (stats : RepoMetricStats) : RepoMetricStats :=
  if item.kind = .changeRequest ∧ valueInRange range item.mergedAt = true then
    { stats with changeRequestsMerged := stats.changeRequestsMerged + 1 }
  else stats

/-- All four counts of an item. -/
def countItem (stats : RepoMetricStats) (item : ItemDTO) : RepoMetricStats :=
  countMerged range item (countClosed range item (countOpened range item
    (countActive range item stats)))

/-- An activity of the range, under everything it counts as. -/
def countRepoActivity (stats : RepoMetricStats) (activity : ActivityDTO) : RepoMetricStats :=
  if valueInRange range (some activity.occurredAt) then
    { stats with
      activities := stats.activities + 1
      byActivityKind := stats.byActivityKind.inc activity.kind
      byActivityAction := stats.byActivityAction.inc activity.action
      commits := if isCommitActivity activity then stats.commits + 1 else stats.commits
      pushes := if isPushActivity activity then stats.pushes + 1 else stats.pushes
      comments := if isCommentActivity activity then stats.comments + 1 else stats.comments
      reviews := if isReviewedActivity activity then stats.reviews + 1 else stats.reviews
      approvals := if isApprovalActivity activity then stats.approvals + 1 else stats.approvals }
  else stats

/-- The items by their id. -/
abbrev ItemIndex := OrdMap Ref ItemDTO

variable (byId : ItemIndex)

/-- The items an edge joins, each once. -/
def edgeEndpointItems (edge : EdgeDTO) : List ItemDTO :=
  let source := byId.get? edge.fromRef
  let target := (byId.get? edge.toRef).filter fun item => some item.id ≠ source.map (·.id)
  source.toList ++ target.toList

/-- One of an edge's items was updated in the range, or neither is known. -/
def edgeTouchesRange (edge : EdgeDTO) : Bool :=
  let endpoints := edgeEndpointItems byId edge
  endpoints.isEmpty || endpoints.any fun item => valueInRange range item.updatedAt

/-- An edge, by its type and its lifecycle. -/
def countEdge (stats : RepoMetricStats) (edge : EdgeDTO) : RepoMetricStats :=
  if edgeTouchesRange range byId edge then
    let stats := { stats with
      byEdgeType := stats.byEdgeType.addAt edge.type 1
      byEdgeLifecycle := stats.byEdgeLifecycle.addAt edge.lifecycle 1 }
    match edge.lifecycle with
    | some .declared => { stats with edgeDeclared := stats.edgeDeclared + 1 }
    | some .fulfilled => { stats with edgeFulfilled := stats.edgeFulfilled + 1 }
    | some .broken => { stats with edgeBroken := stats.edgeBroken + 1 }
    | none => stats
  else stats

end Counts

/-- `repoActivityScore` -/
def repoActivityScore (stats : RepoMetricStats) : ℕ :=
  let issuesOpened := stats.itemsOpened - stats.changeRequestsOpened
  stats.commits + issuesOpened + stats.changeRequestsOpened + stats.changeRequestsMerged +
    stats.comments + stats.reviews + stats.approvals

/-- The statistics of a repository's rows. -/
def computeRepoMetricStats (items : List ItemDTO) (edges : List EdgeDTO)
    (activities : List ActivityDTO) (byId : ItemIndex) (range : MsRange) : RepoMetricStats :=
  let stats := items.foldl (countItem range) emptyRepoMetricStats
  let stats := activities.foldl (countRepoActivity range) stats
  let stats := edges.foldl (countEdge range byId) stats
  { stats with activityScore := repoActivityScore stats }

/-! ## The counters -/

/-- The instants an item is counted by. -/
inductive ItemInstant
  | updated
  | created
  | closed
  | merged
deriving DecidableEq

/-- The timestamp of an item. -/
def ItemInstant.of : ItemInstant → ItemDTO → Option String
  | .updated, item => item.updatedAt
  | .created, item => item.createdAt
  | .closed, item => item.closedAt
  | .merged, item => item.mergedAt

/-- What is counted of the items: by what instant, and how much. -/
inductive ItemCounter
  | active
  | state (s : ItemState)
  | kind (k : ItemKind)
  | reviewState (s : ReviewState)
  | ciState (s : CiState)
  | mergeState (s : MergeState)
  | unresolvedThreads
  | labelScope (scope : PlainKey)
  | opened
  | changeRequestsOpened
  | closed
  | changeRequestsClosed
  | changeRequestsMerged

namespace ItemCounter

/-- The count in the statistics. -/
def of : ItemCounter → RepoMetricStats → ℕ
  | .active, s => s.itemsActive
  | .state st, s => s.byItemState.count st
  | .kind k, s => s.byItemKind.count k
  | .reviewState st, s => s.byReviewState.count st
  | .ciState st, s => s.byCiState.count st
  | .mergeState st, s => s.byMergeState.count st
  | .unresolvedThreads, s => s.unresolvedReviewThreads
  | .labelScope scope, s => s.byLabelScope.count scope
  | .opened, s => s.itemsOpened
  | .changeRequestsOpened, s => s.changeRequestsOpened
  | .closed, s => s.itemsClosed
  | .changeRequestsClosed, s => s.changeRequestsClosed
  | .changeRequestsMerged, s => s.changeRequestsMerged

/-- The timestamp that has to be in the range. -/
def instant : ItemCounter → ItemInstant
  | .opened | .changeRequestsOpened => .created
  | .closed | .changeRequestsClosed => .closed
  | .changeRequestsMerged => .merged
  | _ => .updated

/-- What an item adds to the count. -/
def weight (c : ItemCounter) (item : ItemDTO) : ℕ :=
  match c with
  | .active | .opened | .closed => 1
  | .state st => if item.state = st then 1 else 0
  | .kind k => if item.kind = k then 1 else 0
  | .reviewState st => if item.reviewState = some st then 1 else 0
  | .ciState st => if item.ciState = some st then 1 else 0
  | .mergeState st => if item.mergeState = some st then 1 else 0
  | .unresolvedThreads =>
    if item.totalReviewThreads = none then 0 else item.openReviewThreads.getD 0
  | .labelScope scope => (item.labels.filter fun l => l.scope.getD "unscoped" = scope.val).length
  | .changeRequestsOpened | .changeRequestsMerged => if item.kind = .changeRequest then 1 else 0
  | .changeRequestsClosed => if item.kind = .changeRequest ∧ item.state = .closed then 1 else 0

end ItemCounter

/-- What is counted of the activities, by the instant they occurred. -/
inductive ActivityCounter
  | activities
  | kind (k : PlainKey)
  | action (a : PlainKey)
  | commits
  | pushes
  | comments
  | reviews
  | approvals

namespace ActivityCounter

/-- The count in the statistics. -/
def of : ActivityCounter → RepoMetricStats → ℕ
  | .activities, s => s.activities
  | .kind k, s => s.byActivityKind.count k
  | .action a, s => s.byActivityAction.count a
  | .commits, s => s.commits
  | .pushes, s => s.pushes
  | .comments, s => s.comments
  | .reviews, s => s.reviews
  | .approvals, s => s.approvals

/-- What an activity adds to the count. -/
def weight (c : ActivityCounter) (activity : ActivityDTO) : ℕ :=
  match c with
  | .activities => 1
  | .kind k => if activity.kind = k.val then 1 else 0
  | .action a => if activity.action = a.val then 1 else 0
  | .commits => if isCommitActivity activity then 1 else 0
  | .pushes => if isPushActivity activity then 1 else 0
  | .comments => if isCommentActivity activity then 1 else 0
  | .reviews => if isReviewedActivity activity then 1 else 0
  | .approvals => if isApprovalActivity activity then 1 else 0

end ActivityCounter

/-- What is counted of the edges that touch the range. -/
inductive EdgeCounter
  | type (t : EdgeType)
  | lifecycle (l : Option EdgeLifecycle)
  | declared
  | fulfilled
  | broken

namespace EdgeCounter

/-- The count in the statistics. -/
def of : EdgeCounter → RepoMetricStats → ℕ
  | .type t, s => s.byEdgeType.count t
  | .lifecycle l, s => s.byEdgeLifecycle.count l
  | .declared, s => s.edgeDeclared
  | .fulfilled, s => s.edgeFulfilled
  | .broken, s => s.edgeBroken

/-- What an edge adds to the count. -/
def weight (c : EdgeCounter) (edge : EdgeDTO) : ℕ :=
  match c with
  | .type t => if edge.type = t then 1 else 0
  | .lifecycle l => if edge.lifecycle = l then 1 else 0
  | .declared => if edge.lifecycle = some .declared then 1 else 0
  | .fulfilled => if edge.lifecycle = some .fulfilled then 1 else 0
  | .broken => if edge.lifecycle = some .broken then 1 else 0

end EdgeCounter

section Steps

variable {range : MsRange} {byId : ItemIndex} {stats : RepoMetricStats}

theorem count_incSome {K : Type} [DecidableEq K] (counts : OrdMap K ℕ) (o : Option K) (k : K) :
    (incSome counts o).count k = counts.count k + if o = some k then 1 else 0 := by
  cases o with
  | none => simp [incSome]
  | some key => simp [incSome, OrdMap.count_addAt]

/-- What an item adds to a counter by one of its instants. -/
def addedBy (range : MsRange) (i : ItemInstant) (c : ItemCounter) (item : ItemDTO) : ℕ :=
  if c.instant = i ∧ valueInRange range (i.of item) = true then c.weight item else 0

theorem of_countMerged (c : ItemCounter) (item : ItemDTO) :
    c.of (countMerged range item stats) = c.of stats + addedBy range .merged c item := by
  unfold countMerged addedBy ItemInstant.of
  cases hin : valueInRange range item.mergedAt with
  | false => simp
  | true =>
    by_cases hkind : item.kind = .changeRequest
    · cases c <;> simp [hkind, ItemCounter.of, ItemCounter.weight, ItemCounter.instant]
    · cases c <;> simp [hkind, ItemCounter.weight, ItemCounter.instant]

theorem of_countClosed (c : ItemCounter) (item : ItemDTO) :
    c.of (countClosed range item stats) = c.of stats + addedBy range .closed c item := by
  unfold countClosed addedBy ItemInstant.of
  cases hin : valueInRange range item.closedAt with
  | false => simp
  | true =>
    by_cases hkind : item.kind = .changeRequest ∧ item.state = .closed
    · cases c <;> simp [hkind, ItemCounter.of, ItemCounter.weight, ItemCounter.instant]
    · cases c <;> simp [hkind, ItemCounter.of, ItemCounter.weight, ItemCounter.instant]

theorem of_countOpened (c : ItemCounter) (item : ItemDTO) :
    c.of (countOpened range item stats) = c.of stats + addedBy range .created c item := by
  unfold countOpened addedBy ItemInstant.of
  cases hin : valueInRange range item.createdAt with
  | false => simp
  | true =>
    by_cases hkind : item.kind = .changeRequest
    · cases c <;> simp [hkind, ItemCounter.of, ItemCounter.weight, ItemCounter.instant]
    · cases c <;> simp [hkind, ItemCounter.of, ItemCounter.weight, ItemCounter.instant]

theorem of_countActive (c : ItemCounter) (item : ItemDTO) :
    c.of (countActive range item stats) = c.of stats + addedBy range .updated c item := by
  unfold countActive addedBy ItemInstant.of
  cases hin : valueInRange range item.updatedAt with
  | false => simp
  | true =>
    cases c with
    | unresolvedThreads =>
      by_cases hthreads : item.totalReviewThreads = none
      · simp [hthreads, ItemCounter.of, ItemCounter.weight, ItemCounter.instant]
      · simp [hthreads, ItemCounter.of, ItemCounter.weight, ItemCounter.instant]
    | labelScope scope =>
      simp [ItemCounter.of, ItemCounter.weight, ItemCounter.instant,
        PlainCounts.count_foldl_inc fun l : CanonicalLabel => l.scope.getD "unscoped"]
    | _ =>
      simp [ItemCounter.of, ItemCounter.weight, ItemCounter.instant, OrdMap.count_addAt,
        count_incSome]

/-- An item adds to a counter what it weighs, if it is stamped in the
range. -/
theorem of_countItem (c : ItemCounter) (item : ItemDTO) :
    c.of (countItem range stats item) =
      c.of stats + if valueInRange range (c.instant.of item) then c.weight item else 0 := by
  unfold countItem
  rw [of_countMerged, of_countClosed, of_countOpened, of_countActive]
  unfold addedBy
  cases c.instant <;> simp

/-- An activity adds to a counter what it weighs, if it occurred in the
range. -/
theorem of_countRepoActivity (c : ActivityCounter) (activity : ActivityDTO) :
    c.of (countRepoActivity range stats activity) = c.of stats +
      if valueInRange range (some activity.occurredAt) then c.weight activity else 0 := by
  unfold countRepoActivity
  cases hin : valueInRange range (some activity.occurredAt) with
  | false => simp
  | true =>
    cases c with
    | activities => simp [ActivityCounter.of, ActivityCounter.weight]
    | kind k => simp [ActivityCounter.of, ActivityCounter.weight, PlainCounts.count_inc]
    | action a => simp [ActivityCounter.of, ActivityCounter.weight, PlainCounts.count_inc]
    | commits => cases h : isCommitActivity activity <;> simp [h, ActivityCounter.of, ActivityCounter.weight]
    | pushes => cases h : isPushActivity activity <;> simp [h, ActivityCounter.of, ActivityCounter.weight]
    | comments => cases h : isCommentActivity activity <;> simp [h, ActivityCounter.of, ActivityCounter.weight]
    | reviews => cases h : isReviewedActivity activity <;> simp [h, ActivityCounter.of, ActivityCounter.weight]
    | approvals => cases h : isApprovalActivity activity <;> simp [h, ActivityCounter.of, ActivityCounter.weight]

/-- An edge adds to a counter what it weighs, if it touches the range. -/
theorem of_countEdge (c : EdgeCounter) (edge : EdgeDTO) :
    c.of (countEdge range byId stats edge) = c.of stats +
      if edgeTouchesRange range byId edge then c.weight edge else 0 := by
  unfold countEdge
  cases htouch : edgeTouchesRange range byId edge with
  | false => simp
  | true =>
    obtain ⟨type, fromRef, toRef, fromState, toState, lifecycle⟩ := edge
    rcases lifecycle with - | - | - | -
    · cases c <;> simp [EdgeCounter.of, EdgeCounter.weight, OrdMap.count_addAt]
    · cases c <;> simp [EdgeCounter.of, EdgeCounter.weight, OrdMap.count_addAt]
    · cases c <;> simp [EdgeCounter.of, EdgeCounter.weight, OrdMap.count_addAt]
    · cases c <;> simp [EdgeCounter.of, EdgeCounter.weight, OrdMap.count_addAt]

/-! What one kind of row adds, the counters of the others are left with. -/

theorem itemCounter_countRepoActivity (c : ItemCounter) (activity : ActivityDTO) :
    c.of (countRepoActivity range stats activity) = c.of stats := by
  unfold countRepoActivity
  split
  · cases c <;> rfl
  · rfl

theorem itemCounter_countEdge (c : ItemCounter) (edge : EdgeDTO) :
    c.of (countEdge range byId stats edge) = c.of stats := by
  unfold countEdge
  split
  · simp only
    split <;> cases c <;> rfl
  · rfl

/-- What items are not counted in. -/
def otherPart (s : RepoMetricStats) :=
  ((s.activities, s.commits, s.pushes, s.comments, s.reviews, s.approvals, s.byActivityKind,
    s.byActivityAction), s.edgeDeclared, s.edgeFulfilled, s.edgeBroken, s.byEdgeType,
    s.byEdgeLifecycle)

theorem otherPart_countItem (item : ItemDTO) :
    otherPart (countItem range stats item) = otherPart stats := by
  have hactive : ∀ s, otherPart (countActive range item s) = otherPart s := by
    intro s
    unfold countActive
    split <;> rfl
  have hopened : ∀ s, otherPart (countOpened range item s) = otherPart s := by
    intro s
    unfold countOpened
    split <;> rfl
  have hclosed : ∀ s, otherPart (countClosed range item s) = otherPart s := by
    intro s
    unfold countClosed
    split <;> rfl
  have hmerged : ∀ s, otherPart (countMerged range item s) = otherPart s := by
    intro s
    unfold countMerged
    split <;> rfl
  unfold countItem
  rw [hmerged, hclosed, hopened, hactive]

theorem activityCounter_countItem (c : ActivityCounter) (item : ItemDTO) :
    c.of (countItem range stats item) = c.of stats := by
  have h : otherPart (countItem range stats item) = otherPart stats := otherPart_countItem item
  simp only [otherPart, Prod.mk.injEq] at h
  cases c <;> simp [ActivityCounter.of, h]

theorem activityCounter_countEdge (c : ActivityCounter) (edge : EdgeDTO) :
    c.of (countEdge range byId stats edge) = c.of stats := by
  unfold countEdge
  split
  · simp only
    split <;> cases c <;> rfl
  · rfl

theorem edgeCounter_countItem (c : EdgeCounter) (item : ItemDTO) :
    c.of (countItem range stats item) = c.of stats := by
  have h : otherPart (countItem range stats item) = otherPart stats := otherPart_countItem item
  simp only [otherPart, Prod.mk.injEq] at h
  cases c <;> simp [EdgeCounter.of, h]

theorem edgeCounter_countRepoActivity (c : EdgeCounter) (activity : ActivityDTO) :
    c.of (countRepoActivity range stats activity) = c.of stats := by
  unfold countRepoActivity
  split
  · cases c <;> rfl
  · rfl

end Steps

/-! ## What is counted over all the rows -/

section Compute

variable {range : MsRange} {byId : ItemIndex} {items : List ItemDTO} {edges : List EdgeDTO}
variable {activities : List ActivityDTO}

theorem valueInRange_eq (range : MsRange) (value : Option String) :
    valueInRange range value = (timestampMs value).any fun ms => decide (InPiece ms range.piece) := by
  unfold valueInRange InPiece MsRange.piece
  congr 1
  funext ms
  exact decide_eq_decide.mpr (by simp only; omega)

/-- **An item counter weighs the items stamped in the range.** -/
theorem itemCounter_compute (c : ItemCounter) :
    c.of (computeRepoMetricStats items edges activities byId range) =
      weighIn (fun item => timestampMs (c.instant.of item)) c.weight items range.piece := by
  have hscore : ∀ (s : RepoMetricStats) n, c.of { s with activityScore := n } = c.of s := by
    intro s n
    cases c <;> rfl
  have hempty : c.of emptyRepoMetricStats = 0 := by cases c <;> rfl
  unfold computeRepoMetricStats
  simp only
  rw [hscore, of_foldl_same fun s e => itemCounter_countEdge c e,
    of_foldl_same fun s a => itemCounter_countRepoActivity c a,
    of_foldl fun s item => of_countItem c item, hempty, Nat.zero_add, weighIn_eq_sum]
  simp only [valueInRange_eq]

/-- **An activity counter weighs the activities that occurred in the
range.** -/
theorem activityCounter_compute (c : ActivityCounter) :
    c.of (computeRepoMetricStats items edges activities byId range) =
      weighIn (fun activity => timestampMs (some activity.occurredAt)) c.weight activities
        range.piece := by
  have hscore : ∀ (s : RepoMetricStats) n, c.of { s with activityScore := n } = c.of s := by
    intro s n
    cases c <;> rfl
  have hempty : c.of emptyRepoMetricStats = 0 := by cases c <;> rfl
  unfold computeRepoMetricStats
  simp only
  rw [hscore, of_foldl_same fun s e => activityCounter_countEdge c e,
    of_foldl fun s a => of_countRepoActivity c a,
    of_foldl_same fun s item => activityCounter_countItem c item, hempty, Nat.zero_add,
    weighIn_eq_sum]
  simp only [valueInRange_eq]

/-- An edge counter weighs the edges that touch the range. -/
theorem edgeCounter_compute (c : EdgeCounter) :
    c.of (computeRepoMetricStats items edges activities byId range) =
      (edges.map fun e => if edgeTouchesRange range byId e then c.weight e else 0).sum := by
  have hscore : ∀ (s : RepoMetricStats) n, c.of { s with activityScore := n } = c.of s := by
    intro s n
    cases c <;> rfl
  have hempty : c.of emptyRepoMetricStats = 0 := by cases c <;> rfl
  unfold computeRepoMetricStats
  simp only
  rw [hscore, of_foldl fun s e => of_countEdge c e,
    of_foldl_same fun s a => edgeCounter_countRepoActivity c a,
    of_foldl_same fun s item => edgeCounter_countItem c item, hempty, Nat.zero_add]

/-- Change requests opened are items opened. -/
theorem changeRequestsOpened_le :
    (computeRepoMetricStats items edges activities byId range).changeRequestsOpened ≤
      (computeRepoMetricStats items edges activities byId range).itemsOpened := by
  have hcount := @itemCounter_compute range byId items edges activities
  have hopened := hcount .opened
  have hrequests := hcount .changeRequestsOpened
  simp only [ItemCounter.of] at hopened hrequests
  rw [hopened, hrequests]
  unfold weighIn
  refine List.sum_le_sum fun item _ => ?_
  simp only [ItemCounter.weight]
  split
  · exact le_refl 1
  · exact Nat.zero_le 1

/-- The score is the sum of what it counts. -/
theorem activityScore_compute :
    let stats := computeRepoMetricStats items edges activities byId range
    stats.activityScore = stats.commits + stats.itemsOpened + stats.changeRequestsMerged +
      stats.comments + stats.reviews + stats.approvals := by
  intro stats
  have hle : stats.changeRequestsOpened ≤ stats.itemsOpened := changeRequestsOpened_le
  have hscore : stats.activityScore = stats.commits + (stats.itemsOpened - stats.changeRequestsOpened) +
      stats.changeRequestsOpened + stats.changeRequestsMerged + stats.comments + stats.reviews +
        stats.approvals := rfl
  omega

end Compute

/-! ## Buckets and their range -/

section Sums

variable {range : MsRange} {byId : ItemIndex} {items : List ItemDTO} {edges : List EdgeDTO}
variable {activities : List ActivityDTO} {buckets : List MsRange}

/-- What is counted of the items and the activities sums to the total, and
so does the score; what is counted of the edges does at least. -/
structure SumsTo (parts : List RepoMetricStats) (total : RepoMetricStats) : Prop where
  items : ∀ c : ItemCounter, (parts.map c.of).sum = c.of total
  activities : ∀ c : ActivityCounter, (parts.map c.of).sum = c.of total
  score : (parts.map (·.activityScore)).sum = total.activityScore
  edges : parts ≠ [] → ∀ c : EdgeCounter, c.of total ≤ (parts.map c.of).sum

/-- An edge that touches the range touches a bucket of it. -/
theorem exists_touched (htiles : Tiles range.fromMs (range.toMs + 1) (buckets.map MsRange.piece))
    (hne : buckets ≠ []) {e : EdgeDTO} (h : edgeTouchesRange range byId e = true) :
    ∃ b ∈ buckets, edgeTouchesRange b byId e = true := by
  unfold edgeTouchesRange at h ⊢
  simp only [Bool.or_eq_true] at h ⊢
  rcases h with hnone | hsome
  · obtain ⟨b, hb⟩ := List.exists_mem_of_ne_nil _ hne
    exact ⟨b, hb, Or.inl hnone⟩
  · obtain ⟨item, hitem, hin⟩ := List.any_eq_true.mp hsome
    rw [valueInRange_eq] at hin
    obtain ⟨ms, hms, hpiece⟩ := (Option.any_eq_true ..).mp hin
    have hone := htiles.countP_eq ms
    rw [if_pos (show InPiece ms (range.fromMs, range.toMs + 1) from of_decide_eq_true hpiece)] at hone
    obtain ⟨p, hp, hin⟩ := List.countP_pos_iff.mp (Nat.lt_of_lt_of_eq Nat.zero_lt_one hone.symm)
    obtain ⟨b, hb, rfl⟩ := List.mem_map.mp hp
    refine ⟨b, hb, Or.inr (List.any_eq_true.mpr ⟨item, hitem, ?_⟩)⟩
    rw [valueInRange_eq]
    exact (Option.any_eq_true ..).mpr ⟨ms, hms, hin⟩

/-- What the edges that touch a bucket weigh, over all buckets. -/
theorem sum_touched_le (htiles : Tiles range.fromMs (range.toMs + 1) (buckets.map MsRange.piece))
    (hne : buckets ≠ []) (weight : EdgeDTO → ℕ) (edges : List EdgeDTO) :
    (edges.map fun e => if edgeTouchesRange range byId e then weight e else 0).sum ≤
      (buckets.map fun b =>
        (edges.map fun e => if edgeTouchesRange b byId e then weight e else 0).sum).sum := by
  induction edges with
  | nil => exact Nat.zero_le _
  | cons e edges ih =>
    simp only [List.map_cons, List.sum_cons, List.sum_map_add]
    refine Nat.add_le_add ?_ ih
    rw [sum_map_if fun b => edgeTouchesRange b byId e]
    split
    · next htouch =>
      obtain ⟨b, hb, hin⟩ := exists_touched htiles hne htouch
      exact Nat.le_mul_of_pos_left _ (List.countP_pos_iff.mpr ⟨b, hb, hin⟩)
    · exact Nat.zero_le _

/-- **The buckets' counts sum to the range's** where the buckets tile it. -/
theorem sumsTo_of_tiles
    (htiles : Tiles range.fromMs (range.toMs + 1) (buckets.map MsRange.piece)) :
    SumsTo (buckets.map fun b => computeRepoMetricStats items edges activities byId b)
      (computeRepoMetricStats items edges activities byId range) := by
  -- each counter weighs rows at an instant, and the tiles share the instants out
  have hitems : ∀ c : ItemCounter,
      (buckets.map fun b => c.of (computeRepoMetricStats items edges activities byId b)).sum =
        c.of (computeRepoMetricStats items edges activities byId range) := by
    intro c
    have hsum := htiles.sum_weighIn (fun item : ItemDTO => timestampMs (c.instant.of item))
      c.weight items
    rw [List.map_map] at hsum
    rw [List.map_congr_left fun b _ => itemCounter_compute c, itemCounter_compute]
    exact hsum
  have hactivities : ∀ c : ActivityCounter,
      (buckets.map fun b => c.of (computeRepoMetricStats items edges activities byId b)).sum =
        c.of (computeRepoMetricStats items edges activities byId range) := by
    intro c
    have hsum := htiles.sum_weighIn
      (fun activity : ActivityDTO => timestampMs (some activity.occurredAt)) c.weight activities
    rw [List.map_map] at hsum
    rw [List.map_congr_left fun b _ => activityCounter_compute c, activityCounter_compute]
    exact hsum
  refine ⟨fun c => ?_, fun c => ?_, ?_, fun hne c => ?_⟩
  · rw [List.map_map]
    exact hitems c
  · rw [List.map_map]
    exact hactivities c
  · have hparts := fun b (_ : b ∈ buckets) =>
      @activityScore_compute b byId items edges activities
    rw [List.map_map, activityScore_compute]
    change (buckets.map fun b =>
      (computeRepoMetricStats items edges activities byId b).activityScore).sum = _
    rw [List.map_congr_left hparts]
    simp only [List.sum_map_add]
    have hcommits := hactivities .commits
    have hcomments := hactivities .comments
    have hreviews := hactivities .reviews
    have happrovals := hactivities .approvals
    have hopened := hitems .opened
    have hmerged := hitems .changeRequestsMerged
    simp only [ActivityCounter.of, ItemCounter.of] at *
    rw [hcommits, hcomments, hreviews, happrovals, hopened, hmerged]
  · have hbuckets : buckets ≠ [] := fun h => hne (by rw [h, List.map_nil])
    rw [List.map_map, edgeCounter_compute]
    have hle := @sum_touched_le range byId buckets htiles hbuckets c.weight edges
    rwa [← List.map_congr_left fun b _ => @edgeCounter_compute b byId items edges activities c]
      at hle

end Sums

end SymphonyBoard
