import SymphonyBoard.Common.Percent
import Mathlib.Logic.Basic
/-!
# The canonical model

The provider-agnostic shapes the normalizers produce and the store keeps
(`src/model/types.ts`), with the item references of `src/model/ref.ts`
and the label scopes of `src/model/labels.ts`.

A source id never contains `|`, because a reference is
`<source_id>|<external_id>` and is split at the first bar. The source
throws on an id that does; here the id is a subtype, so such a reference
cannot be written down.
-/

namespace SymphonyBoard

/-- A source handle, e.g. `github:github.com`. -/
structure SourceId where
  val : String
  noBar : '|' ∉ val.toList
deriving DecidableEq

/-- The usual id of `github.com`. -/
theorem noBarGithub : '|' ∉ "github:github.com".toList := by decide

/-- The usual id of `gitlab.com`. -/
theorem noBarGitlab : '|' ∉ "gitlab:gitlab.com".toList := by decide

/-- A normalized item state. `opened` is the model's `open`. -/
inductive ItemState
  | opened
  | closed
  | merged
deriving DecidableEq, Repr

/-- What an item is. -/
inductive ItemKind
  | issue
  | changeRequest
deriving DecidableEq, Repr

/-- Where the reviews of a change request stand. -/
inductive ReviewState
  | approved
  | changesRequested
  | reviewRequired
deriving DecidableEq, Repr

/-- Where its checks stand. -/
inductive CiState
  | passing
  | failing
  | pending
  | none
deriving DecidableEq, Repr

/-- Whether it can be merged. -/
inductive MergeState
  | mergeable
  | conflicting
  | blocked
  | unknown
deriving DecidableEq, Repr

/-- How two items are joined. -/
inductive EdgeType
  | closes
  | relates
  | mentions
  | blocks
  | blockedBy
  | parent
  | child
deriving DecidableEq, Repr

/-- What became of an edge. -/
inductive EdgeLifecycle
  | declared
  | fulfilled
  | broken
deriving DecidableEq, Repr

/-- The immutable identity of an item. -/
structure ItemEndpoint where
  sourceId : SourceId
  externalId : String
deriving DecidableEq

/-- A composite item reference. -/
abbrev Ref := String

/-- `<source_id>|<external_id>`. -/
def refOf (sourceId : SourceId) (externalId : String) : Ref :=
  sourceId.val ++ "|" ++ externalId

/-- The reference of an endpoint. -/
def refOfEndpoint (e : ItemEndpoint) : Ref := refOf e.sourceId e.externalId

theorem append_bar_inj {a b c d : List Char} (ha : '|' ∉ a) (hc : '|' ∉ c)
    (h : a ++ '|' :: b = c ++ '|' :: d) : a = c ∧ b = d := by
  induction a generalizing c with
  | nil =>
    cases c with
    | nil => simpa using h
    | cons y c =>
      simp only [List.nil_append, List.cons_append, List.cons.injEq] at h
      exact absurd (h.1 ▸ List.mem_cons_self) hc
  | cons x a ih =>
    cases c with
    | nil =>
      simp only [List.nil_append, List.cons_append, List.cons.injEq] at h
      exact absurd (h.1 ▸ List.mem_cons_self) ha
    | cons y c =>
      simp only [List.cons_append, List.cons.injEq] at h
      obtain ⟨hac, hbd⟩ := ih (fun hm => ha (List.mem_cons_of_mem _ hm))
        (fun hm => hc (List.mem_cons_of_mem _ hm)) h.2
      exact ⟨by rw [h.1, hac], hbd⟩

/-- **A reference names one item**: it is split at the first bar, and the
source part has none. -/
theorem refOfEndpoint_injective : Function.Injective refOfEndpoint := by
  rintro ⟨⟨s, hs⟩, x⟩ ⟨⟨s', hs'⟩, x'⟩ h
  have hchars : s.toList ++ '|' :: x.toList = s'.toList ++ '|' :: x'.toList := by
    simpa [refOfEndpoint, refOf] using congrArg String.toList h
  obtain ⟨h1, h2⟩ := append_bar_inj hs hs' hchars
  obtain rfl := String.toList_inj.mp h1
  obtain rfl := String.toList_inj.mp h2
  rfl

/-- A label, with what stands before `::` in its name. -/
structure CanonicalLabel where
  name : String
  scope : Option String
  color : Option String
deriving DecidableEq, Repr

/-- The text before the first `::`. -/
def beforeColons : List Char → Option (List Char)
  | ':' :: ':' :: _ => some []
  | c :: cs => (beforeColons cs).map (c :: ·)
  | [] => none

/-- The scope of a `scope::value` label; an empty scope is none. -/
def parseScope (name : String) : Option String :=
  match beforeColons name.toList with
  | some (c :: cs) => some (String.ofList (c :: cs))
  | _ => none

/-- A label of a name. -/
def toLabel (name : String) (color : Option String) : CanonicalLabel :=
  { name, scope := parseScope name, color }

/-- A normalized item. The body text and the columns that are null for both
providers (`milestone`) are left out. -/
structure CanonicalItem where
  sourceId : SourceId
  externalId : String
  kind : ItemKind
  projectPath : Option String
  iid : Option Nat
  url : String
  title : Option String
  state : ItemState
  stateRaw : Option String
  isDraft : Option Bool
  author : Option String
  createdAt : Option String
  updatedAt : Option String
  closedAt : Option String
  mergedAt : Option String
  reviewState : Option ReviewState
  ciState : Option CiState
  mergeState : Option MergeState
  openReviewThreads : Option Nat
  totalReviewThreads : Option Nat
  commentTotal : Option Nat
  demand : Nat
deriving DecidableEq

/-- Where an item is. -/
def CanonicalItem.endpoint (i : CanonicalItem) : ItemEndpoint := ⟨i.sourceId, i.externalId⟩

/-- An edge as one reporter saw it. `fromEnd` and `toEnd` are the model's
`from` and `to`; a state is null when the report did not carry it. -/
structure CanonicalEdge where
  type : EdgeType
  fromEnd : ItemEndpoint
  toEnd : ItemEndpoint
  fromState : Option ItemState
  toState : Option ItemState
deriving DecidableEq

/-- An activity's external id: its non-empty parts, percent-encoded and
joined with `:`. -/
def stableActivityId (parts : List (Option String)) : String :=
  String.intercalate ":"
    ((parts.filterMap fun p => p.filter fun s => s ≠ "").map encodeURIComponent)

/-- An activity record. The actor key, the summary sentence and the open
details object are left out. -/
structure CanonicalActivity where
  sourceId : SourceId
  externalId : String
  kind : String
  action : String
  projectPath : Option String
  targetKind : Option String
  target : Option ItemEndpoint
  targetIid : Option Nat
  title : Option String
  url : Option String
  actor : Option String
  occurredAt : String
deriving DecidableEq

/-- A comment of a review thread. -/
structure CanonicalReviewThreadComment where
  id : String
  author : Option String
  avatarUrl : Option String
  body : Option String
  url : Option String
  createdAt : Option String
  updatedAt : Option String
deriving DecidableEq

/-- A review thread of a change request. -/
structure CanonicalReviewThread where
  sourceId : SourceId
  externalId : String
  projectPath : Option String
  target : ItemEndpoint
  targetIid : Option Nat
  title : Option String
  url : Option String
  isResolved : Bool
  isOutdated : Option Bool
  resolvedBy : Option String
  path : Option String
  line : Option Nat
  startLine : Option Nat
  commentsTotal : Nat
  comments : List CanonicalReviewThreadComment
  lastCommentAt : Option String
deriving DecidableEq

/-- What normalizing one raw record yields. Activity-only records have no
item. -/
structure NormalizedBundle where
  item : Option CanonicalItem
  labels : List CanonicalLabel
  edges : List CanonicalEdge
  activities : List CanonicalActivity
  reviewThreads : List CanonicalReviewThread

end SymphonyBoard
