import SymphonyBoard.Common.Keyed
import SymphonyBoard.Model.Types
import SymphonyBoard.Shared.Text
/-!
# The source interface

`src/sources/types.ts`: what a provider adapter hands to the sync engine.
`fetch` and `fetchRefresh` are the only impure parts; a run of the engine
takes a `Source` value whose two functions answer as the provider did in
that run. The payload type is the adapter's own. The content hash of a
record is left out: the engine stores it and reads it nowhere.
-/

namespace SymphonyBoard

/-- A source, as the store knows it. -/
structure SourceDescriptor where
  sourceId : SourceId
  kind : String
  host : String
  displayName : Option String
deriving DecidableEq

/-- The record kinds the adapters produce. -/
inductive EntityKind
  | issue
  | changeRequest
  | activity
  | commitFiles
deriving DecidableEq, Repr

/-- One opaque provider record. -/
structure RawRecord (P : Type) where
  entityKind : EntityKind
  externalId : String
  apiVersion : Option String
  fetchedAt : String
  payload : P

/-- What a fetch is asked for. -/
structure FetchOptions where
  since : Option String
  full : Bool

/-- `complete = false` is a partial or failed sweep; a null watermark
leaves the stored one unchanged. -/
structure FetchResult (P : Type) where
  records : List (RawRecord P)
  watermark : Option String
  complete : Bool
  error : Option String

/-- Why a change request is read again. -/
inductive RefreshReason
  | ciUnresolved
  | openChangeRequest
  | recentChangeRequest
deriving DecidableEq, Repr

/-- A change request to be read again. -/
structure RefreshCandidate where
  externalId : String
  projectPath : String
  iid : Nat
  reason : RefreshReason

/-- What one item of a resolve pass yields. -/
structure ResolveOutcome (P : Type) where
  record : Option (RawRecord P)
  error : Option String

/-- An adapter: what it fetches, and what it makes of a record. -/
structure Source (P : Type) where
  descriptor : SourceDescriptor
  normalizerVersion : String
  fetch : FetchOptions → Except String (FetchResult P)
  fetchRefresh : Option (List RefreshCandidate → FetchOptions → Except String (FetchResult P))
  normalize : RawRecord P → Except String (Option NormalizedBundle)

/-- A record normalizes to an item under this key. -/
def NormalizesTo {P : Type} (normalize : RawRecord P → Option NormalizedBundle) (r : RawRecord P)
    (k : ItemEndpoint) : Prop :=
  ∃ b i, normalize r = some b ∧ b.item = some i ∧ i.endpoint = k

/-! ## What both adapters do the same way -/

/-- A page of a GraphQL connection. -/
structure Connection (N : Type) where
  nodes : List N
  hasNextPage : Bool
  endCursor : Option String

/-- How the adapters' loop over the pages of one listing ends: at the last
page, at a node older than the watermark, because the response carries no
connection, at the page cap, or with an error. -/
inductive ListingEnd
  | lastPage
  | olderNode
  | noConnection
  | pageCap
  | failed (msg : String)
deriving DecidableEq

/-- The loop read its listing to where it may stop. -/
def ListingEnd.ReadThrough (ending : ListingEnd) : Prop :=
  ending = .lastPage ∨ ending = .olderNode

/-- `since && updatedAt < since`, the other way round. -/
def notOlder (since : Option String) (updatedAt : String) : Bool :=
  match since with
  | none => true
  | some s => decide (¬ updatedAt < s)

/-- `if (!latest || updatedAt > latest) latest = updatedAt`. -/
def pickLatest (latest : Option String) (updatedAt : String) : Option String :=
  match nonEmpty latest with
  | none => some updatedAt
  | some l => if l < updatedAt then some updatedAt else latest

/-- The refresh candidates an adapter asks about: those of its configured
projects, each once. -/
def refreshTargets (projects : List String) (candidates : List RefreshCandidate) :
    List RefreshCandidate :=
  firstOfEach (fun c => c.projectPath ++ "#" ++ toString c.iid)
    (candidates.filter fun c => decide (c.projectPath ∈ projects))

/-- The result of a refresh: what was read, and the first error. -/
def refreshResult {P : Type} (outcomes : List (ResolveOutcome P)) : FetchResult P :=
  let errors := outcomes.filterMap (·.error)
  { records := outcomes.filterMap (·.record)
    watermark := none
    complete := errors.isEmpty
    error := errors.head? }

end SymphonyBoard
