import SymphonyBoard.Model.Types
/-!
# The contract's rows

The shapes the projection emits (`packages/contract/types.ts`), with the
fields the modelled projections read.
-/

namespace SymphonyBoard

/-- Why a window emits an item. -/
inductive ItemWindowReason
  | primary
  | edgeEndpoint
  | activityTarget
  | programTracker
deriving DecidableEq, Repr

/-- An emitted item. The thread and comment totals stay the item's columns;
no window reasons is the absent field. -/
structure ItemDTO extends CanonicalItem where
  id : Ref
  labels : List CanonicalLabel
  lastSeenAt : String
  windowReasons : List ItemWindowReason
deriving DecidableEq

/-- An emitted edge. `fromRef` and `toRef` are the contract's `from` and
`to`. -/
structure EdgeDTO where
  type : EdgeType
  fromRef : Ref
  toRef : Ref
  fromState : Option ItemState
  toState : Option ItemState
  lifecycle : Option EdgeLifecycle
deriving DecidableEq

/-- An activity, as the contract has it. -/
structure ActivityDTO where
  sourceId : SourceId
  externalId : String
  kind : String
  action : String
  projectPath : Option String
  targetKind : Option String
  targetRef : Option Ref
  targetIid : Option Nat
  title : Option String
  actor : Option String
  occurredAt : String
deriving DecidableEq

end SymphonyBoard
