import SymphonyBoard.Model.Types
import SymphonyBoard.Shared.Text
/-!
# Activities every item has

`itemActivities` of `src/model/activity.ts`: the opening of an item, and
its merge or else its closing.
-/

namespace SymphonyBoard

/-- The kind's word in an id. -/
def ItemKind.text : ItemKind → String
  | .issue => "issue"
  | .changeRequest => "change_request"

/-- One transition of an item, dated by the provider. -/
def transitionActivity (item : CanonicalItem) (action occurredAt : String) : CanonicalActivity :=
  { sourceId := item.sourceId
    externalId := stableActivityId [some "item", some item.externalId, some action, some occurredAt]
    kind := item.kind.text
    action
    projectPath := item.projectPath
    targetKind := some item.kind.text
    target := some item.endpoint
    targetIid := item.iid
    title := item.title
    url := some item.url
    actor := item.author
    occurredAt }

/-- `itemActivities`: an item was opened, and merged or closed. -/
def itemActivities (item : CanonicalItem) : List CanonicalActivity :=
  let opened := ((nonEmpty item.createdAt).map (transitionActivity item "opened")).toList
  let settled :=
    match item.kind, nonEmpty item.mergedAt, nonEmpty item.closedAt with
    | .changeRequest, some mergedAt, _ => [transitionActivity item "merged" mergedAt]
    | _, _, some closedAt => [transitionActivity item "closed" closedAt]
    | _, _, none => []
  opened ++ settled

end SymphonyBoard
