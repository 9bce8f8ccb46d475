import Mathlib.Data.String.Basic
import SymphonyBoard.Common.Latest
import SymphonyBoard.Common.OrdSet
import SymphonyBoard.Ui.RailStats
/-!
# What was touched last

`repoDetails`, `changeRequestGroups` and `busiestItems` of
`packages/ui/src/rail-stats.ts` gather the rows by repository, by change
request and by item, and keep of each group the `occurred_at` that came
last. They compare its text. The text that is last is of the last instant
exactly where text order follows the instants among the rows of a group
(`recency_iff`), which it does not between rows of different offsets.

`repoDetails` walks the rows once for its two maps; here each is walked on
its own. A `localeCompare` is a parameter.
-/

namespace SymphonyBoard

/-! ## Repositories -/

/-- The authors of a repository, and its last activity. -/
structure RepoDetail where
  authors : ℕ
  lastAt : Option String

/-- `<source_id>|<path>`. -/
def repoKeyOf (a : RailActivity) : Option String :=
  (cleanText a.projectPath).map fun path => refOf a.sourceId path

/-- An activity counted for its repository. -/
def RepoDetail.add (a : RailActivity) (detail : Option RepoDetail) : RepoDetail :=
  let detail := detail.getD ⟨0, none⟩
  match nonEmpty detail.lastAt with
  | none => { detail with lastAt := some a.occurredAt }
  | some lastAt => if lastAt < a.occurredAt then { detail with lastAt := some a.occurredAt }
    else detail

/-- The repository's actors so far, and the row's. -/
def addRepoAuthor (canonical : OrdMap String String) (a : RailActivity)
    (authors : Option (OrdSet String)) : OrdSet String :=
  let authors := authors.getD (.ofList [])
  match cleanText a.actor with
  | none => authors
  | some actor => authors.add ((canonical.get? actor).getD actor)

/-- `repoDetails`: each repository's authors and last activity. -/
def repoDetails (activities : List RailActivity) (canonical : OrdMap String String) :
    OrdMap String RepoDetail :=
  let authors := OrdMap.foldKeyed repoKeyOf (addRepoAuthor canonical) activities
  (OrdMap.foldKeyed repoKeyOf RepoDetail.add activities).mapWithKey fun key detail =>
    { detail with authors := ((authors.get? key).map (·.values.length)).getD 0 }

/-! ## Change requests -/

/-- The change request a commit belongs to. -/
structure CommitChangeRequestLink where
  ref : String
  iid : Option ℕ

/-- A number of the details that is whole and positive. -/
def positiveCount : Option Json → Option ℕ
  | some (.num m s) =>
    if (Json.num m s).isInteger ∧ 0 < m then some (m / 10 ^ s).toNat else none
  | _ => none

/-- The change request a commit names. No link and an unusable one are alike
to the callers here. -/
def commitChangeRequest (a : RailActivity) : Option CommitChangeRequestLink :=
  match a.details.bind (·.field? "change_request") with
  | some (.obj link) =>
    match (Json.obj link).field? "ref" with
    | some (.str ref) =>
      if ref = "" then none else some ⟨ref, positiveCount ((Json.obj link).field? "iid")⟩
    | _ => none
  | _ => none

/-- The commits of a change request. -/
structure ChangeRequestGroup where
  ref : String
  iid : Option ℕ
  sourceId : SourceId
  projectPath : Option String
  commits : ℕ
  additions : ℕ
  deletions : ℕ
  counted : ℕ
  lastAt : String

/-- The change request of a commit. -/
def changeRequestRef (a : RailActivity) : Option String := (commitChangeRequest a).map (·.ref)

/-- A change request before its first commit. -/
def ChangeRequestGroup.start (a : RailActivity) : ChangeRequestGroup :=
  { ref := (changeRequestRef a).getD "", iid := (commitChangeRequest a).bind (·.iid)
    sourceId := a.sourceId, projectPath := cleanText a.projectPath
    commits := 0, additions := 0, deletions := 0, counted := 0, lastAt := a.occurredAt }

/-- A commit counted for its change request. -/
def ChangeRequestGroup.add (a : RailActivity) (group : Option ChangeRequestGroup) :
    ChangeRequestGroup :=
  let group := group.getD (.start a)
  let stats := (commitStats a).getD ⟨0, 0⟩
  { group with
    commits := group.commits + 1
    additions := group.additions + stats.additions
    deletions := group.deletions + stats.deletions
    counted := group.counted + if (commitStats a).isSome then 1 else 0
    lastAt := if group.lastAt < a.occurredAt then a.occurredAt else group.lastAt }

/-- The group committed to last first, ties by the reference. -/
def groupOrder (localeCompare : String → String → Ordering) (a b : ChangeRequestGroup) : Ordering :=
  (localeCompare b.lastAt a.lastAt).then (localeCompare a.ref b.ref)

/-- The change requests by their last commit. -/
def changeRequestGroups (localeCompare : String → String → Ordering)
    (activities : List RailActivity) : List ChangeRequestGroup :=
  sortBy (groupOrder localeCompare)
    (OrdMap.foldKeyed changeRequestRef ChangeRequestGroup.add activities).values

/-! ## Items -/

/-- A commit, or a row about one. -/
def railIsCommit (a : RailActivity) : Bool := a.kind = "commit" ∨ a.targetKind = some "commit"

/-- The item a row is about: its target, for a commit its change request. -/
def activityTargetRef (a : RailActivity) : Option String :=
  match nonEmpty a.targetRef with
  | some ref => some ref
  | none =>
    if railIsCommit a then
      nonEmpty (((a.details.bind (·.field? "change_request")).bind (·.field? "ref")).bind Json.str?)
    else none

/-- `WORK_ITEM_KINDS` -/
def workItemKinds : List String := ["issue", "change_request"]

/-- The activity on one item. -/
structure BusiestItem where
  ref : String
  sourceId : SourceId
  projectPath : Option String
  iid : Option ℚ
  kind : Option String
  events : ℕ
  comments : ℕ
  reviews : ℕ
  commits : ℕ
  lastAt : String
  latest : RailActivity

/-- The work item kind a row names, its target's before its own. -/
def namedKind (a : RailActivity) : Option String :=
  (a.targetKind.filter (· ∈ workItemKinds)).or (if a.kind ∈ workItemKinds then some a.kind else none)

/-- `typeof value === "number"`. -/
def jsonNumber : Option Json → Option ℚ
  | some (.num m s) => some (m / 10 ^ s)
  | _ => none

/-- An item before its first row. -/
def BusiestItem.start (a : RailActivity) : BusiestItem :=
  { ref := (activityTargetRef a).getD "", sourceId := a.sourceId, projectPath := a.projectPath
    iid :=
      if railIsCommit a then
        jsonNumber ((a.details.bind (·.field? "change_request")).bind (·.field? "iid"))
      else a.targetIid.map fun iid => (iid : ℚ)
    kind := if railIsCommit a then some "change_request" else namedKind a
    events := 0, comments := 0, reviews := 0, commits := 0, lastAt := a.occurredAt, latest := a }

/-- A row counted for its item. -/
def BusiestItem.add (a : RailActivity) (item : Option BusiestItem) : BusiestItem :=
  let item := item.getD (.start a)
  { item with
    events := item.events + 1
    comments := item.comments + if a.kind = "comment" then 1 else 0
    reviews := item.reviews + if a.kind = "review" then 1 else 0
    commits := item.commits +
      if a.kind ≠ "comment" ∧ a.kind ≠ "review" ∧ railIsCommit a then 1 else 0
    iid := item.iid.or (if railIsCommit a then none else a.targetIid.map fun iid => (iid : ℚ))
    kind := item.kind.or (a.targetKind.filter (· ∈ workItemKinds))
    lastAt := if item.lastAt < a.occurredAt then a.occurredAt else item.lastAt
    latest := if item.lastAt < a.occurredAt then a else item.latest }

/-- `limit > 0 ? ranked.slice(0, limit) : ranked`. -/
def sliceUpTo {α : Type} (limit : JsNumber) (ranked : List α) : List α :=
  match limit with
  | .finite value => if 0 < value then ranked.take ⌊value⌋.toNat else ranked
  | .infinite _ => ranked
  | .nan => ranked

/-- The item of the most events first, ties to the one touched last. -/
def itemOrder (x y : BusiestItem) : Ordering :=
  (compare y.events x.events).then (compare y.lastAt x.lastAt)

/-- `busiestItems`: the items with the most activity. -/
def busiestItems (activities : List RailActivity) (limit : JsNumber) : List BusiestItem :=
  sliceUpTo limit (sortBy itemOrder
    (OrdMap.foldKeyed activityTargetRef BusiestItem.add activities).values)

/-! ## What each group comes to -/

theorem empty_le_text (t : String) : "" ≤ t :=
  not_lt.mp fun h => List.not_lt_nil _ (String.lt_iff_toList_lt.mp h)

theorem keepsGreatest_repoDetail :
    KeepsGreatest (fun a : RailActivity => a.occurredAt) (fun detail => detail.lastAt.getD "")
      RepoDetail.add where
  first _ := rfl
  next a detail := by
    rw [RepoDetail.add]
    simp only [Option.getD_some]
    cases hlast : detail.lastAt with
    | none => exact (max_eq_right (empty_le_text _)).symm
    | some text =>
      by_cases hempty : text = ""
      · subst hempty
        exact (max_eq_right (empty_le_text _)).symm
      · have hsome : nonEmpty (some text) = some text := by simp [nonEmpty, hempty]
        simp only [hsome, Option.getD_some]
        by_cases hlt : text < a.occurredAt
        · rw [if_pos hlt, max_eq_right hlt.le]
          rfl
        · rw [if_neg hlt, max_eq_left (not_lt.mp hlt), hlast]
          rfl

theorem max_eq_ite_lt {t u : String} : (if t < u then u else t) = max t u := by
  by_cases hlt : t < u
  · rw [if_pos hlt, max_eq_right hlt.le]
  · rw [if_neg hlt, max_eq_left (not_lt.mp hlt)]

theorem keepsGreatest_changeRequest :
    KeepsGreatest (fun a : RailActivity => a.occurredAt) ChangeRequestGroup.lastAt
      ChangeRequestGroup.add where
  first _ := if_neg (lt_irrefl _)
  next _ _ := max_eq_ite_lt

theorem keepsGreatest_item :
    KeepsGreatest (fun a : RailActivity => a.occurredAt) BusiestItem.lastAt BusiestItem.add where
  first _ := if_neg (lt_irrefl _)
  next _ _ := max_eq_ite_lt

variable {localeCompare : String → String → Ordering} {activities : List RailActivity}
variable {key : RailActivity → Option String}

/-- A group of a change request is about it. -/
theorem changeRequestGroup_ref {k : String} {g : ChangeRequestGroup}
    (h : (OrdMap.foldKeyed changeRequestRef ChangeRequestGroup.add activities).get? k = some g) :
    g.ref = k := by
  refine OrdMap.foldKeyed_rule (P := fun k _ g => g.ref = k) (fun a k hk => ?_)
    (fun a k rows g hk hg => ?_) h
  · show (changeRequestRef a).getD "" = k
    rw [hk, Option.getD_some]
  · exact hg

/-- What a busy item says of the rows about it. -/
structure BusiestItem.Counts (k : String) (rows : List RailActivity) (item : BusiestItem) :
    Prop where
  ref : item.ref = k
  events : item.events = rows.length
  latest : item.latest ∈ rows
  lastAt : item.latest.occurredAt = item.lastAt

theorem busiestItem_counts {k : String} {item : BusiestItem}
    (h : (OrdMap.foldKeyed activityTargetRef BusiestItem.add activities).get? k = some item) :
    item.Counts k (activities.filter fun a => activityTargetRef a = some k) := by
  refine OrdMap.foldKeyed_rule (P := fun k rows item => BusiestItem.Counts k rows item)
    (fun a k hk => ?_) (fun a k rows item hk hitem => ?_) h
  · refine ⟨?_, rfl, ?_, ?_⟩
    · show (activityTargetRef a).getD "" = k
      rw [hk, Option.getD_some]
    · show (if a.occurredAt < a.occurredAt then a else a) ∈ [a]
      rw [ite_self]
      exact List.mem_singleton_self a
    · show (if a.occurredAt < a.occurredAt then a else a).occurredAt =
        if a.occurredAt < a.occurredAt then a.occurredAt else a.occurredAt
      rw [ite_self, ite_self]
  · refine ⟨hitem.ref, ?_, ?_, ?_⟩
    · show item.events + 1 = _
      rw [hitem.events, List.length_append, List.length_singleton]
    · show (if item.lastAt < a.occurredAt then a else item.latest) ∈ rows ++ [a]
      split
      · exact List.mem_append_right _ (List.mem_singleton_self a)
      · exact List.mem_append_left _ hitem.latest
    · show (if item.lastAt < a.occurredAt then a else item.latest).occurredAt =
        if item.lastAt < a.occurredAt then a.occurredAt else item.lastAt
      split
      · rfl
      · exact hitem.lastAt

theorem repoDetail_lastAt {k : String} {detail : RepoDetail}
    (h : (OrdMap.foldKeyed repoKeyOf RepoDetail.add activities).get? k = some detail) :
    detail.lastAt = some (detail.lastAt.getD "") := by
  refine OrdMap.foldKeyed_rule (P := fun _ _ detail => detail.lastAt = some (detail.lastAt.getD ""))
    (fun _ _ _ => rfl) (fun a _ _ detail _ hdetail => ?_) h
  rw [RepoDetail.add]
  simp only [Option.getD_some]
  split
  · rfl
  · split
    · rfl
    · exact hdetail

/-! ## Instants -/

/-- Of two texts, the first is of no later instant. -/
def NoLater (t u : String) : Prop := ∀ x ∈ dateParseAll t, ∀ y ∈ dateParseAll u, x ≤ y

instance (t u : String) : Decidable (NoLater t u) :=
  inferInstanceAs (Decidable (∀ x ∈ dateParseAll t, ∀ y ∈ dateParseAll u, x ≤ y))

theorem NoLater.refl (t : String) : NoLater t t := fun x hx y hy => by
  obtain rfl := Option.mem_unique hx hy
  exact le_rfl

/-- The `occurred_at` of a row with the key, of an instant no earlier than
that of any other. -/
structure LatestAt (key : RailActivity → Option String) (activities : List RailActivity)
    (k text : String) : Prop where
  isOne : ∃ a ∈ activities, key a = some k ∧ a.occurredAt = text
  isLatest : ∀ a ∈ activities, key a = some k → NoLater a.occurredAt text

/-- A row whose text comes last in its group. -/
structure LastText (key : RailActivity → Option String) (activities : List RailActivity)
    (a : RailActivity) : Prop where
  mem : a ∈ activities
  keyed : (key a).isSome
  last : ∀ b ∈ activities, key b = key a → b.occurredAt ≤ a.occurredAt

/-- The text that comes last in a group is of its last instant. -/
def LastIsLatest (key : RailActivity → Option String) (activities : List RailActivity) : Prop :=
  ∀ a, LastText key activities a → ∀ b ∈ activities, key b = key a →
    NoLater b.occurredAt a.occurredAt

theorem LastText.greatestAt {a : RailActivity} {k : String} (h : LastText key activities a)
    (hk : key a = some k) : GreatestAt key (fun a : RailActivity => a.occurredAt) activities k a.occurredAt :=
  ⟨⟨a, h.mem, hk, rfl⟩, fun b hb hkb => h.last b hb (hkb.trans hk.symm)⟩

theorem exists_lastText {k t : String}
    (h : GreatestAt key (fun a : RailActivity => a.occurredAt) activities k t) :
    ∃ a, LastText key activities a ∧ key a = some k ∧ a.occurredAt = t := by
  obtain ⟨a, ha, hk, rfl⟩ := h.isOne
  exact ⟨a, ⟨ha, by rw [hk]; rfl, fun b hb hkb => h.isGreatest b hb (hkb.trans hk)⟩, hk, rfl⟩

/-- **The groups report their last instants** exactly where the last text of
each is of its last instant. -/
theorem latestAt_iff {V : Type} {f : RailActivity → Option V → V} {view : V → String}
    (h : KeepsGreatest (fun a : RailActivity => a.occurredAt) view f) :
    (∀ k v, (OrdMap.foldKeyed key f activities).get? k = some v →
      LatestAt key activities k (view v)) ↔ LastIsLatest key activities := by
  constructor
  · intro hall a ha b hb hkb
    obtain ⟨k, hk⟩ := Option.isSome_iff_exists.mp ha.keyed
    obtain ⟨v, hv⟩ := OrdMap.exists_foldKeyed (f := f) ha.mem hk
    have heq : a.occurredAt = view v := (ha.greatestAt hk).unique (h.foldKeyed hv)
    rw [heq]
    exact (hall k v hv).isLatest b hb (hkb.trans hk)
  · intro hlast k v hv
    obtain ⟨a, ha, hk, heq⟩ := exists_lastText (h.foldKeyed hv)
    rw [← heq]
    exact ⟨⟨a, ha.mem, hk, rfl⟩, fun b hb hkb => hlast a ha b hb (hkb.trans hk.symm)⟩

/-! ## The orders -/

instance transCmp_groupOrder [Std.TransCmp localeCompare] :
    Std.TransCmp (groupOrder localeCompare) :=
  haveI : Std.TransCmp fun a b => localeCompare b a := Std.TransCmp.opposite
  inferInstanceAs (Std.TransCmp (compareLex
    (on (fun a b => localeCompare b a) ChangeRequestGroup.lastAt)
    (on localeCompare ChangeRequestGroup.ref)))

instance transCmp_itemOrder : Std.TransCmp itemOrder :=
  haveI : Std.TransCmp fun a b : ℕ => compare b a := Std.TransCmp.opposite
  haveI : Std.TransCmp fun a b : String => compare b a := Std.TransCmp.opposite
  inferInstanceAs (Std.TransCmp (compareLex
    (on (fun a b : ℕ => compare b a) BusiestItem.events)
    (on (fun a b : String => compare b a) BusiestItem.lastAt)))

/-- A comparator that tells timestamps apart. -/
def TellsTimestampsApart (localeCompare : String → String → Ordering) : Prop :=
  ∀ t u, (dateParseAll t).isSome → (dateParseAll u).isSome → localeCompare t u = .eq → t = u

/-- The rows about the item a row is about. -/
def eventsAbout (activities : List RailActivity) (a : RailActivity) : ℕ :=
  activities.countP fun b => activityTargetRef b = activityTargetRef a

theorem changeRequestGroups_inOrder_iff [Std.TransCmp localeCompare]
    (hparse : ∀ a ∈ activities, (dateParseAll a.occurredAt).isSome)
    (hapart : TellsTimestampsApart localeCompare) :
    (changeRequestGroups localeCompare activities).Pairwise
        (fun g h => NoLater h.lastAt g.lastAt) ↔
      ∀ a b, LastText changeRequestRef activities a → LastText changeRequestRef activities b →
        localeCompare a.occurredAt b.occurredAt = .lt → NoLater a.occurredAt b.occurredAt := by
  have hlast : ∀ g ∈ (OrdMap.foldKeyed changeRequestRef ChangeRequestGroup.add activities).values,
      ∃ a, LastText changeRequestRef activities a ∧ a.occurredAt = g.lastAt := fun g hg => by
    obtain ⟨k, hk⟩ := OrdMap.mem_values_iff.mp hg
    obtain ⟨a, ha, -, heq⟩ := exists_lastText (keepsGreatest_changeRequest.foldKeyed hk)
    exact ⟨a, ha, heq⟩
  have hsame : ∀ g ∈ (OrdMap.foldKeyed changeRequestRef ChangeRequestGroup.add activities).values,
      ∀ h ∈ (OrdMap.foldKeyed changeRequestRef ChangeRequestGroup.add activities).values,
        localeCompare h.lastAt g.lastAt = .eq → NoLater h.lastAt g.lastAt := by
    intro g hg h hh heq
    obtain ⟨a, ha, hag⟩ := hlast g hg
    obtain ⟨b, hb, hbh⟩ := hlast h hh
    rw [hapart _ _ (hbh ▸ hparse b hb.mem) (hag ▸ hparse a ha.mem) heq]
    exact NoLater.refl _
  unfold changeRequestGroups
  rw [@pairwise_sortBy_iff _ (groupOrder localeCompare) _ _ _ fun g hg h hh heq =>
    hsame g hg h hh (Ordering.then_eq_eq.mp heq).1]
  constructor
  · intro hall a b ha hb hlt
    obtain ⟨ka, hka⟩ := Option.isSome_iff_exists.mp ha.keyed
    obtain ⟨kb, hkb⟩ := Option.isSome_iff_exists.mp hb.keyed
    obtain ⟨g, hg⟩ := OrdMap.exists_foldKeyed (f := ChangeRequestGroup.add) ha.mem hka
    obtain ⟨h, hh⟩ := OrdMap.exists_foldKeyed (f := ChangeRequestGroup.add) hb.mem hkb
    have hag := (ha.greatestAt hka).unique (keepsGreatest_changeRequest.foldKeyed hg)
    have hbh := (hb.greatestAt hkb).unique (keepsGreatest_changeRequest.foldKeyed hh)
    rw [hag, hbh] at hlt ⊢
    refine hall h (OrdMap.mem_values_iff.mpr ⟨kb, hh⟩) g (OrdMap.mem_values_iff.mpr ⟨ka, hg⟩) ?_
    rw [groupOrder, hlt]
    rfl
  · intro hall g hg h hh hlt
    rcases Ordering.then_eq_lt.mp hlt with hlt | ⟨heq, -⟩
    · obtain ⟨a, ha, hag⟩ := hlast g hg
      obtain ⟨b, hb, hbh⟩ := hlast h hh
      rw [← hag, ← hbh] at hlt ⊢
      exact hall b a hb ha hlt
    · exact hsame g hg h hh heq

theorem events_eq {k : String} {item : BusiestItem} {a : RailActivity}
    (h : (OrdMap.foldKeyed activityTargetRef BusiestItem.add activities).get? k = some item)
    (hk : activityTargetRef a = some k) : item.events = eventsAbout activities a := by
  rw [(busiestItem_counts h).events, eventsAbout, List.countP_eq_length_filter, hk]

theorem busiestItems_inOrder_iff :
    (sortBy itemOrder (OrdMap.foldKeyed activityTargetRef BusiestItem.add activities).values).Pairwise
        (fun x y => x.events = y.events → NoLater y.lastAt x.lastAt) ↔
      ∀ a b, LastText activityTargetRef activities a → LastText activityTargetRef activities b →
        eventsAbout activities a = eventsAbout activities b → a.occurredAt < b.occurredAt →
          NoLater a.occurredAt b.occurredAt := by
  have hsame : ∀ x y : BusiestItem, itemOrder x y = .eq →
      x.events = y.events → NoLater y.lastAt x.lastAt := fun x y heq _ => by
    rw [Std.LawfulEqOrd.eq_of_compare (Ordering.then_eq_eq.mp heq).2]
    exact NoLater.refl _
  rw [pairwise_sortBy_iff fun x _ y _ heq => hsame x y heq]
  constructor
  · intro hall a b ha hb hevents hlt
    obtain ⟨ka, hka⟩ := Option.isSome_iff_exists.mp ha.keyed
    obtain ⟨kb, hkb⟩ := Option.isSome_iff_exists.mp hb.keyed
    obtain ⟨x, hx⟩ := OrdMap.exists_foldKeyed (f := BusiestItem.add) ha.mem hka
    obtain ⟨y, hy⟩ := OrdMap.exists_foldKeyed (f := BusiestItem.add) hb.mem hkb
    have hax := (ha.greatestAt hka).unique (keepsGreatest_item.foldKeyed hx)
    have hby := (hb.greatestAt hkb).unique (keepsGreatest_item.foldKeyed hy)
    rw [← events_eq hx hka, ← events_eq hy hkb] at hevents
    rw [hax, hby] at hlt ⊢
    refine hall y (OrdMap.mem_values_iff.mpr ⟨kb, hy⟩) x (OrdMap.mem_values_iff.mpr ⟨ka, hx⟩) ?_
      hevents.symm
    rw [itemOrder, hevents, Std.compare_self, Ordering.then, compare_lt_iff_lt]
    exact hlt
  · intro hall x hx y hy hlt hevents
    obtain ⟨kx, hkx⟩ := OrdMap.mem_values_iff.mp hx
    obtain ⟨ky, hky⟩ := OrdMap.mem_values_iff.mp hy
    obtain ⟨a, ha, hka, hax⟩ := exists_lastText (keepsGreatest_item.foldKeyed hkx)
    obtain ⟨b, hb, hkb, hby⟩ := exists_lastText (keepsGreatest_item.foldKeyed hky)
    rw [itemOrder, hevents, Std.compare_self, Ordering.then, compare_lt_iff_lt] at hlt
    rw [events_eq hkx hka, events_eq hky hkb] at hevents
    rw [← hax, ← hby] at hlt ⊢
    exact hall b a hb ha hevents.symm hlt

/-! ## Recency -/

/-- What the panes report as last is last by its instant, and the two
rankings by recency are by the instants. -/
structure RecencyIsInstants (localeCompare : String → String → Ordering)
    (activities : List RailActivity) (canonical : OrdMap String String) : Prop where
  repos : ∀ key detail, (repoDetails activities canonical).get? key = some detail →
    ∃ text, detail.lastAt = some text ∧ LatestAt repoKeyOf activities key text
  changeRequests : ∀ g ∈ changeRequestGroups localeCompare activities,
    LatestAt changeRequestRef activities g.ref g.lastAt
  items : ∀ limit, ∀ item ∈ busiestItems activities limit,
    LatestAt activityTargetRef activities item.ref item.lastAt ∧ item.latest ∈ activities ∧
      activityTargetRef item.latest = some item.ref ∧ item.latest.occurredAt = item.lastAt
  changeRequestsInOrder : (changeRequestGroups localeCompare activities).Pairwise
    fun g h => NoLater h.lastAt g.lastAt
  itemsInOrder : ∀ limit, (busiestItems activities limit).Pairwise
    fun x y => x.events = y.events → NoLater y.lastAt x.lastAt

/-- Text order follows the instants: within each group, and between the last
rows of the groups that are ranked. -/
structure TextFollowsInstants (localeCompare : String → String → Ordering)
    (activities : List RailActivity) : Prop where
  repos : LastIsLatest repoKeyOf activities
  changeRequests : LastIsLatest changeRequestRef activities
  items : LastIsLatest activityTargetRef activities
  betweenChangeRequests : ∀ a b, LastText changeRequestRef activities a →
    LastText changeRequestRef activities b →
      localeCompare a.occurredAt b.occurredAt = .lt → NoLater a.occurredAt b.occurredAt
  betweenItems : ∀ a b, LastText activityTargetRef activities a →
    LastText activityTargetRef activities b → eventsAbout activities a = eventsAbout activities b →
      a.occurredAt < b.occurredAt → NoLater a.occurredAt b.occurredAt

theorem get?_repoDetails (activities : List RailActivity) (canonical : OrdMap String String)
    (k : String) : ((repoDetails activities canonical).get? k).map (·.lastAt) =
      ((OrdMap.foldKeyed repoKeyOf RepoDetail.add activities).get? k).map (·.lastAt) := by
  unfold repoDetails
  rw [OrdMap.get?_mapWithKey, Option.map_map]
  rfl

theorem repos_iff {canonical : OrdMap String String} :
    (∀ key detail, (repoDetails activities canonical).get? key = some detail →
        ∃ text, detail.lastAt = some text ∧ LatestAt repoKeyOf activities key text) ↔
      LastIsLatest repoKeyOf activities := by
  rw [← latestAt_iff keepsGreatest_repoDetail]
  constructor
  · intro hall k v hv
    have hget := get?_repoDetails activities canonical k
    rw [hv, Option.map_some] at hget
    obtain ⟨detail, hdetail, hlast⟩ := Option.map_eq_some_iff.mp hget
    obtain ⟨text, htext, hlatest⟩ := hall k detail hdetail
    rw [← hlast, htext]
    exact hlatest
  · intro hall k detail hdetail
    have hget := get?_repoDetails activities canonical k
    rw [hdetail, Option.map_some] at hget
    obtain ⟨v, hv, hlast⟩ := Option.map_eq_some_iff.mp hget.symm
    refine ⟨v.lastAt.getD "", ?_, hall k v hv⟩
    rw [← hlast]
    exact repoDetail_lastAt hv

theorem changeRequests_iff :
    (∀ g ∈ changeRequestGroups localeCompare activities,
        LatestAt changeRequestRef activities g.ref g.lastAt) ↔
      LastIsLatest changeRequestRef activities := by
  rw [← latestAt_iff keepsGreatest_changeRequest]
  constructor
  · intro hall k g hg
    have hmem : g ∈ changeRequestGroups localeCompare activities :=
      mem_sortBy.mpr (OrdMap.mem_values_iff.mpr ⟨k, hg⟩)
    exact changeRequestGroup_ref hg ▸ hall g hmem
  · intro hall g hg
    obtain ⟨k, hk⟩ := OrdMap.mem_values_iff.mp (mem_sortBy.mp hg)
    rw [changeRequestGroup_ref hk]
    exact hall k g hk

theorem sliceUpTo_sublist {α : Type} (limit : JsNumber) (l : List α) :
    (sliceUpTo limit l).Sublist l := by
  unfold sliceUpTo
  split
  · split
    · exact List.take_sublist _ l
    · exact List.Sublist.refl l
  · exact List.Sublist.refl l
  · exact List.Sublist.refl l

theorem sliceUpTo_zero {α : Type} (l : List α) : sliceUpTo (.finite 0) l = l := by
  rw [sliceUpTo, if_neg (lt_irrefl 0)]

theorem items_iff :
    (∀ limit, ∀ item ∈ busiestItems activities limit,
        LatestAt activityTargetRef activities item.ref item.lastAt ∧ item.latest ∈ activities ∧
          activityTargetRef item.latest = some item.ref ∧
          item.latest.occurredAt = item.lastAt) ↔
      LastIsLatest activityTargetRef activities := by
  rw [← latestAt_iff keepsGreatest_item]
  constructor
  · intro hall k item hitem
    have hmem : item ∈ busiestItems activities (.finite 0) := by
      rw [busiestItems, sliceUpTo_zero]
      exact mem_sortBy.mpr (OrdMap.mem_values_iff.mpr ⟨k, hitem⟩)
    exact (busiestItem_counts hitem).ref ▸ (hall _ item hmem).1
  · intro hall limit item hitem
    obtain ⟨k, hk⟩ := OrdMap.mem_values_iff.mp
      (mem_sortBy.mp ((sliceUpTo_sublist limit _).subset hitem))
    have hcounts := busiestItem_counts hk
    obtain ⟨hmem, hkey⟩ := List.mem_filter.mp hcounts.latest
    rw [hcounts.ref]
    exact ⟨hall k item hk, hmem, by simpa using hkey, hcounts.lastAt⟩

theorem itemsInOrder_iff :
    (∀ limit, (busiestItems activities limit).Pairwise
        fun x y => x.events = y.events → NoLater y.lastAt x.lastAt) ↔
      ∀ a b, LastText activityTargetRef activities a → LastText activityTargetRef activities b →
        eventsAbout activities a = eventsAbout activities b → a.occurredAt < b.occurredAt →
          NoLater a.occurredAt b.occurredAt := by
  rw [← busiestItems_inOrder_iff]
  constructor
  · intro hall
    have hzero := hall (.finite 0)
    rwa [busiestItems, sliceUpTo_zero] at hzero
  · intro hall limit
    exact hall.sublist (sliceUpTo_sublist limit _)

/-- **The panes go by the instants exactly where text order does**, on rows
with an instant. -/
theorem recency_iff (localeCompare : String → String → Ordering) [Std.TransCmp localeCompare]
    (hapart : TellsTimestampsApart localeCompare) (activities : List RailActivity)
    (hparse : ∀ a ∈ activities, (dateParseAll a.occurredAt).isSome)
    (canonical : OrdMap String String) :
    RecencyIsInstants localeCompare activities canonical ↔
      TextFollowsInstants localeCompare activities := by
  constructor
  · intro h
    exact ⟨repos_iff.mp h.repos, changeRequests_iff.mp h.changeRequests, items_iff.mp h.items,
      (changeRequestGroups_inOrder_iff hparse hapart).mp h.changeRequestsInOrder,
      itemsInOrder_iff.mp h.itemsInOrder⟩
  · intro h
    exact ⟨repos_iff.mpr h.repos, changeRequests_iff.mpr h.changeRequests, items_iff.mpr h.items,
      (changeRequestGroups_inOrder_iff hparse hapart).mpr h.betweenChangeRequests,
      itemsInOrder_iff.mpr h.betweenItems⟩

/-- **Where the rows' texts go by their instants, the panes do**, under the
order of the texts. -/
theorem textFollowsInstants_of_monotone
    (h : ∀ a ∈ activities, ∀ b ∈ activities, a.occurredAt ≤ b.occurredAt →
      NoLater a.occurredAt b.occurredAt) : TextFollowsInstants compare activities := by
  have hlast : ∀ key : RailActivity → Option String, LastIsLatest key activities :=
    fun _ a ha b hb hkey => h b hb a ha.mem (ha.last b hb hkey)
  exact ⟨hlast _, hlast _, hlast _,
    fun a b ha hb hlt => h a ha.mem b hb.mem (compare_lt_iff_lt.mp hlt).le,
    fun a b ha hb _ hlt => h a ha.mem b hb.mem hlt.le⟩

namespace TwoOffsets

theorem noBar : '|' ∉ "gitlab".toList := by decide

/-- A source of the rows. -/
def gitlab : SourceId := ⟨"gitlab", noBar⟩

/-- The details of a commit of a change request. -/
def commitOf (iid : ℤ) : Json :=
  .obj [("change_request", .obj [("ref", .str ("gitlab|acme/api!" ++ toString iid)),
    ("iid", .num iid 0)])]

/-- A commit that keeps its author's offset: 01:30 UTC on 9 March. -/
def committed : RailActivity :=
  { sourceId := gitlab, externalId := "a", kind := "commit", action := "pushed"
    projectPath := some "acme/api", targetKind := none, targetRef := none, targetIid := none
    title := none, actor := none, occurredAt := "2026-03-08T23:30:00-02:00"
    details := some (commitOf 7) }

/-- A comment on the change request, of 00:30 UTC, an hour before. -/
def commented : RailActivity :=
  { committed with
    externalId := "b", kind := "comment", targetRef := some "gitlab|acme/api!7"
    occurredAt := "2026-03-09T00:30:00Z", details := none }

/-- A second commit of the change request, of 00:45 UTC. -/
def amended : RailActivity :=
  { committed with externalId := "c", occurredAt := "2026-03-09T00:45:00+00:00" }

/-- Two commits of another change request, of 01:00 and 02:10 UTC. -/
def others : List RailActivity :=
  [{ committed with
      externalId := "d", occurredAt := "2026-03-09T02:00:00+01:00", details := some (commitOf 8) },
    { committed with
      externalId := "e", occurredAt := "2026-03-09T02:10:00Z", details := some (commitOf 8) }]

/-- The last row by its text is the second commit, in the repository, in the
change request and in the item; by its instant it is the first one. -/
theorem recency_textOrder :
    ¬ ∀ (activities : List RailActivity) (canonical : OrdMap String String),
      (∀ a ∈ activities, (dateParseAll a.occurredAt).isSome) →
        RecencyIsInstants compare activities canonical := by
  intro hall
  have hparse : ∀ a ∈ [committed, commented, amended], (dateParseAll a.occurredAt).isSome := by
    decide +kernel
  have hgroups := changeRequests_iff.mp (hall [committed, commented, amended] .empty hparse).changeRequests
  have hlast : LastText changeRequestRef [committed, commented, amended] amended :=
    ⟨by simp, by decide +kernel, by decide +kernel⟩
  have hle := hgroups amended hlast committed List.mem_cons_self (by decide +kernel)
    1773019800000 (by decide +kernel) 1773017100000 (by decide +kernel)
  exact absurd hle (by decide)

/-- Rows of three spellings whose texts go by their instants: two change
requests, and an item with a comment. -/
theorem recency_mixedOffsets :
    RecencyIsInstants compare (commented :: amended :: others) .empty := by
  refine (recency_iff compare (fun t u _ _ => Std.LawfulEqOrd.eq_of_compare) _ ?_ .empty).mpr
    (textFollowsInstants_of_monotone ?_)
  · decide +kernel
  · decide +kernel

end TwoOffsets

end SymphonyBoard
