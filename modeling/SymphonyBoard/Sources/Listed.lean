import SymphonyBoard.Sources.GitHub.Normalize
import SymphonyBoard.Sources.GitLab.Normalize
import SymphonyBoard.SyncEngine.MergedWrites
/-!
# What a payload lists

The links, activities, review threads and labels of an item, read off the
provider's fields of its node, connection by connection. A `NodeListing` says
that the rows of a node's bundle have just these keys, and
`NodeListing.includes_merged_iff` tells from the payloads what a merge loses.
-/

namespace SymphonyBoard

/-! ## Listings -/

section Listings

variable {P N : Type}

/-- What the nodes of an adapter list, as the keys of the rows they give. -/
structure NodeListing (A : Reader P N) where
  links : ItemKind → String → N → List EdgeRowKey
  activities : ItemKind → N → List String
  threads : ItemKind → N → List String
  labels : N → List String
  edges_bundle : ∀ kind id p,
    (A.bundle kind id p).edges.map (fun e => (e.type, e.fromEnd, e.toEnd)) = links kind id p
  activities_bundle : ∀ kind id p,
    (A.bundle kind id p).activities.map (·.endpoint) = (activities kind p).map A.endpointOf
  threads_bundle : ∀ kind id p,
    (A.bundle kind id p).reviewThreads.map (·.endpoint) = (threads kind p).map A.endpointOf
  labels_bundle : ∀ kind id p, (A.bundle kind id p).labels.map (·.name) = labels p

/-- The last record of some identity lists it. -/
def LastLists {K : Type} (merged : List (RawRecord P)) (keys : RawRecord P → List K) (k : K) :
    Prop :=
  ∃ other, Latest merged other ∧ k ∈ keys other

/-- What was listed is listed now, or under its key by some last record. -/
def StillListed {K I : Type} (merged : List (RawRecord P)) (keys : RawRecord P → List K)
    (key : I → K) (before now : List I) : Prop :=
  ∀ x ∈ before, x ∈ now ∨ LastLists merged keys (key x)

theorem stillListed_iff {K I : Type} {merged : List (RawRecord P)} {keys : RawRecord P → List K}
    {key : I → K} {before now : List I} {r' : RawRecord P} (hr' : Latest merged r')
    (hnow : ∀ x ∈ now, key x ∈ keys r') :
    StillListed merged keys key before now ↔ ∀ k ∈ before.map key, LastLists merged keys k := by
  rw [List.forall_mem_map]
  constructor
  · exact fun h x hx => (h x hx).elim (fun hx => ⟨r', hr', hnow x hx⟩) id
  · exact fun h x hx => Or.inr (h x hx)

namespace NodeListing

variable {A : Reader P N} (L : NodeListing A)

/-- The edges of the links a record lists. -/
def linkKeys (r : RawRecord P) : List EdgeRowKey :=
  (A.item? r).toList.flatMap fun item => L.links item.1 r.externalId item.2

/-- The activities a record lists, or is. -/
def activityKeys (r : RawRecord P) : List ItemEndpoint :=
  if r.entityKind = .activity then (A.toActivity r).toList.map (·.endpoint)
  else (A.item? r).toList.flatMap fun item => (L.activities item.1 item.2).map A.endpointOf

/-- The review threads a record lists. -/
def threadKeys (r : RawRecord P) : List ItemEndpoint :=
  (A.item? r).toList.flatMap fun item => (L.threads item.1 item.2).map A.endpointOf

/-- The names of the labels a record lists. -/
def labelNames (r : RawRecord P) : List String :=
  (A.item? r).toList.flatMap fun item => L.labels item.2

theorem item?_activity {r : RawRecord P} (h : r.entityKind = .activity) : A.item? r = none := by
  unfold Reader.item?
  rw [h]

section OfItem

variable {r : RawRecord P} {kind : ItemKind} {p : N} (h : A.OfItem r kind p)

include h

theorem linkKeys_of_item : L.linkKeys r = L.links kind r.externalId p := by
  simp [linkKeys, h.item?]

theorem activityKeys_of_item : L.activityKeys r = (L.activities kind p).map A.endpointOf := by
  simp [activityKeys, h.item?, h.entityKind_ne_activity]

theorem threadKeys_of_item : L.threadKeys r = (L.threads kind p).map A.endpointOf := by
  simp [threadKeys, h.item?]

theorem labelNames_of_item : L.labelNames r = L.labels p := by
  simp [labelNames, h.item?]

end OfItem

variable {L} {r : RawRecord P}

theorem reports_edge_iff (k : EdgeRowKey) :
    Reports A.normalize r (.edge k) ↔ k ∈ L.linkKeys r := by
  unfold Reports linkKeys
  by_cases hkind : r.entityKind = .activity
  · rw [item?_activity hkind, Reader.normalize_activity hkind]
    refine iff_of_false ?_ List.not_mem_nil
    rintro ⟨b, i, hb, hi, -⟩
    obtain ⟨a, -, rfl⟩ := Option.map_eq_some_iff.mp hb
    cases hi
  · rw [Reader.normalize_item hkind]
    cases A.item? r with
    | none => simp
    | some item =>
      obtain ⟨i, hi, -⟩ := A.item_bundle item.1 r.externalId item.2
      simp [← L.edges_bundle, hi]

theorem reports_activity_iff (k : ItemEndpoint) :
    Reports A.normalize r (.activity k) ↔ k ∈ L.activityKeys r := by
  unfold Reports activityKeys
  by_cases hkind : r.entityKind = .activity
  · rw [if_pos hkind, Reader.normalize_activity hkind]
    cases A.toActivity r <;> simp [activityBundle, eq_comm]
  · rw [if_neg hkind, Reader.normalize_item hkind]
    cases A.item? r with
    | none => simp
    | some item => simp [← L.activities_bundle item.1 r.externalId]

theorem reports_reviewThread_iff (k : ItemEndpoint) :
    Reports A.normalize r (.reviewThread k) ↔ k ∈ L.threadKeys r := by
  unfold Reports threadKeys
  by_cases hkind : r.entityKind = .activity
  · rw [item?_activity hkind, Reader.normalize_activity hkind]
    cases A.toActivity r <;> simp [activityBundle]
  · rw [Reader.normalize_item hkind]
    cases A.item? r with
    | none => simp
    | some item => simp [← L.threads_bundle item.1 r.externalId]

theorem labelled_iff (name : String) : Labelled A.normalize r name ↔ name ∈ L.labelNames r := by
  unfold Labelled labelNames
  by_cases hkind : r.entityKind = .activity
  · rw [item?_activity hkind, Reader.normalize_activity hkind]
    refine iff_of_false ?_ List.not_mem_nil
    rintro ⟨b, i, hb, hi, -⟩
    obtain ⟨a, -, rfl⟩ := Option.map_eq_some_iff.mp hb
    cases hi
  · rw [Reader.normalize_item hkind]
    cases A.item? r with
    | none => simp
    | some item =>
      obtain ⟨i, hi, -⟩ := A.item_bundle item.1 r.externalId item.2
      simp [← L.labels_bundle item.1 r.externalId, hi]

variable (L) in
/-- What a record of the first reads lists, some last record lists, and the
labels the first reads gave its item its last record lists. -/
structure Kept (primary merged : List (RawRecord P)) (r r' : RawRecord P) : Prop where
  links : ∀ k ∈ L.linkKeys r, LastLists merged L.linkKeys k
  activities : ∀ k ∈ L.activityKeys r, LastLists merged L.activityKeys k
  threads : ∀ k ∈ L.threadKeys r, LastLists merged L.threadKeys k
  labels : Latest primary r → ∀ name ∈ L.labelNames r, name ∈ L.labelNames r'

theorem kept_self {primary merged : List (RawRecord P)} (hr : Latest merged r) :
    L.Kept primary merged r r where
  links _ hk := ⟨r, hr, hk⟩
  activities _ hk := ⟨r, hr, hk⟩
  threads _ hk := ⟨r, hr, hk⟩
  labels _ _ hname := hname

/-- **What a merge loses, told from the payloads**: only of a record that a
later one of its identity replaces. -/
theorem includes_merged_iff (source : Source P) (startedAt : String)
    {primary refresh : List (RawRecord P)} (hknown : ∀ r ∈ primary ++ refresh, A.Knows r)
    (hids : IdsByKind (primary ++ refresh)) :
    (written source A.normalize startedAt (dedupeRecords (primary ++ refresh))).Includes
        (written source A.normalize startedAt primary) ↔
      ∀ r ∈ primary, ∀ r', Latest (primary ++ refresh) r' → r'.key = r.key → r' ≠ r →
        L.Kept primary (primary ++ refresh) r r' := by
  rw [SymphonyBoard.includes_merged_iff source startedAt (Reader.oneRecordEach hknown hids)]
  constructor
  · rintro ⟨hparts, hlabels⟩ r hr r' hr' hkey -
    refine ⟨fun k hk => ?_, fun k hk => ?_, fun k hk => ?_, fun hlast name hname => ?_⟩
    · obtain ⟨other, hother, hk⟩ := hparts r hr (.edge k) ((reports_edge_iff k).mpr hk)
      exact ⟨other, hother, (reports_edge_iff k).mp hk⟩
    · obtain ⟨other, hother, hk⟩ := hparts r hr (.activity k) ((reports_activity_iff k).mpr hk)
      exact ⟨other, hother, (reports_activity_iff k).mp hk⟩
    · obtain ⟨other, hother, hk⟩ :=
        hparts r hr (.reviewThread k) ((reports_reviewThread_iff k).mpr hk)
      exact ⟨other, hother, (reports_reviewThread_iff k).mp hk⟩
    · exact (labelled_iff name).mp
        (hlabels r hlast r' hr' hkey name ((labelled_iff name).mpr hname))
  · intro hreplaced
    have hall : ∀ r ∈ primary, ∀ r', Latest (primary ++ refresh) r' → r'.key = r.key →
        L.Kept primary (primary ++ refresh) r r' := by
      intro r hr r' hr' hkey
      by_cases hsame : r' = r
      · subst hsame
        exact kept_self hr'
      · exact hreplaced r hr r' hr' hkey hsame
    refine ⟨fun r hr x hx => ?_, fun r hlast r' hr' hkey name hname => ?_⟩
    · obtain ⟨r', hr', hkey⟩ := exists_latest (List.mem_append_left refresh hr)
      have hkept := hall r hr r' hr' hkey
      cases x with
      | edge k =>
        obtain ⟨other, hother, hk⟩ := hkept.links k ((reports_edge_iff k).mp hx)
        exact ⟨other, hother, (reports_edge_iff k).mpr hk⟩
      | activity k =>
        obtain ⟨other, hother, hk⟩ := hkept.activities k ((reports_activity_iff k).mp hx)
        exact ⟨other, hother, (reports_activity_iff k).mpr hk⟩
      | reviewThread k =>
        obtain ⟨other, hother, hk⟩ := hkept.threads k ((reports_reviewThread_iff k).mp hx)
        exact ⟨other, hother, (reports_reviewThread_iff k).mpr hk⟩
    · exact (labelled_iff name).mpr
        ((hall r hlast.mem r' hr' hkey).labels hlast name ((labelled_iff name).mp hname))

variable (L) in
/-- What the node of an item listed, the node last read of it lists; where
an activity or a thread is listed by another record too, that one may do. -/
structure StillLists (primary merged : List (RawRecord P)) (stillLinks : Prop) (r : RawRecord P)
    (kind : ItemKind) (p p' : N) : Prop where
  links : stillLinks
  activities : StillListed merged L.activityKeys A.endpointOf (L.activities kind p)
    (L.activities kind p')
  threads : StillListed merged L.threadKeys A.endpointOf (L.threads kind p) (L.threads kind p')
  labels : Latest primary r → L.labels p ⊆ L.labels p'

variable (L) in
/-- The later record carries on what the one it replaces listed, be it of an
item or an activity. -/
structure Carries (primary merged : List (RawRecord P)) (stillLinks : ItemKind → N → N → Prop)
    (r r' : RawRecord P) : Prop where
  item : ∀ kind p p', A.OfItem r kind p → A.OfItem r' kind p' →
    L.StillLists primary merged (stillLinks kind p p') r kind p p'
  activity : r.entityKind = .activity →
    StillListed merged L.activityKeys id (L.activityKeys r) (L.activityKeys r')

/-- The nodes of two records of an item are determined. -/
theorem Carries.of_item {primary merged : List (RawRecord P)}
    {stillLinks : ItemKind → N → N → Prop} {r' : RawRecord P} {kind : ItemKind} {p p' : N}
    (h : A.OfItem r kind p) (h' : A.OfItem r' kind p')
    (hs : L.StillLists primary merged (stillLinks kind p p') r kind p p') :
    L.Carries primary merged stillLinks r r' where
  item kind q q' hq hq' := by
    obtain ⟨rfl, rfl⟩ := Prod.mk.inj (Option.some.inj (h.item?.symm.trans hq.item?))
    obtain ⟨-, rfl⟩ := Prod.mk.inj (Option.some.inj (h'.item?.symm.trans hq'.item?))
    exact hs
  activity hactivity := absurd hactivity h.entityKind_ne_activity

section Kept

variable {primary merged : List (RawRecord P)} {r' : RawRecord P} (hr' : Latest merged r')

include hr'

/-- What is kept of an item. -/
theorem kept_iff_stillLists {kind : ItemKind} {p p' : N} (h : A.OfItem r kind p)
    (h' : A.OfItem r' kind p') {stillLinks : Prop}
    (hlinks : (∀ k ∈ L.linkKeys r, LastLists merged L.linkKeys k) ↔ stillLinks) :
    L.Kept primary merged r r' ↔ L.StillLists primary merged stillLinks r kind p p' := by
  have hactivities : StillListed merged L.activityKeys A.endpointOf (L.activities kind p)
      (L.activities kind p') ↔ ∀ k ∈ L.activityKeys r, LastLists merged L.activityKeys k := by
    rw [L.activityKeys_of_item h]
    refine stillListed_iff hr' fun id hid => ?_
    rw [L.activityKeys_of_item h']
    exact List.mem_map_of_mem hid
  have hthreads : StillListed merged L.threadKeys A.endpointOf (L.threads kind p)
      (L.threads kind p') ↔ ∀ k ∈ L.threadKeys r, LastLists merged L.threadKeys k := by
    rw [L.threadKeys_of_item h]
    refine stillListed_iff hr' fun id hid => ?_
    rw [L.threadKeys_of_item h']
    exact List.mem_map_of_mem hid
  have hlabels : (Latest primary r → L.labels p ⊆ L.labels p') ↔
      (Latest primary r → ∀ name ∈ L.labelNames r, name ∈ L.labelNames r') := by
    rw [L.labelNames_of_item h, L.labelNames_of_item h']
    exact Iff.rfl
  constructor
  · exact fun hkept => ⟨hlinks.mp hkept.links, hactivities.mpr hkept.activities,
      hthreads.mpr hkept.threads, hlabels.mpr hkept.labels⟩
  · exact fun hstill => ⟨hlinks.mpr hstill.links, hactivities.mp hstill.activities,
      hthreads.mp hstill.threads, hlabels.mp hstill.labels⟩

/-- What is kept of an activity. -/
theorem kept_iff_activity (hactivity : r.entityKind = .activity) :
    L.Kept primary merged r r' ↔
      StillListed merged L.activityKeys id (L.activityKeys r) (L.activityKeys r') := by
  have hnone : A.item? r = none := item?_activity hactivity
  have hiff : StillListed merged L.activityKeys id (L.activityKeys r) (L.activityKeys r') ↔
      ∀ k ∈ (L.activityKeys r).map id, LastLists merged L.activityKeys k :=
    stillListed_iff hr' fun _ hk => hk
  rw [List.map_id] at hiff
  constructor
  · exact fun hkept => hiff.mpr hkept.activities
  · refine fun hstill => ⟨?_, hiff.mp hstill, ?_, fun _ => ?_⟩
    · simp [linkKeys, hnone]
    · simp [threadKeys, hnone]
    · simp [labelNames, hnone]

/-- **What is kept of a record**, told from the payloads. -/
theorem kept_iff_carries {stillLinks : ItemKind → N → N → Prop} (hknown : A.Knows r)
    (hknown' : A.Knows r') (hkey : r'.key = r.key)
    (hlinks : ∀ kind p p', A.OfItem r kind p → A.OfItem r' kind p' →
      ((∀ k ∈ L.linkKeys r, LastLists merged L.linkKeys k) ↔ stillLinks kind p p')) :
    L.Kept primary merged r r' ↔ L.Carries primary merged stillLinks r r' := by
  obtain ⟨hkinds, -⟩ := Prod.mk.inj hkey
  rcases hknown with hactivity | ⟨kind, p, h⟩
  · rw [kept_iff_activity hr' hactivity]
    constructor
    · exact fun hstill => ⟨fun _ _ _ h => absurd hactivity h.entityKind_ne_activity,
        fun _ => hstill⟩
    · exact fun hcarries => hcarries.activity hactivity
  · obtain ⟨kind₂, p', h₂⟩ := hknown'.ofItem (by rw [hkinds]; exact h.entityKind_ne_activity)
    obtain rfl : kind₂ = kind := by
      have := h₂.entityKind.symm.trans (hkinds.trans h.entityKind)
      revert this
      cases kind₂ <;> cases kind <;> simp [ItemKind.entityKind]
    rw [kept_iff_stillLists hr' h h₂ (hlinks kind₂ p p' h h₂)]
    exact ⟨Carries.of_item h h₂, fun hcarries => hcarries.item kind₂ p p' h h₂⟩

end Kept

/-- **What a merge loses**, for links that are kept as `stillLinks` says. -/
theorem includes_merged_iff_carries (source : Source P) (startedAt : String)
    {primary refresh : List (RawRecord P)} (hknown : ∀ r ∈ primary ++ refresh, A.Knows r)
    (hids : IdsByKind (primary ++ refresh))
    {stillLinks : RawRecord P → RawRecord P → ItemKind → N → N → Prop}
    (hlinks : ∀ r r' kind p p', Latest (primary ++ refresh) r' → r'.externalId = r.externalId →
      A.OfItem r kind p → A.OfItem r' kind p' →
        ((∀ k ∈ L.linkKeys r, LastLists (primary ++ refresh) L.linkKeys k) ↔
          stillLinks r r' kind p p')) :
    (written source A.normalize startedAt (dedupeRecords (primary ++ refresh))).Includes
        (written source A.normalize startedAt primary) ↔
      ∀ r ∈ primary, ∀ r', Latest (primary ++ refresh) r' → r'.key = r.key → r' ≠ r →
        L.Carries primary (primary ++ refresh) (stillLinks r r') r r' := by
  rw [L.includes_merged_iff source startedAt hknown hids]
  refine forall₂_congr fun r hr => forall₄_congr fun r' hr' hkey _ => ?_
  exact kept_iff_carries hr' (hknown r (List.mem_append_left _ hr)) (hknown r' hr'.mem) hkey
    fun kind p p' => hlinks r r' kind p p' hr' (Prod.mk.inj hkey).2

end NodeListing

end Listings

/-- Dropping and building in one pass, then keying. -/
theorem map_filterMap_ite {α β γ : Type} (drop : α → Prop) [DecidablePred drop] (build : α → β)
    (key : β → γ) (l : List α) :
    (l.filterMap fun x => if drop x then none else some (build x)).map key =
      (l.filter fun x => ¬ drop x).map fun x => key (build x) := by
  induction l with
  | nil => rfl
  | cons x l ih =>
    by_cases hx : drop x
    · simp [hx, ih]
    · simp [hx, ih]

/-! ## Times -/

/-- The activities an item's times give: its opening, and its merge or else
its closing. -/
def transitionIds (id : String) (createdAt mergedAt closedAt : Option String) : List String :=
  let stamped := fun action time =>
    stableActivityId [some "item", some id, some action, some time]
  ((nonEmpty createdAt).map (stamped "opened")).toList ++
    match nonEmpty mergedAt, nonEmpty closedAt with
    | some time, _ => [stamped "merged" time]
    | none, some time => [stamped "closed" time]
    | none, none => []

theorem endpoint_itemActivities (item : CanonicalItem)
    (h : item.kind = .issue → item.mergedAt = none) :
    (itemActivities item).map (·.endpoint) =
      (transitionIds item.externalId item.createdAt item.mergedAt item.closedAt).map
        (ItemEndpoint.mk item.sourceId) := by
  have hopened : (((nonEmpty item.createdAt).map (transitionActivity item "opened")).toList).map
      (·.endpoint) = (((nonEmpty item.createdAt).map fun time =>
        stableActivityId [some "item", some item.externalId, some "opened", some time]).toList).map
          (ItemEndpoint.mk item.sourceId) := by
    cases nonEmpty item.createdAt <;> rfl
  unfold itemActivities transitionIds
  rw [List.map_append, List.map_append, hopened]
  congr 1
  cases hkind : item.kind with
  | issue =>
    rw [h hkind]
    cases nonEmpty item.closedAt <;> rfl
  | changeRequest =>
    cases nonEmpty item.mergedAt <;> cases nonEmpty item.closedAt <;> rfl

/-! ## GitLab -/

namespace GitLab

/-- The merge requests that close it. -/
def Node.closers (p : Node) : List String := p.relatedMergeRequests.map (·.id)

/-- The other items whose notes mention it; an issue's closing merge
requests are not said to mention it. -/
def Node.mentioners (p : Node) (kind : ItemKind) (self : String) : List String :=
  (p.mentions.filter fun m => ¬ (m.externalId = "" ∨ m.externalId = self ∨
    kind = .issue ∧ m.externalId ∈ p.closers)).map (·.externalId)

/-- The other items it is marked as related to. -/
def Node.relatives (p : Node) (self : String) : List String :=
  (p.relates.filter fun r => ¬ (r.externalId = "" ∨ r.externalId = self)).map (·.externalId)

/-- Who approved it, if there is a time to date the approval by. -/
def Node.approvers (p : Node) : List String :=
  if p.mergedAt.getD p.updatedAt = "" then [] else p.approvedBy.filter (· ≠ "")

/-- The id of an approval. -/
def approvalId (id username : String) : String :=
  stableActivityId [some "review", some id, some "approved", some username]

/-- The activities its times and a merge request's approvers give. -/
def Node.activityIds : ItemKind → Node → List String
  | .changeRequest, p =>
    transitionIds p.id p.createdAt p.mergedAt p.closedAt ++ p.approvers.map (approvalId p.id)
  | .issue, p => transitionIds p.id p.createdAt none p.closedAt

/-- A merge request's discussions with a note that can be resolved. -/
def Node.threadIds : ItemKind → Node → List String
  | .changeRequest, p =>
    p.discussions.filterMap fun d =>
      if d.notes.filter (·.resolvable) = [] then none else nonEmpty d.id
  | .issue, _ => []

/-- The titles of its labels. -/
def Node.titles (p : Node) : List String := p.labels.map (·.title)

end GitLab

namespace GitLabSource

open GitLab

variable (src : GitLabSource)

/-- The edge of two related items, its ends in order. -/
def relatesKey (self id : String) : EdgeRowKey :=
  if self < id then (.relates, src.reader.endpointOf self, src.reader.endpointOf id)
  else (.relates, src.reader.endpointOf id, src.reader.endpointOf self)

/-- The edges of the links a node lists. -/
def nodeLinks : ItemKind → String → Node → List EdgeRowKey
  | .changeRequest, self, p =>
    (p.mentioners .changeRequest self).map fun id =>
      (.mentions, src.reader.endpointOf id, src.reader.endpointOf self)
  | .issue, self, p =>
    p.closers.map (fun id => (.closes, src.reader.endpointOf id, src.reader.endpointOf self)) ++
      (p.relatives self).map (src.relatesKey self) ++
      (p.mentioners .issue self).map fun id => (.mentions, src.reader.endpointOf id, src.reader.endpointOf self)

section Keys

variable {src}

theorem key_mentionEdges (p : Node) (self : ItemEndpoint) (state : ItemState) (kind : ItemKind)
    (skip : List String) (hskip : ∀ id, id ∈ skip ↔ kind = .issue ∧ id ∈ p.closers) :
    (mentionEdges p self state skip).map (fun e => (e.type, e.fromEnd, e.toEnd)) =
      (p.mentioners kind self.externalId).map fun id =>
        (.mentions, ⟨self.sourceId, id⟩, self) := by
  unfold mentionEdges Node.mentioners
  rw [map_filterMap_ite, List.map_map]
  simp only [hskip]
  rfl

theorem key_relateEdges (p : Node) (id : String) (state : ItemState) :
    (relateEdges p (src.reader.endpointOf id) state).map (fun e => (e.type, e.fromEnd, e.toEnd)) =
      (p.relatives id).map (src.relatesKey id) := by
  have hbuild : relateEdges p (src.reader.endpointOf id) state = p.relates.filterMap fun r =>
      if r.externalId = "" ∨ r.externalId = id then none
      else some (if id < r.externalId then
        { type := .relates, fromEnd := src.reader.endpointOf id, toEnd := src.reader.endpointOf r.externalId,
          fromState := some state, toState := some (mapState r.state) }
      else
        { type := .relates, fromEnd := src.reader.endpointOf r.externalId, toEnd := src.reader.endpointOf id,
          fromState := some (mapState r.state), toState := some state }) := by
    unfold relateEdges
    congr 1
    funext r
    by_cases hdrop : r.externalId = "" ∨ r.externalId = id
    · rw [if_pos hdrop]
      exact if_pos hdrop
    · rw [if_neg hdrop]
      refine (if_neg hdrop).trans ?_
      by_cases hlt : id < r.externalId
      · rw [if_pos hlt]
        exact if_pos hlt
      · rw [if_neg hlt]
        exact if_neg hlt
  rw [hbuild, map_filterMap_ite, Node.relatives, List.map_map]
  refine List.map_congr_left fun r _ => ?_
  simp only [Function.comp_apply, relatesKey]
  split_ifs <;> rfl

theorem endpoint_approvalActivities (p : Node) (item : CanonicalItem) :
    (src.approvalActivities p item).map (·.endpoint) =
      (p.approvers.map (approvalId p.id)).map src.reader.endpointOf := by
  unfold approvalActivities Node.approvers
  by_cases hdate : p.mergedAt.getD p.updatedAt = ""
  · have hnone : nonEmpty (some (p.mergedAt.getD p.updatedAt)) = none := by
      simp [nonEmpty, hdate]
    rw [hnone, if_pos hdate]
    rfl
  · have hsome : nonEmpty (some (p.mergedAt.getD p.updatedAt)) =
        some (p.mergedAt.getD p.updatedAt) := by
      simp [nonEmpty, hdate]
    rw [hsome, if_neg hdate, List.map_map, List.map_map]
    rfl

theorem endpoint_reviewThreads (p : Node) (item : CanonicalItem) :
    (src.reviewThreads p item).map (·.endpoint) =
      (p.threadIds .changeRequest).map src.reader.endpointOf := by
  unfold reviewThreads Node.threadIds
  rw [List.map_filterMap, List.map_filterMap]
  congr 1
  funext d
  cases nonEmpty d.id with
  | none => simp
  | some id =>
    by_cases hnil : d.notes.filter (·.resolvable) = []
    · simp only [if_pos hnil, Option.map_none]
    · simp only [if_neg hnil, Option.map_some]
      rfl

end Keys

/-- What its nodes list. -/
def listing : NodeListing src.reader where
  links := src.nodeLinks
  activities := Node.activityIds
  threads := Node.threadIds
  labels := Node.titles
  edges_bundle kind id p := by
    cases kind with
    | changeRequest => exact key_mentionEdges p _ _ .changeRequest [] (by simp)
    | issue =>
      have hrelates : (relateEdges p ⟨src.descriptor.sourceId, id⟩ (mapState p.state)).map
          (fun e => (e.type, e.fromEnd, e.toEnd)) = (p.relatives id).map (src.relatesKey id) :=
        key_relateEdges p id (mapState p.state)
      have hmentions := key_mentionEdges p ⟨src.descriptor.sourceId, id⟩ (mapState p.state) .issue
        (p.relatedMergeRequests.map (·.id)) (by simp [Node.closers])
      simp only [reader, normalizeIssue, List.map_append]
      rw [hmentions, hrelates, List.map_map, nodeLinks, Node.closers, List.map_map]
      rfl
  activities_bundle kind id p := by
    cases kind with
    | changeRequest =>
      simp only [reader, normalizeMergeRequest, Node.activityIds, List.map_append]
      rw [endpoint_approvalActivities, endpoint_itemActivities _ (fun h => by cases h)]
      rfl
    | issue => exact endpoint_itemActivities _ fun _ => rfl
  threads_bundle kind id p := by
    cases kind with
    | changeRequest => exact endpoint_reviewThreads p _
    | issue => rfl
  labels_bundle kind id p := by
    cases kind <;> simp [reader, normalizeMergeRequest, normalizeIssue, labels, Node.titles, toLabel]

end GitLabSource

/-! ## GitHub -/

namespace GitHub

/-- The issues it closes. -/
def Node.closing (p : Node) : List String := p.closingIssues.map (·.id)

/-- The pull requests that close it. -/
def Node.closers (p : Node) : List String := p.closedByPullRequests.map (·.id)

/-- The items whose reference to it does not close it. -/
def Node.mentioners (p : Node) : List String :=
  p.crossReferences.filterMap fun ev =>
    ev.source.bind fun source => if source.id = "" ∨ ev.willCloseTarget then none else some source.id

/-- The id of a submitted review. -/
def reviewId (id : String) (r : Review) (submittedAt : String) : String :=
  stableActivityId [some "review", some id, r.id.or (some submittedAt)]

/-- Its submitted reviews. -/
def Node.reviewIds (p : Node) : List String :=
  p.reviews.filterMap fun r => (nonEmpty r.submittedAt).map (reviewId p.id r)

/-- The activities its times and a pull request's reviews give. -/
def Node.activityIds : ItemKind → Node → List String
  | .changeRequest, p => transitionIds p.id p.createdAt p.mergedAt p.closedAt ++ p.reviewIds
  | .issue, p => transitionIds p.id p.createdAt none p.closedAt

/-- A pull request's review threads, once all their pages are read. -/
def Node.threadIds : ItemKind → Node → List String
  | .changeRequest, p =>
    match p.reviewThreads with
    | none => []
    | some rt => if rt.hasNextPage then [] else rt.nodes.filterMap fun t => nonEmpty t.id
  | .issue, _ => []

/-- The names of its labels. -/
def Node.labelNames (p : Node) : List String := p.labels.map (·.name)

end GitHub

namespace GitHubSource

open GitHub

variable (src : GitHubSource)

/-- The edges of the phase table of an issue. -/
def phaseKeys (self : String) (p : Node) : List EdgeRowKey :=
  (src.trackerEdges p (src.reader.endpointOf self) (mapState p.state)).map fun e =>
    (e.type, e.fromEnd, e.toEnd)

/-- The edges of the links a node lists. -/
def nodeLinks : ItemKind → String → Node → List EdgeRowKey
  | .changeRequest, self, p =>
    p.closing.map (fun id => (.closes, src.reader.endpointOf self, src.reader.endpointOf id)) ++
      p.mentioners.map fun id => (.mentions, src.reader.endpointOf id, src.reader.endpointOf self)
  | .issue, self, p =>
    p.closers.map (fun id => (.closes, src.reader.endpointOf id, src.reader.endpointOf self)) ++
      p.mentioners.map (fun id => (.mentions, src.reader.endpointOf id, src.reader.endpointOf self)) ++
      src.phaseKeys self p

section Keys

variable {src}

theorem key_mentionEdges (p : Node) (self : ItemEndpoint) (state : ItemState) :
    (mentionEdges p self state).map (fun e => (e.type, e.fromEnd, e.toEnd)) =
      p.mentioners.map fun id => (.mentions, ⟨self.sourceId, id⟩, self) := by
  unfold mentionEdges Node.mentioners
  rw [List.map_filterMap, List.map_filterMap]
  congr 1
  funext ev
  cases ev.source with
  | none => rfl
  | some source =>
    by_cases hdrop : source.id = "" ∨ ev.willCloseTarget
    · simp only [if_pos hdrop, Option.bind_some, Option.map_none]
    · simp only [if_neg hdrop, Option.bind_some, Option.map_some]

theorem endpoint_reviewActivities (p : Node) (item : CanonicalItem) :
    (src.reviewActivities p item).map (·.endpoint) = p.reviewIds.map src.reader.endpointOf := by
  unfold reviewActivities Node.reviewIds
  rw [List.map_filterMap, List.map_filterMap]
  congr 1
  funext r
  cases nonEmpty r.submittedAt <;> rfl

theorem endpoint_reviewThreads (p : Node) (item : CanonicalItem) :
    (src.reviewThreads p item).map (·.endpoint) =
      (p.threadIds .changeRequest).map src.reader.endpointOf := by
  simp only [reviewThreads, Node.threadIds]
  cases p.reviewThreads with
  | none => rfl
  | some rt =>
    by_cases hnext : rt.hasNextPage
    · simp only [if_pos hnext, List.map_nil]
    · simp only [if_neg hnext]
      rw [List.map_filterMap, List.map_filterMap]
      congr 1
      funext t
      cases nonEmpty t.id <;> rfl

end Keys

/-- What its nodes list. -/
def listing : NodeListing src.reader where
  links := src.nodeLinks
  activities := Node.activityIds
  threads := Node.threadIds
  labels := Node.labelNames
  edges_bundle kind id p := by
    have hmentions := key_mentionEdges p ⟨src.descriptor.sourceId, id⟩ (mapState p.state)
    cases kind with
    | changeRequest =>
      simp only [reader, normalizePullRequest, List.map_append]
      rw [hmentions, List.map_map, nodeLinks, Node.closing, List.map_map]
      rfl
    | issue =>
      simp only [reader, normalizeIssue, List.map_append]
      rw [hmentions, List.map_map, nodeLinks, Node.closers, List.map_map]
      rfl
  activities_bundle kind id p := by
    cases kind with
    | changeRequest =>
      simp only [reader, normalizePullRequest, Node.activityIds, List.map_append]
      rw [endpoint_reviewActivities, endpoint_itemActivities _ (fun h => by cases h)]
      rfl
    | issue => exact endpoint_itemActivities _ fun _ => rfl
  threads_bundle kind id p := by
    cases kind with
    | changeRequest => exact endpoint_reviewThreads p _
    | issue => rfl
  labels_bundle kind id p := by
    cases kind <;>
      simp [reader, normalizePullRequest, normalizeIssue, labels, Node.labelNames, toLabel]

end GitHubSource

end SymphonyBoard
