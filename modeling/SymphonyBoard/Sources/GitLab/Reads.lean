import Mathlib.Data.List.TakeWhile
import SymphonyBoard.Sources.GitLab.Fetch
/-!
# What the GitLab fetch reads

The loop over a listing's pages in terms of where following the pages
leads (`bulkPages_full`) and of a fixed listing handed out in order
(`bulkPages_serves`), and what of it ends up in the records of the fetch.
-/

namespace SymphonyBoard

namespace GitLab

/-! ## One listing -/

/-- The loop's ending for an end of the pages. -/
def endingOf : PagesEnd String → ListingEnd
  | .lastPage => .lastPage
  | .noListing => .noConnection
  | .failed msg => .failed msg

theorem takeWhile_fresh_none (nodes : List Node) :
    (nodes.takeWhile fun node => notOlder none node.updatedAt) = nodes :=
  List.takeWhile_eq_self_iff.mpr fun _ _ => rfl

/-- **Without a watermark the loop follows the pages** to where they end,
or reads as many as it may, all with a next page. -/
theorem bulkPages_full (listing : Listing) (left : Nat) (s : Nat × Option String) :
    (∃ n l o, n < left ∧ ReadsTo (request listing) s n l o ∧
      bulkPages none listing left s = (l, endingOf o)) ∨
    (∃ l, ReadsFirst (request listing) s left l ∧
      bulkPages none listing left s = (l, .pageCap)) := by
  induction left generalizing s with
  | zero => exact Or.inr ⟨[], .nil s, rfl⟩
  | succ left ih =>
    rw [bulkPages]
    cases hreq : request listing s with
    | error msg => exact Or.inl ⟨0, [], .failed msg, by omega, .failed hreq, rfl⟩
    | ok found =>
      rcases found with _ | ⟨page, s'⟩
      · exact Or.inl ⟨0, [], .noListing, by omega, .noListing hreq, rfl⟩
      · simp only [takeWhile_fresh_none, lt_irrefl, if_false]
        cases hnext : page.hasNextPage with
        | false =>
          exact Or.inl ⟨0, page.nodes, .lastPage, by omega, .last hreq hnext, rfl⟩
        | true =>
          simp only [Bool.true_eq_false, if_false]
          rcases ih s' with ⟨n, l, o, hn, hr, heq⟩ | ⟨l, hr, heq⟩
          · exact Or.inl ⟨n + 1, page.nodes ++ l, o, by omega, .more hreq hnext hr, by rw [heq]⟩
          · exact Or.inr ⟨page.nodes ++ l, .page hreq hnext hr, by rw [heq]⟩

/-- **With a watermark the loop reads a fixed listing down to it**, when
it stops where it may. -/
theorem bulkPages_serves {since : Option String} {listing : Listing}
    {remaining : Nat × Option String → List Node} (hs : Serves (request listing) remaining)
    (left : Nat) (s : Nat × Option String)
    (hend : (bulkPages since listing left s).2.ReadThrough) :
    (bulkPages since listing left s).1 =
      (remaining s).takeWhile fun node => notOlder since node.updatedAt := by
  induction left generalizing s with
  | zero => rcases hend with h | h <;> cases h
  | succ left ih =>
    rw [bulkPages] at hend ⊢
    cases hreq : request listing s with
    | error msg =>
      rw [hreq] at hend
      rcases hend with h | h <;> cases h
    | ok found =>
      rw [hreq] at hend
      rcases found with _ | ⟨page, s'⟩
      · rcases hend with h | h <;> cases h
      · have hrem := hs.page s page s' hreq
        simp only at hend ⊢
        split at hend
        · -- an older node on the page
          rename_i hlt
          rw [if_pos hlt, hrem, List.takeWhile_append, if_neg (by omega)]
        · rename_i hlt
          have hall : page.nodes.takeWhile (fun node => notOlder since node.updatedAt) =
              page.nodes :=
            (List.takeWhile_prefix _).eq_of_length_le (by omega)
          rw [if_neg hlt]
          split at hend
          · rename_i hnext
            rw [if_pos hnext, hall, hrem, hs.last s page s' hreq hnext, List.append_nil, hall]
          · rename_i hnext
            rw [if_neg hnext, ih s' hend, hall, hrem, List.takeWhile_append, if_pos (by rw [hall])]

/-! ## Records -/

theorem attachDetails_id (hasRest : Bool) (answers : ResolveAnswers) (kind : RefKind)
    (node : Node) : (attachDetails hasRest answers kind node).1.id = node.id := by
  unfold attachDetails
  split
  · rfl
  · rfl
  · simp only
    split <;> rfl

/-- A record of an item: its kind, and its id on the record and on the
payload. -/
structure RecordFor (kind : RefKind) (id : String) (r : RawRecord Payload) : Prop where
  entityKind : r.entityKind = entityKind kind
  externalId : r.externalId = id
  payload : ∃ p, r.payload = .node p ∧ p.id = id

theorem resolveItem_record (hasRest : Bool) (now : String)
    (index : OrdMap (String × RefKind × String) ResolvedRef) (answers : ResolveAnswers)
    (c : Collected) :
    RecordFor c.kind c.node.id (resolveItem hasRest now index answers c).1 where
  entityKind := rfl
  externalId := attachDetails_id hasRest answers c.kind c.node
  payload := ⟨_, rfl, attachDetails_id hasRest answers c.kind c.node⟩

/-- The provider's listing of one kind in one project. -/
def Answers.listing (answers : Answers) : RefKind → Nat → Listing
  | .changeRequest => answers.mergeRequests
  | .issue => answers.issues

end GitLab

open GitLab

namespace GitLabSource

variable (src : GitLabSource) (now : String) (since : Option String) (answers : Answers)

/-- What the sweep reads of one listing. -/
def listingRead (kind : RefKind) (i : Nat) : List Node × ListingEnd :=
  bulkPages since (answers.listing kind i) maxPages (0, none)

/-- Both listings of every project are read. -/
theorem mem_bulkReads {i : Nat} {project : String} (h : src.projects[i]? = some project)
    (kind : RefKind) :
    bulkRead since kind project (answers.listing kind i) ∈
      bulkReads since src.projects answers := by
  refine List.mem_flatMap.mpr ⟨(project, i), List.mem_zipIdx_iff_getElem?.mpr h, ?_⟩
  cases kind <;> simp [Answers.listing]

/-- Nothing else is. -/
theorem of_mem_bulkReads {b : BulkRead} (h : b ∈ bulkReads since src.projects answers) :
    ∃ i project kind, src.projects[i]? = some project ∧
      b = bulkRead since kind project (answers.listing kind i) := by
  obtain ⟨⟨project, i⟩, hi, hb⟩ := List.mem_flatMap.mp h
  have hi := List.mem_zipIdx_iff_getElem?.mp hi
  simp only [List.mem_cons, List.not_mem_nil, or_false] at hb
  rcases hb with rfl | rfl
  · exact ⟨i, project, .changeRequest, hi, rfl⟩
  · exact ⟨i, project, .issue, hi, rfl⟩

/-- Every node the sweep collects has a record. -/
theorem mem_records_of_collected {c : Collected} (h : c ∈ src.collected since answers) :
    ∃ r ∈ (src.resolved now since answers).map (·.1), RecordFor c.kind c.node.id r := by
  obtain ⟨i, hi⟩ := List.mem_iff_getElem?.mp h
  have hmem : (c, i) ∈ (src.collected since answers).zipIdx := List.mem_zipIdx_iff_getElem?.mpr hi
  exact ⟨_, List.mem_map.mpr ⟨_, List.mem_map.mpr ⟨(c, i), hmem, rfl⟩, rfl⟩,
    resolveItem_record src.hasRest now _ (answers.resolve i) c⟩

/-- A node of a listing the sweep reads has a record. -/
theorem mem_records_of_read {i : Nat} {project : String} (h : src.projects[i]? = some project)
    {kind : RefKind} {node : Node} (hnode : node ∈ (listingRead since answers kind i).1) :
    ∃ r ∈ (src.resolved now since answers).map (·.1), RecordFor kind node.id r :=
  src.mem_records_of_collected now since answers
    (List.mem_flatMap.mpr ⟨_, src.mem_bulkReads since answers h kind,
      List.mem_map.mpr ⟨node, hnode, rfl⟩⟩)

/-- And every record of an item comes from a listing the sweep reads. -/
theorem read_of_mem_records {r : RawRecord Payload}
    (h : r ∈ (src.resolved now since answers).map (·.1)) :
    ∃ i project kind node, src.projects[i]? = some project ∧
      node ∈ (listingRead since answers kind i).1 ∧ RecordFor kind node.id r := by
  obtain ⟨_, hres, rfl⟩ := List.mem_map.mp h
  obtain ⟨⟨c, k⟩, hk, rfl⟩ := List.mem_map.mp hres
  have hrec := resolveItem_record src.hasRest now (indexItems (src.collected since answers))
    (answers.resolve k) c
  have hc := List.mem_of_getElem? (List.mem_zipIdx_iff_getElem?.mp hk)
  obtain ⟨b, hb, hc⟩ := List.mem_flatMap.mp hc
  obtain ⟨i, project, kind, hi, rfl⟩ := src.of_mem_bulkReads since answers hb
  obtain ⟨node, hnode, rfl⟩ := List.mem_map.mp hc
  exact ⟨i, project, kind, node, hi, hnode, hrec⟩

/-- A record of an item is one for the reader. -/
theorem ofItem_of_recordFor {kind : RefKind} {id : String} {r : RawRecord Payload}
    (h : RecordFor kind id r) : ∃ itemKind p, src.reader.OfItem r itemKind p := by
  obtain ⟨p, hp, hid⟩ := h.payload
  have hnode : src.reader.node? r.payload = some p := by rw [hp]; rfl
  have hself : src.reader.nodeId p = r.externalId := hid.trans h.externalId.symm
  cases kind with
  | issue => exact ⟨.issue, p, h.entityKind, hnode, hself⟩
  | changeRequest => exact ⟨.changeRequest, p, h.entityKind, hnode, hself⟩

/-- A record of an item normalizes to that item. -/
theorem normalizesTo_iff {kind : RefKind} {id : String} {r : RawRecord Payload}
    (h : RecordFor kind id r) (k : ItemEndpoint) :
    NormalizesTo src.normalize r k ↔ k = ⟨src.descriptor.sourceId, id⟩ := by
  obtain ⟨_, _, hitem⟩ := src.ofItem_of_recordFor h
  rw [src.normalize_eq, hitem.normalizesTo_iff, h.externalId]
  rfl

/-- The records of the activity feeds are of no item. -/
theorem entityKind_of_activityReads {r : RawRecord Payload}
    (h : r ∈ (src.activityReads now answers).flatMap fun
      | .ok read => read.1
      | .error _ => []) : r.entityKind = .activity := by
  obtain ⟨read, hread, hr⟩ := List.mem_flatMap.mp h
  unfold activityReads at hread
  split at hread
  · obtain ⟨⟨project, i⟩, -, rfl⟩ := List.mem_map.mp hread
    cases ha : answers.activity i with
    | error msg =>
      simp only [ha] at hr
      cases hr
    | ok rows =>
      simp only [ha, projectActivity] at hr
      rcases List.mem_append.mp hr with hr | hr
      · obtain ⟨_, -, rfl⟩ := List.mem_map.mp hr
        rfl
      · obtain ⟨_, -, rfl⟩ := List.mem_map.mp hr
        rfl
  · cases hread

theorem not_normalizesTo_activity {r : RawRecord Payload} (h : r.entityKind = .activity)
    (k : ItemEndpoint) : ¬ NormalizesTo src.normalize r k := by
  rw [src.normalize_eq]
  exact Reader.not_normalizesTo_activity h k

/-- **The items of a fetch** are the nodes it read in the listings. -/
theorem normalizesTo_fetch_iff {opts : FetchOptions} {k : ItemEndpoint}
    (hk : k.sourceId = src.descriptor.sourceId) :
    (∃ r ∈ (src.fetch opts now answers).records, NormalizesTo src.normalize r k) ↔
      ∃ i project kind, src.projects[i]? = some project ∧
        ∃ node ∈ (listingRead (sinceOf opts) answers kind i).1, node.id = k.externalId := by
  constructor
  · rintro ⟨r, hr, hto⟩
    rcases List.mem_append.mp hr with hr | hr
    · obtain ⟨i, project, kind, node, hi, hnode, hrec⟩ :=
        src.read_of_mem_records now (sinceOf opts) answers hr
      refine ⟨i, project, kind, hi, node, hnode, ?_⟩
      rw [(src.normalizesTo_iff hrec k).mp hto]
    · exact absurd hto
        (src.not_normalizesTo_activity (src.entityKind_of_activityReads now answers hr) k)
  · rintro ⟨i, project, kind, hi, node, hnode, hid⟩
    obtain ⟨r, hr, hrec⟩ := src.mem_records_of_read now (sinceOf opts) answers hi hnode
    refine ⟨r, List.mem_append_left _ hr, (src.normalizesTo_iff hrec k).mpr ?_⟩
    rw [hid, ← hk]

/-- A refreshed record is of a merge request. -/
theorem recordFor_of_mem_fetchRefresh {candidates : List RefreshCandidate} {r : RawRecord Payload}
    (hr : r ∈ (src.fetchRefresh now answers candidates).records) :
    RecordFor .changeRequest r.externalId r := by
  obtain ⟨outcome, ho, hrec⟩ := List.mem_filterMap.mp hr
  obtain ⟨⟨target, i⟩, -, rfl⟩ := List.mem_map.mp ho
  simp only [refreshItem] at hrec
  split at hrec
  · cases hrec
  · cases hrec
  · split at hrec
    · cases hrec
    · obtain rfl := Option.some.inj hrec
      exact ⟨rfl, rfl, _, rfl, rfl⟩

/-- The fetch and the refresh yield what the reader knows. -/
theorem reads : src.reader.Reads (src.toSource now answers) where
  fetched _ _ h r hr := by
    obtain rfl := Except.ok.inj h
    rcases List.mem_append.mp hr with hr | hr
    · obtain ⟨_, _, kind, node, -, -, hrec⟩ := src.read_of_mem_records now _ answers hr
      exact Or.inr (src.ofItem_of_recordFor hrec)
    · exact Or.inl (src.entityKind_of_activityReads now answers hr)
  refreshed _ hf _ _ _ h r hr := by
    obtain rfl := Option.some.inj hf
    obtain rfl := Except.ok.inj h
    exact Or.inr (src.ofItem_of_recordFor (src.recordFor_of_mem_fetchRefresh now answers hr))

/-- A complete fetch met no error in any listing. -/
theorem not_failed_of_complete {opts : FetchOptions}
    (hc : (src.fetch opts now answers).complete = true) {i : Nat} {project : String}
    (h : src.projects[i]? = some project) (kind : RefKind) (msg : String) :
    (listingRead (sinceOf opts) answers kind i).2 ≠ .failed msg := by
  intro hfail
  simp only [fetch, fetchErrors, List.isEmpty_iff, List.append_eq_nil_iff,
    List.filterMap_eq_nil_iff] at hc
  have := hc.1.1 _ (src.mem_bulkReads (sinceOf opts) answers h kind)
  simp only [BulkRead.error, bulkRead] at this
  rw [listingRead] at hfail
  rw [hfail] at this
  cases this

end GitLabSource

end SymphonyBoard
