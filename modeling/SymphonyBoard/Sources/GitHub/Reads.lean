import Mathlib.Data.List.Forall2
import Mathlib.Data.List.TakeWhile
import SymphonyBoard.Sources.GitHub.Fetch
/-!
# What the GitHub fetch reads

The loop over a listing's pages in terms of where following the pages
leads (`listPages_full`) and of a fixed listing handed out in order
(`listPages_serves`), and what of it ends up in the records of the fetch.
-/

namespace SymphonyBoard

namespace GitHub

/-- A record of an item: its kind, and its id on the record and on the
payload. -/
structure RecordFor (kind : RefKind) (id : String) (r : RawRecord Payload) : Prop where
  entityKind : r.entityKind = entityKind kind
  externalId : r.externalId = id
  payload : ∃ p, r.payload = .node p ∧ p.id = id

/-- The records are those of some nodes, one each and in order. -/
def RecordsOf (kind : RefKind) (records : List (RawRecord Payload)) (nodes : List Node) : Prop :=
  List.Forall₂ (fun r node => RecordFor kind node.id r) records nodes

theorem RecordsOf.append {kind : RefKind} {r r' : List (RawRecord Payload)} {l l' : List Node}
    (h : RecordsOf kind r l) (h' : RecordsOf kind r' l') : RecordsOf kind (r ++ r') (l ++ l') :=
  List.rel_append h h'

theorem RecordsOf.exists_record {kind : RefKind} {records : List (RawRecord Payload)}
    {nodes : List Node} (h : RecordsOf kind records nodes) {node : Node} (hn : node ∈ nodes) :
    ∃ r ∈ records, RecordFor kind node.id r := by
  induction h with
  | nil => cases hn
  | cons hr _ ih =>
    rcases List.mem_cons.mp hn with rfl | hn
    · exact ⟨_, List.mem_cons_self, hr⟩
    · obtain ⟨r, hmem, hr'⟩ := ih hn
      exact ⟨r, List.mem_cons_of_mem _ hmem, hr'⟩

theorem RecordsOf.exists_node {kind : RefKind} {records : List (RawRecord Payload)}
    {nodes : List Node} (h : RecordsOf kind records nodes) {r : RawRecord Payload}
    (hr : r ∈ records) : ∃ node ∈ nodes, RecordFor kind node.id r := by
  induction h with
  | nil => cases hr
  | cons hrec _ ih =>
    rcases List.mem_cons.mp hr with rfl | hr
    · exact ⟨_, List.mem_cons_self, hrec⟩
    · obtain ⟨node, hmem, hnode⟩ := ih hr
      exact ⟨node, List.mem_cons_of_mem _ hmem, hnode⟩

/-! ## Visits -/

/-- A visit keeps what identifies its node. -/
structure KeepsNode (visit : Visit) : Prop where
  id : ∀ pos node visited e, visit pos node = .ok (visited, e) → visited.id = node.id

/-- Completing the review threads changes nothing else. -/
theorem completeReviewThreads_eq {project : String} {answer : ThreadPages} {node node' : Node}
    (h : completeReviewThreads project answer node = .ok node') :
    ∃ conn, node' = { node with reviewThreads := conn } := by
  unfold completeReviewThreads at h
  split at h
  · exact ⟨node.reviewThreads, (Except.ok.inj h).symm⟩
  · split at h
    · exact ⟨node.reviewThreads, (Except.ok.inj h).symm⟩
    · split at h
      · simp only [bind, Except.bind, pure, Except.pure] at h
        split at h
        · cases h
        · exact ⟨_, (Except.ok.inj h).symm⟩
      · cases h

theorem completeReviewThreads_id {project : String} {answer : ThreadPages} {node node' : Node}
    (h : completeReviewThreads project answer node = .ok node') : node'.id = node.id := by
  obtain ⟨conn, rfl⟩ := completeReviewThreads_eq h
  rfl

theorem resolveTrackerRefs_id (project : String) (answer : Except String (Option TrackerRefs))
    (node : Node) : (resolveTrackerRefs project answer node).1.id = node.id := by
  unfold resolveTrackerRefs
  split <;> rfl

theorem keepsNode_visitOf (project : String) (refs : Nat → Except String (Option TrackerRefs))
    (threads : Nat → ThreadPages) (kind : RefKind) : KeepsNode (visitOf project refs threads kind) where
  id := by
    intro pos node visited e h
    cases kind with
    | issue =>
      have h : (resolveTrackerRefs project (refs pos) node).1 = visited :=
        congrArg Prod.fst (Except.ok.inj h)
      rw [← h]
      exact resolveTrackerRefs_id project (refs pos) node
    | changeRequest =>
      simp only [visitOf] at h
      cases hc : completeReviewThreads project (threads pos) node with
      | error msg =>
        rw [hc] at h
        cases h
      | ok node' =>
        rw [hc] at h
        have h : node' = visited := congrArg Prod.fst (Except.ok.inj h)
        rw [← h]
        exact completeReviewThreads_id hc

/-- The nodes down to the first one older than the watermark. -/
def freshNodes (since : Option String) (nodes : List Node) : List Node :=
  nodes.takeWhile fun node => notOlder since node.updatedAt

theorem freshNodes_none (nodes : List Node) : freshNodes none nodes = nodes :=
  List.takeWhile_eq_self_iff.mpr fun _ _ => rfl

theorem freshNodes_cons_of_fresh {since : Option String} {node : Node}
    (h : notOlder since node.updatedAt = true) (nodes : List Node) :
    freshNodes since (node :: nodes) = node :: freshNodes since nodes := by
  rw [freshNodes, List.takeWhile_cons, if_pos h]
  rfl

theorem freshNodes_cons_of_older {since : Option String} {node : Node}
    (h : ¬ notOlder since node.updatedAt = true) (nodes : List Node) :
    freshNodes since (node :: nodes) = [] := by
  rw [freshNodes, List.takeWhile_cons, if_neg h]

theorem freshNodes_append (since : Option String) (l l' : List Node) :
    freshNodes since (l ++ l') =
      if freshNodes since l = l then l ++ freshNodes since l' else freshNodes since l := by
  rw [freshNodes, List.takeWhile_append]
  have hiff : ((l.takeWhile fun node => notOlder since node.updatedAt).length = l.length) ↔
      freshNodes since l = l :=
    ⟨fun h => (List.takeWhile_prefix _).eq_of_length h, fun h => congrArg List.length h⟩
  simp only [hiff]
  rfl

/-- How a page without a failing visit ends: after its last node, or at an
older one. -/
inductive PageEnds (since : Option String) (nodes : List Node) : Option ListingEnd → Prop
  | through (h : freshNodes since nodes = nodes) : PageEnds since nodes none
  | older (h : freshNodes since nodes ≠ nodes) : PageEnds since nodes (some .olderNode)

/-- **The nodes of a page.** The fresh ones are visited in order; unless a
visit fails, the records and the tracked times are theirs. -/
theorem visitNodes_spec (since : Option String) (kind : RefKind) (now : String) {visit : Visit}
    (hv : KeepsNode visit) (pos : Nat) (nodes : List Node) :
    (∃ msg, (visitNodes since kind now visit pos nodes).2 = some (.failed msg)) ∨
    (RecordsOf kind (visitNodes since kind now visit pos nodes).1.records
        (freshNodes since nodes) ∧
      (visitNodes since kind now visit pos nodes).1.times =
        (freshNodes since nodes).map (·.updatedAt) ∧
      PageEnds since nodes (visitNodes since kind now visit pos nodes).2) := by
  induction nodes generalizing pos with
  | nil => exact Or.inr ⟨List.Forall₂.nil, rfl, .through rfl⟩
  | cons node nodes ih =>
    rw [visitNodes]
    by_cases hfresh : notOlder since node.updatedAt = true
    · rw [if_neg (not_not.mpr hfresh), freshNodes_cons_of_fresh hfresh]
      cases hvis : visit pos node with
      | error msg => exact Or.inl ⟨msg, rfl⟩
      | ok visited =>
        obtain ⟨node', refsError⟩ := visited
        rcases ih (pos + 1) with ⟨msg, hfail⟩ | ⟨hrec, htimes, hend⟩
        · exact Or.inl ⟨msg, hfail⟩
        · have hid : node'.id = node.id := hv.id pos node node' refsError hvis
          have hrecord : RecordFor kind node.id (nodeRecord kind now node') :=
            ⟨rfl, hid, node', rfl, hid⟩
          refine Or.inr ⟨List.Forall₂.cons hrecord hrec, ?_, ?_⟩
          · simp only [Read.append, List.map_cons, List.singleton_append, htimes]
          · generalize (visitNodes since kind now visit (pos + 1) nodes).2 = stop at hend
            cases hend with
            | through h => exact .through (by rw [freshNodes_cons_of_fresh hfresh, h])
            | older h =>
              refine .older fun hc => h ?_
              rw [freshNodes_cons_of_fresh hfresh] at hc
              exact (List.cons.inj hc).2
    · rw [if_pos hfresh, freshNodes_cons_of_older hfresh]
      refine Or.inr ⟨List.Forall₂.nil, rfl, .older ?_⟩
      rw [freshNodes_cons_of_older hfresh]
      exact List.cons_ne_nil _ _ ∘ Eq.symm

/-! ## One listing -/

/-- One turn of the loop: it fails, finds no connection, stops on the page,
or goes on behind it. -/
theorem listPages_step (since : Option String) (kind : RefKind) (now : String) {visit : Visit}
    (hv : KeepsNode visit) (listing : Listing) (fetched : Nat) (s : ReaderState) :
    (∃ msg, (listPages since kind now visit listing fetched s).2 = .failed msg) ∨
    (request listing s = .ok none ∧
      listPages since kind now visit listing fetched s = (.empty, .noConnection)) ∨
    (∃ page s' read, request listing s = .ok (some (page, s')) ∧
      RecordsOf kind read.records (freshNodes since page.nodes) ∧
      read.times = (freshNodes since page.nodes).map (·.updatedAt) ∧
      ((freshNodes since page.nodes ≠ page.nodes ∧
          listPages since kind now visit listing fetched s = (read, .olderNode)) ∨
        (freshNodes since page.nodes = page.nodes ∧ page.hasNextPage = false ∧
          listPages since kind now visit listing fetched s = (read, .lastPage)) ∨
        (freshNodes since page.nodes = page.nodes ∧ page.hasNextPage = true ∧
          fetched < fetched + page.nodes.length ∧ fetched + page.nodes.length < maxItems ∧
          listPages since kind now visit listing fetched s =
            (read.append
                (listPages since kind now visit listing (fetched + page.nodes.length) s').1,
              (listPages since kind now visit listing (fetched + page.nodes.length) s').2)))) := by
  rw [listPages]
  cases hreq : request listing s with
  | error msg => exact Or.inl ⟨msg, rfl⟩
  | ok found =>
    rcases found with _ | ⟨page, s'⟩
    · exact Or.inr (Or.inl ⟨rfl, rfl⟩)
    · simp only
      rcases visitNodes_spec since kind now hv fetched page.nodes with
        ⟨msg, hfail⟩ | ⟨hrec, htimes, hend⟩
      · left
        refine ⟨msg, ?_⟩
        rcases hvis : visitNodes since kind now visit fetched page.nodes with ⟨read, stop⟩
        rw [hvis] at hfail
        obtain rfl : stop = some (.failed msg) := hfail
        rfl
      · rcases hvis : visitNodes since kind now visit fetched page.nodes with ⟨read, stop⟩
        rw [hvis] at hrec htimes hend
        -- an old node ends the read; a page read through asks for the next
        cases hend with
        | older h => exact Or.inr (Or.inr ⟨page, s', read, rfl, hrec, htimes, Or.inl ⟨h, rfl⟩⟩)
        | through h =>
          simp only
          cases hnext : page.hasNextPage with
          | false =>
            rw [if_pos rfl]
            exact Or.inr (Or.inr ⟨page, s', read, rfl, hrec, htimes,
              Or.inr (Or.inl ⟨h, hnext, rfl⟩)⟩)
          | true =>
            rw [if_neg (by decide)]
            split
            · exact Or.inl ⟨_, rfl⟩
            · rename_i hcap
              have hlen := List.length_pos_of_ne_nil (not_or.mp hcap).2
              exact Or.inr (Or.inr ⟨page, s', read, rfl, hrec, htimes,
                Or.inr (Or.inr ⟨h, hnext, by omega, by omega, rfl⟩)⟩)

/-- **Without a watermark the loop follows the pages**, to the last one or
to a missing connection, unless it fails. -/
theorem listPages_full (kind : RefKind) (now : String) {visit : Visit} (hv : KeepsNode visit)
    (listing : Listing) (fetched : Nat) (s : ReaderState) :
    (∃ msg, (listPages none kind now visit listing fetched s).2 = .failed msg) ∨
    (∃ n l, ReadsTo (request listing) s n l .noListing ∧
      (listPages none kind now visit listing fetched s).2 = .noConnection) ∨
    (∃ n l, ReadsTo (request listing) s n l .lastPage ∧
      (listPages none kind now visit listing fetched s).2 = .lastPage ∧
      RecordsOf kind (listPages none kind now visit listing fetched s).1.records l) := by
  rcases listPages_step none kind now hv listing fetched s with
    hfail | ⟨hreq, heq⟩ | ⟨page, s', read, hreq, hrec, -, hstop⟩
  · exact Or.inl hfail
  · exact Or.inr (Or.inl ⟨0, [], .noListing hreq, by rw [heq]⟩)
  · rw [freshNodes_none] at hrec
    rcases hstop with ⟨hne, -⟩ | ⟨-, hlast, heq⟩ | ⟨-, hmore, hlt, hcap, heq⟩
    · exact absurd (freshNodes_none page.nodes) hne
    · exact Or.inr (Or.inr ⟨0, page.nodes, .last hreq hlast, by rw [heq], by rw [heq]; exact hrec⟩)
    · -- the pages behind this one
      rw [heq]
      rcases listPages_full kind now hv listing (fetched + page.nodes.length) s' with
        hfail | ⟨n, l, hr, hend⟩ | ⟨n, l, hr, hend, hrest⟩
      · exact Or.inl hfail
      · exact Or.inr (Or.inl ⟨n + 1, page.nodes ++ l, .more hreq hmore hr, hend⟩)
      · exact Or.inr (Or.inr ⟨n + 1, page.nodes ++ l, .more hreq hmore hr, hend,
          hrec.append hrest⟩)
termination_by maxItems - fetched

/-- **With a watermark the loop reads a fixed listing down to it**, when
it stops where it may. -/
theorem listPages_serves {since : Option String} {kind : RefKind} (now : String) {visit : Visit}
    (hv : KeepsNode visit) {listing : Listing} {remaining : ReaderState → List Node}
    (hs : Serves (request listing) remaining) (fetched : Nat) (s : ReaderState)
    (hend : (listPages since kind now visit listing fetched s).2.ReadThrough) :
    RecordsOf kind (listPages since kind now visit listing fetched s).1.records
      (freshNodes since (remaining s)) := by
  rcases listPages_step since kind now hv listing fetched s with
    ⟨msg, hfail⟩ | ⟨hreq, heq⟩ | ⟨page, s', read, hreq, hrec, -, hstop⟩
  · rw [hfail] at hend
    rcases hend with h | h <;> cases h
  · rw [heq] at hend
    rcases hend with h | h <;> cases h
  · rw [hs.page s page s' hreq, freshNodes_append]
    rcases hstop with ⟨hne, heq⟩ | ⟨hall, hlast, heq⟩ | ⟨hall, hmore, hlt, hcap, heq⟩
    · rw [heq, if_neg hne]
      exact hrec
    · have hnil : freshNodes since [] = [] := rfl
      rw [heq, if_pos hall, hs.last s page s' hreq hlast, hnil, List.append_nil]
      rw [hall] at hrec
      exact hrec
    · rw [heq] at hend ⊢
      rw [if_pos hall]
      rw [hall] at hrec
      exact hrec.append (listPages_serves now hv hs (fetched + page.nodes.length) s' hend)
termination_by maxItems - fetched

/-- The provider's listing of one kind in one project. -/
def Answers.listing (answers : Answers) : RefKind → Nat → Listing
  | .issue => answers.issues
  | .changeRequest => answers.pullRequests

end GitHub

open GitHub

namespace GitHubSource

variable (src : GitHubSource) (now : String) (answers : Answers)

/-- What a full sweep reads of one listing. -/
def listingRead (kind : RefKind) (project : String) (i : Nat) : Read × ListingEnd :=
  listPages none kind now (visitOf project (answers.trackerRefs i) (answers.threadPages i) kind)
    (answers.listing kind i) 0 .start

/-- A full sweep reads both listings of every project page by page. -/
theorem mem_sweepReads {i : Nat} {project : String} (h : src.projects[i]? = some project)
    (kind : RefKind) :
    sweepListing none kind project now
        (visitOf project (answers.trackerRefs i) (answers.threadPages i) kind)
        (answers.listing kind i) ∈ src.sweepReads now none answers := by
  refine List.mem_flatMap.mpr ⟨(project, i), List.mem_zipIdx_iff_getElem?.mpr h, ?_⟩
  cases kind <;> simp [issueRead, pullRequestRead, Answers.listing]

/-- Nothing else is. -/
theorem of_mem_sweepReads {read : SweepRead} (h : read ∈ src.sweepReads now none answers) :
    ∃ i project kind, src.projects[i]? = some project ∧
      read = sweepListing none kind project now
        (visitOf project (answers.trackerRefs i) (answers.threadPages i) kind)
        (answers.listing kind i) := by
  obtain ⟨⟨project, i⟩, hi, hread⟩ := List.mem_flatMap.mp h
  have hi := List.mem_zipIdx_iff_getElem?.mp hi
  simp only [List.mem_cons, List.not_mem_nil, or_false] at hread
  rcases hread with rfl | rfl
  · exact ⟨i, project, .issue, hi, rfl⟩
  · exact ⟨i, project, .changeRequest, hi, rfl⟩

/-- A record of an item is one for the reader. -/
theorem ofItem_of_recordFor {kind : RefKind} {id : String} {r : RawRecord Payload}
    (h : RecordFor kind id r) : ∃ itemKind p, src.reader.OfItem r itemKind p := by
  obtain ⟨p, hp, hid⟩ := h.payload
  have hnode : src.reader.node? r.payload = some p := by rw [hp]; rfl
  have hself : src.reader.nodeId p = r.externalId := hid.trans h.externalId.symm
  cases kind with
  | issue => exact ⟨.issue, p, h.entityKind, hnode, hself⟩
  | changeRequest => exact ⟨.changeRequest, p, h.entityKind, hnode, hself⟩

/-- A record of an item normalizes to that item. -/
theorem normalizesTo_iff {kind : RefKind} {id : String} {r : RawRecord Payload}
    (h : RecordFor kind id r) (k : ItemEndpoint) :
    NormalizesTo src.normalize r k ↔ k = ⟨src.descriptor.sourceId, id⟩ := by
  obtain ⟨_, _, hitem⟩ := src.ofItem_of_recordFor h
  rw [src.normalize_eq, hitem.normalizesTo_iff, h.externalId]
  rfl

theorem entityKind_of_repoActivity {project now : String} {rows : ActivityRows}
    {r : RawRecord Payload} (h : r ∈ (repoActivity project now rows).1) :
    r.entityKind = .activity := by
  simp only [repoActivity, commentRecords, List.mem_append, List.mem_map] at h
  rcases h with ((⟨_, -, rfl⟩ | ⟨_, -, rfl⟩) | ⟨_, -, rfl⟩) | ⟨_, -, rfl⟩ <;> rfl

/-- The records of the activity feeds are of no item. -/
theorem entityKind_of_activityReads {r : RawRecord Payload}
    (h : r ∈ (src.activityReads now answers).flatMap fun
      | .ok read => read.1
      | .error _ => []) : r.entityKind = .activity := by
  obtain ⟨read, hread, hr⟩ := List.mem_flatMap.mp h
  obtain ⟨⟨project, i⟩, -, rfl⟩ := List.mem_map.mp hread
  cases ha : answers.activity i with
  | error msg =>
    simp only [ha] at hr
    cases hr
  | ok rows =>
    simp only [ha] at hr
    exact entityKind_of_repoActivity hr

theorem not_normalizesTo_activity {r : RawRecord Payload} (h : r.entityKind = .activity)
    (k : ItemEndpoint) : ¬ NormalizesTo src.normalize r k := by
  rw [src.normalize_eq]
  exact Reader.not_normalizesTo_activity h k

/-- **The items of a full sweep** are those of the records of its
listings. -/
theorem normalizesTo_fetch_iff {opts : FetchOptions} (hfull : opts.full = true)
    (k : ItemEndpoint) :
    (∃ r ∈ (src.fetch opts now answers).records, NormalizesTo src.normalize r k) ↔
      ∃ i project kind, src.projects[i]? = some project ∧
        ∃ r ∈ (listingRead now answers kind project i).1.records,
          NormalizesTo src.normalize r k := by
  have hsince : sinceOf opts = none := by simp [sinceOf, hfull]
  constructor
  · rintro ⟨r, hr, hto⟩
    rcases List.mem_append.mp hr with hr | hr
    · rw [hsince] at hr
      obtain ⟨read, hread, hr⟩ := List.mem_flatMap.mp hr
      obtain ⟨i, project, kind, hi, rfl⟩ := src.of_mem_sweepReads now answers hread
      exact ⟨i, project, kind, hi, r, hr, hto⟩
    · exact absurd hto
        (src.not_normalizesTo_activity (src.entityKind_of_activityReads now answers hr) k)
  · rintro ⟨i, project, kind, hi, r, hr, hto⟩
    refine ⟨r, List.mem_append_left _ ?_, hto⟩
    rw [hsince]
    exact List.mem_flatMap.mpr ⟨_, src.mem_sweepReads now answers hi kind, hr⟩

/-- A complete full sweep met no error in any listing. -/
theorem not_failed_of_complete {opts : FetchOptions} (hfull : opts.full = true)
    (hc : (src.fetch opts now answers).complete = true) {i : Nat} {project : String}
    (h : src.projects[i]? = some project) (kind : RefKind) (msg : String) :
    (listingRead now answers kind project i).2 ≠ .failed msg := by
  intro hfail
  have hsince : sinceOf opts = none := by simp [sinceOf, hfull]
  simp only [fetch, fetchErrors, hsince, List.isEmpty_iff, List.append_eq_nil_iff,
    List.flatMap_eq_nil_iff] at hc
  have := hc.1.2 _ (src.mem_sweepReads now answers h kind)
  simp only [sweepListing, List.append_eq_nil_iff] at this
  rw [listingRead] at hfail
  rw [hfail] at this
  cases this.2

end GitHubSource

end SymphonyBoard
