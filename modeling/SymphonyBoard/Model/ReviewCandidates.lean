import Mathlib.Data.Rat.Defs
import SymphonyBoard.Common.Compare
import SymphonyBoard.Common.Keyed
import SymphonyBoard.Contract.Types
import SymphonyBoard.Shared.Text
import SymphonyBoard.Shared.Time
/-!
# Review candidates

`buildReviewCandidates` of `src/model/review-candidates.ts`. Its first pass
lists the change requests with open review threads, its second what a late
review points at. Both find candidates under a key, and the first find
decides what a candidate shows.

A candidate of the first pass is read off a map of the change requests by
source, path and number. `openThreads_listed_iff` says when that is all of
them, each once: exactly when none of them shares its key with a later one.

Items and activities always have a source, so what the source does for a
candidate without one is left out.
-/

namespace SymphonyBoard

/-! ## Rows -/

/-- A source of the contract. -/
structure SourceDTO where
  sourceId : String
  kind : String
deriving DecidableEq

/-- The open threads of a change request, and all of them. -/
structure ReviewThreadCounts where
  opened : ℕ
  total : ℕ
deriving DecidableEq

/-- The emitted thread counts: null without a total. -/
def ItemDTO.reviewThreads (item : ItemDTO) : Option ReviewThreadCounts :=
  item.totalReviewThreads.map fun total => ⟨item.openReviewThreads.getD 0, total⟩

/-- A review activity, with its link and the state its details name, if
that is a text. -/
structure ReviewActivity extends ActivityDTO where
  url : Option String
  detailsState : Option String
deriving DecidableEq

/-- What of the contract is read. -/
structure ReviewContract where
  sources : List SourceDTO
  items : List ItemDTO
  activities : List ReviewActivity

/-- Why a change request should be looked at. -/
inductive ReviewCandidateReason
  | openReviewThreads
  | lateReview
  | reviewOnClosedPr
deriving DecidableEq, Repr

/-- A change request to look at. -/
structure ReviewCandidate where
  sourceId : SourceId
  repo : Option String
  pr : ℕ
  reasons : List ReviewCandidateReason
  reason : Option ReviewCandidateReason
  openThreads : Option ℕ
  totalThreads : Option ℕ
  title : Option String
  itemState : Option ItemState
  itemUrl : Option String
  mergedAt : Option String
  closedAt : Option String
  actor : Option String
  action : Option String
  state : Option String
  reviewUrl : Option String
  reviewOccurredAt : Option String
deriving DecidableEq

/-- What a listing asks for. -/
structure ReviewCandidateOptions where
  days : ℚ
  actors : List String
  allActors : Bool
  limit : ℕ
  repo : Option String
  pr : Option ℕ
  now : ℤ

/-- `DEFAULT_ACTORS` -/
def defaultActors : List String := ["chatgpt-codex-connector"]

/-! ## Keys -/

/-- A number, as keys spell it. -/
def iidText (iid : Option ℕ) : String := (iid.map toString).getD ""

/-- The key of an item that is known by its number. -/
def itemKey (sourceId : SourceId) (projectPath : Option String) (iid : Option ℕ) : String :=
  sourceId.val ++ "|" ++ projectPath.getD "" ++ "|" ++ iidText iid

/-- `Number(null)` is zero. -/
def candidateKey (sourceId : SourceId) (projectPath : Option String) (iid : Option ℕ) : String :=
  sourceId.val ++ "|" ++ projectPath.getD "" ++ "#" ++ toString (iid.getD 0)

/-- The key of an item. -/
def ItemDTO.key (item : ItemDTO) : String := itemKey item.sourceId item.projectPath item.iid

/-- `toMs`. -/
def toMs (value : Option String) : Option ℤ := (nonEmpty value).bind dateParse

section

variable (contract : ReviewContract) (options : ReviewCandidateOptions)

/-- The source of an id is the last one listed under it. -/
def isGithubSource (sourceId : String) : Bool :=
  ((OrdMap.index (·.sourceId) (contract.sources.filter (·.sourceId ≠ ""))).get? sourceId).any
    (·.kind = "github")

/-- The change requests of the contract. -/
def changeRequests : List ItemDTO := contract.items.filter (·.kind = .changeRequest)

/-- The change requests by source, path and number. -/
def itemsByKey : OrdMap String ItemDTO := OrdMap.index ItemDTO.key (changeRequests contract)

/-- The change requests by reference. -/
def itemsByRef : OrdMap Ref ItemDTO :=
  OrdMap.index (·.id) ((changeRequests contract).filter (·.id ≠ ""))

/-- The item of an activity: by its reference, or by its number. -/
def ReviewContract.resolveItem (activity : ReviewActivity) : Option ItemDTO :=
  ((nonEmpty activity.targetRef).bind (itemsByRef contract).get?).or
    ((itemsByKey contract).get?
      (itemKey activity.sourceId activity.projectPath activity.targetIid))

/-! ## The finds -/

/-- One call of `ensure`, and the reason added. -/
structure Find where
  sourceId : SourceId
  projectPath : Option String
  iid : Option ℕ
  item : Option ItemDTO
  ref : Option Ref
  reason : ReviewCandidateReason

/-- The candidate a find belongs to. -/
def Find.key (find : Find) : String := candidateKey find.sourceId find.projectPath find.iid

/-- A candidate before its reasons. -/
def Find.candidate (find : Find) : ReviewCandidate :=
  { sourceId := find.sourceId
    repo := find.projectPath
    pr := find.iid.getD 0
    reasons := []
    reason := none
    openThreads := (find.item.bind (·.reviewThreads)).map (·.opened)
    totalThreads := (find.item.bind (·.reviewThreads)).map (·.total)
    title := find.item.bind (·.title)
    itemState := find.item.map (·.state)
    itemUrl := find.item.map (·.url)
    mergedAt := find.item.bind (·.mergedAt)
    closedAt := find.item.bind (·.closedAt)
    actor := none
    action := none
    state := none
    reviewUrl := none
    reviewOccurredAt := none }

/-- One more reason, each once. -/
def addReason (candidate : ReviewCandidate) (reason : ReviewCandidateReason) : ReviewCandidate :=
  if reason ∈ candidate.reasons then candidate
  else { candidate with reasons := candidate.reasons ++ [reason] }

/-- The candidate of a find's key after it. -/
def Find.touch (find : Find) (old : Option ReviewCandidate) : ReviewCandidate :=
  addReason (old.getD find.candidate) find.reason

/-- Candidates by key, and the first reference known of each. -/
structure Discovery where
  candidates : OrdMap String ReviewCandidate
  refs : OrdMap String Ref

/-- A find noted, with the first reference of its candidate. -/
def discover (d : Discovery) (find : Find) : Discovery :=
  let itemRef := find.ref.or (find.item.map (·.id))
  { candidates := d.candidates.upsert find.key find.touch
    refs :=
      match nonEmpty itemRef with
      | some ref => if (nonEmpty (d.refs.get? find.key)).isNone then d.refs.set find.key ref else d.refs
      | none => d.refs }

/-- What the first pass lists an item for. -/
def hasOpenThreads (item : ItemDTO) : Bool :=
  item.reviewThreads.any (·.opened > 0) && isGithubSource contract item.sourceId.val &&
    (nonEmpty options.repo).all (fun repo => item.projectPath = some repo) &&
    (options.pr.filter (· ≠ 0)).all fun pr => item.iid.getD 0 = pr

/-- An item with open threads. -/
def openThreadFind (item : ItemDTO) : Find :=
  ⟨item.sourceId, item.projectPath, item.iid, some item, none, .openReviewThreads⟩

/-- Pass 1: the items with open threads. -/
def openThreadFinds : List Find :=
  ((itemsByKey contract).values.filter (hasOpenThreads contract options)).map openThreadFind

/-- An actor that was asked for. -/
def allowedActor (actor : Option String) : Bool :=
  options.allActors ||
    actor.any fun a => a ∈ (defaultActors ++ options.actors).filter (· ≠ "")

/-- A review of a change request on GitHub. -/
def isReviewActivity (activity : ReviewActivity) : Bool :=
  activity.kind = "review" && activity.targetKind = some "change_request" &&
    isGithubSource contract activity.sourceId.val

/-- Pass 2, for one activity: a review by a listed actor that landed after
the end of its change request, or on one that is not open. -/
def reviewFind (activity : ReviewActivity) : Option Find :=
  let focused := options.pr.filter (· ≠ 0)
  let occurredMs := toMs (some activity.occurredAt)
  let cutoffMs : ℚ := options.now - options.days * 24 * 60 * 60 * 1000
  if !isReviewActivity contract activity then none
  else if focused.any (activity.targetIid.getD 0 ≠ ·) then none
  else if !allowedActor options activity.actor then none
  else if occurredMs.any fun ms => (ms : ℚ) < cutoffMs then none
  else
    let item := ReviewContract.resolveItem contract activity
    let projectPath := (item.bind (·.projectPath)).or activity.projectPath
    if (nonEmpty options.repo).any (fun repo => projectPath ≠ some repo) then none
    else
      let resolvedMs := toMs ((item.bind (·.mergedAt)).or (item.bind (·.closedAt)))
      let late := resolvedMs.any fun r => occurredMs.any fun o => o > r
      let closed := item.any (·.state ≠ .opened)
      if !late && !closed && focused.isNone then none
      else
        some
          { sourceId := (item.map (·.sourceId)).getD activity.sourceId
            projectPath
            iid := (item.bind (·.iid)).or activity.targetIid
            item
            ref := (item.map (·.id)).or activity.targetRef
            reason := if late then .lateReview else .reviewOnClosedPr }

/-- All finds, those from items first. -/
def discovery : Discovery :=
  (openThreadFinds contract options ++ contract.activities.filterMap (reviewFind contract options)).foldl
    discover ⟨.empty, .empty⟩

/-! ## Who reviewed last -/

/-- The latest review of each change request, by reference or else by
key. -/
def latestReviews : OrdMap String ReviewActivity :=
  (contract.activities.filter (isReviewActivity contract)).foldl
    (fun latest activity =>
      let key := activity.targetRef.getD
        (itemKey activity.sourceId activity.projectPath activity.targetIid)
      match latest.get? key with
      | some prev =>
        if (toMs (some prev.occurredAt)).getD 0 < (toMs (some activity.occurredAt)).getD 0 then
          latest.set key activity
        else latest
      | none => latest.set key activity)
    .empty

/-- A candidate with its latest review and its lead reason. -/
def enrich (refs : OrdMap String Ref) (candidate : ReviewCandidate) : ReviewCandidate :=
  let latest := latestReviews contract
  let ref := refs.get? (candidateKey candidate.sourceId candidate.repo (some candidate.pr))
  let key := itemKey candidate.sourceId candidate.repo (some candidate.pr)
  let candidate :=
    match ((nonEmpty ref).bind latest.get?).or (latest.get? key) with
    | none => candidate
    | some review =>
      { candidate with
        actor := review.actor
        action := some review.action
        state := review.detailsState
        reviewUrl := review.url
        reviewOccurredAt := some review.occurredAt
        title := (nonEmpty candidate.title).or review.title }
  { candidate with
    reason :=
      if .openReviewThreads ∈ candidate.reasons then some .openReviewThreads
      else candidate.reasons.head? }

/-- Most open threads first, then the latest reviewed. -/
def candidateOrder : ReviewCandidate → ReviewCandidate → Ordering :=
  compareLex
    (on (fun a b : ℤ => compare b a) fun c => (c.openThreads.map Int.ofNat).getD (-1))
    (on (fun a b : ℤ => compare b a) fun c => (toMs c.reviewOccurredAt).getD 0)

/-- The candidates before the limit is applied. -/
def reviewCandidateList : List ReviewCandidate :=
  let d := discovery contract options
  sortBy candidateOrder (d.candidates.values.map (enrich contract d.refs))

end

/-- No contract yields no candidates. -/
def buildReviewCandidates (contract : Option ReviewContract) (options : ReviewCandidateOptions) :
    List ReviewCandidate :=
  contract.elim [] fun contract => (reviewCandidateList contract options).take options.limit

/-! ## What a candidate shows -/

section

variable (contract : ReviewContract) (options : ReviewCandidateOptions)

/-- What a candidate says of the change request it is of, and of its
threads. -/
structure Listing where
  sourceId : SourceId
  repo : Option String
  pr : ℕ
  state : Option ItemState
  openThreads : Option ℕ
  totalThreads : Option ℕ
deriving DecidableEq

/-- What is listed of a candidate. -/
def ReviewCandidate.listing (c : ReviewCandidate) : Listing :=
  ⟨c.sourceId, c.repo, c.pr, c.itemState, c.openThreads, c.totalThreads⟩

/-- What should be listed of an item. -/
def ItemDTO.listing (item : ItemDTO) : Listing :=
  ⟨item.sourceId, item.projectPath, item.iid.getD 0, some item.state,
    item.reviewThreads.map (·.opened), item.reviewThreads.map (·.total)⟩

/-- Listed for its open threads. -/
def ReviewCandidate.listed (c : ReviewCandidate) : Bool := .openReviewThreads ∈ c.reasons

/-- What is looked at below. -/
def ReviewCandidate.shown (c : ReviewCandidate) : Listing × Bool := (c.listing, c.listed)

theorem shown_enrich (refs : OrdMap String Ref) (c : ReviewCandidate) :
    (enrich contract refs c).shown = c.shown := by
  unfold enrich
  simp only
  split <;> rfl

/-- A reason changes nothing of what a candidate shows, but that it is
listed. -/
theorem shown_addReason (c : ReviewCandidate) (reason : ReviewCandidateReason) :
    (addReason c reason).shown = (c.listing, c.listed || reason = .openReviewThreads) := by
  unfold addReason ReviewCandidate.shown
  split
  · rename_i hmem
    by_cases hreason : reason = .openReviewThreads
    · subst hreason
      simp [ReviewCandidate.listed, hmem]
    · simp [hreason]
  · simp [ReviewCandidate.listing, ReviewCandidate.listed, eq_comm]

theorem shown_openThreadFind (item : ItemDTO) :
    ((openThreadFind item).touch none).shown = (item.listing, true) := by
  rw [Find.touch, Option.getD_none, shown_addReason]
  rfl

theorem reviewFind_reason {activity : ReviewActivity} {find : Find}
    (h : reviewFind contract options activity = some find) : find.reason ≠ .openReviewThreads := by
  unfold reviewFind at h
  simp only at h
  split at h
  · cases h
  split at h
  · cases h
  split at h
  · cases h
  split at h
  · cases h
  split at h
  · cases h
  split at h
  · cases h
  obtain rfl := Option.some.inj h
  simp only
  split <;> exact fun h => ReviewCandidateReason.noConfusion h

theorem candidates_foldl (finds : List Find) (d : Discovery) :
    (finds.foldl discover d).candidates =
      finds.foldl (fun m f => m.upsert f.key f.touch) d.candidates := by
  induction finds generalizing d with
  | nil => rfl
  | cons f finds ih => exact ih _

/-- **The first pass shows the first item of each key.** -/
theorem shown_openThreadFinds (items : List ItemDTO) :
    ((items.map openThreadFind).foldl (fun m f => m.upsert f.key f.touch)
        (.empty : OrdMap String ReviewCandidate)).entries.map (fun b => (b.1, b.2.shown)) =
      (firstOfEach (fun i => (openThreadFind i).key) items).map
        fun i => ((openThreadFind i).key, i.listing, true) := by
  induction items using List.reverseRecOn with
  | nil => rfl
  | append_singleton items item ih =>
    rw [List.map_append, List.map_singleton, List.foldl_append]
    set m := (items.map openThreadFind).foldl (fun m f => m.upsert f.key f.touch)
      (.empty : OrdMap String ReviewCandidate) with hm
    have hkept : ∀ v, ((openThreadFind item).key, v) ∈ m.entries →
        ((openThreadFind item).touch (some v)).shown = v.shown := by
      intro v hv
      have hshown : ((openThreadFind item).key, v.shown) ∈
          m.entries.map fun b => (b.1, b.2.shown) := List.mem_map.mpr ⟨_, hv, rfl⟩
      rw [ih] at hshown
      obtain ⟨i, -, hi⟩ := List.mem_map.mp hshown
      have hlisted : true = v.listed := congrArg (fun b => b.2.2) hi
      rw [Find.touch, Option.getD_some, shown_addReason, ← hlisted]
      exact congrArg (Prod.mk v.listing) hlisted
    have hkeys : (openThreadFind item).key ∈ m.entries.map Prod.fst ↔
        (openThreadFind item).key ∈ items.map fun i => (openThreadFind i).key := by
      have hmap : m.entries.map Prod.fst =
          (firstOfEach (fun i => (openThreadFind i).key) items).map
            fun i => (openThreadFind i).key := by
        have h := congrArg (List.map Prod.fst) ih
        simpa only [List.map_map, Function.comp_def] using h
      rw [hmap, mem_map_firstOfEach]
    rw [List.foldl_cons, List.foldl_nil, OrdMap.upsert, OrdMap.map_upsertEntry hkept, ih,
      firstOfEach_concat]
    by_cases hmem : (openThreadFind item).key ∈ items.map fun i => (openThreadFind i).key
    · rw [if_pos (hkeys.mpr hmem), if_pos hmem]
    · rw [if_neg (mt hkeys.mp hmem), if_neg hmem, List.map_append, shown_openThreadFind]
      rfl

/-- **The second pass leaves what is shown**, and adds nothing listed. -/
theorem shown_reviewFinds (finds : List Find) (h : ∀ f ∈ finds, f.reason ≠ .openReviewThreads)
    (m : OrdMap String ReviewCandidate) :
    ∃ rest : List (String × Listing × Bool),
      (finds.foldl (fun m f => m.upsert f.key f.touch) m).entries.map (fun b => (b.1, b.2.shown)) =
        m.entries.map (fun b => (b.1, b.2.shown)) ++ rest ∧ ∀ r ∈ rest, r.2.2 = false := by
  induction finds generalizing m with
  | nil => exact ⟨[], (List.append_nil _).symm, fun r hr => by cases hr⟩
  | cons f finds ih =>
    have hreason : decide (f.reason = .openReviewThreads) = false :=
      decide_eq_false (h f List.mem_cons_self)
    obtain ⟨rest, hrest, hnone⟩ :=
      ih (fun g hg => h g (List.mem_cons_of_mem _ hg)) (m.upsert f.key f.touch)
    have hkept : ∀ v, (f.key, v) ∈ m.entries → (f.touch (some v)).shown = v.shown := by
      intro v _
      rw [Find.touch, Option.getD_some, shown_addReason, hreason, Bool.or_false]
      rfl
    rw [List.foldl_cons, hrest, OrdMap.upsert, OrdMap.map_upsertEntry hkept]
    split
    · exact ⟨rest, rfl, hnone⟩
    · refine ⟨(f.key, (f.touch none).shown) :: rest, by simp, fun r hr => ?_⟩
      rcases List.mem_cons.mp hr with rfl | hr
      · show ((f.touch none).shown).2 = false
        rw [Find.touch, Option.getD_none, shown_addReason, hreason, Bool.or_false]
        rfl
      · exact hnone r hr

/-- **What is listed is the first find of each key** among the items with
open threads. -/
theorem listed_candidates :
    (((reviewCandidateList contract options).filter (·.listed)).map (·.listing)).Perm
      ((firstOfEach (fun i => (openThreadFind i).key)
        ((itemsByKey contract).values.filter (hasOpenThreads contract options))).map
          ItemDTO.listing) := by
  set firsts := firstOfEach (fun i => (openThreadFind i).key)
    ((itemsByKey contract).values.filter (hasOpenThreads contract options)) with hfirsts
  have hlook (l : List ReviewCandidate) : (l.filter (·.listed)).map (·.listing) =
      ((l.map ReviewCandidate.shown).filter (·.2)).map Prod.fst := by
    rw [List.filter_map, List.map_map]
    rfl
  obtain ⟨rest, hrest, hnone⟩ := shown_reviewFinds
    (contract.activities.filterMap (reviewFind contract options))
    (fun f hf => by
      obtain ⟨activity, -, hfind⟩ := List.mem_filterMap.mp hf
      exact reviewFind_reason contract options hfind)
    ((openThreadFinds contract options).foldl (fun m f => m.upsert f.key f.touch) .empty)
  rw [← List.foldl_append, openThreadFinds, shown_openThreadFinds] at hrest
  have hvalues : (discovery contract options).candidates.values.map ReviewCandidate.shown =
      (firsts.map fun i => (i.listing, true)) ++ rest.map Prod.snd := by
    have h := congrArg (List.map Prod.snd) hrest
    rw [List.map_map, List.map_append, List.map_map] at h
    rw [discovery, candidates_foldl, OrdMap.values, List.map_map]
    exact h
  have hperm : ((reviewCandidateList contract options).map ReviewCandidate.shown).Perm
      ((firsts.map fun i => (i.listing, true)) ++ rest.map Prod.snd) := by
    rw [← hvalues]
    refine ((sortBy_perm _ _).map _).trans (.of_eq ?_)
    rw [List.map_map]
    exact List.map_congr_left fun c _ => shown_enrich contract _ c
  rw [hlook]
  refine ((hperm.filter _).map _).trans (.of_eq ?_)
  have hlisted : ((firsts.map fun i => (i.listing, true)).filter (·.2)) =
      firsts.map fun i => (i.listing, true) := List.filter_eq_self.mpr fun b hb => by
    obtain ⟨i, -, rfl⟩ := List.mem_map.mp hb
    rfl
  have hunlisted : (rest.map Prod.snd).filter (·.2) = [] := List.filter_eq_nil_iff.mpr fun b hb => by
    obtain ⟨r, hr, rfl⟩ := List.mem_map.mp hb
    exact Bool.eq_false_iff.mp (hnone r hr)
  rw [List.filter_append, hlisted, hunlisted, List.append_nil, List.map_map]
  rfl

/-- The key of a candidate, read off it. -/
def ReviewCandidate.key (c : ReviewCandidate) : String :=
  candidateKey c.sourceId c.repo (some c.pr)

theorem key_addReason (c : ReviewCandidate) (reason : ReviewCandidateReason) :
    (addReason c reason).key = c.key := by
  unfold addReason
  split <;> rfl

theorem key_enrich (refs : OrdMap String Ref) (c : ReviewCandidate) :
    (enrich contract refs c).key = c.key := by
  unfold enrich
  simp only
  split <;> rfl

/-- **No two candidates have one source, path and number.** -/
theorem candidates_nodup :
    ((reviewCandidateList contract options).map ReviewCandidate.key).Nodup := by
  set d := discovery contract options with hd
  have hkeys : ∀ b ∈ d.candidates.entries, b.1 = b.2.key := by
    rw [hd, discovery, candidates_foldl]
    refine OrdMap.forall_entries_foldl_upsert (P := fun k (c : ReviewCandidate) => k = c.key)
      (fun f o ho => ?_) _ _ fun b hb => by cases hb
    rw [Find.touch, key_addReason]
    cases o with
    | none => rfl
    | some c => exact ho c rfl
  have hperm : ((reviewCandidateList contract options).map ReviewCandidate.key).Perm
      (d.candidates.entries.map Prod.fst) := by
    refine ((sortBy_perm _ _).map _).trans (.of_eq ?_)
    rw [List.map_map, OrdMap.values, List.map_map]
    exact List.map_congr_left fun b hb => (key_enrich contract _ b.2).trans (hkeys b hb).symm
  exact hperm.nodup_iff.mpr d.candidates.nodup

/-! ## The exact condition -/

/-- The open change requests the first pass is to list. -/
def openChangeRequests : List ItemDTO :=
  (changeRequests contract).filter fun i => hasOpenThreads contract options i && i.state = .opened

/-- No open change request with open threads is hidden: none shares its
source, path and number with a later change request, and, among those with
open threads as the map lists them, none comes after another of its
candidate key, which takes a missing number for zero. -/
structure Unhidden : Prop where
  later : (changeRequests contract).Pairwise fun i j =>
    hasOpenThreads contract options i && i.state = .opened → i.key ≠ j.key
  earlier : ((itemsByKey contract).values.filter (hasOpenThreads contract options)).Pairwise
    fun i j => j.state = .opened → (openThreadFind i).key ≠ (openThreadFind j).key

/-- **Exactly the open change requests are listed, each once**, with their
own threads, exactly when none of them is hidden; and no two candidates are
of one change request. -/
theorem openThreads_listed_iff :
    ((reviewCandidateList contract options).map ReviewCandidate.key).Nodup ∧
    ((((reviewCandidateList contract options).filter fun c =>
        c.listed && c.itemState = some .opened).map (·.listing)).Perm
      ((openChangeRequests contract options).map ItemDTO.listing) ↔
      Unhidden contract options) := by
  refine ⟨candidates_nodup contract options, ?_⟩
  set shownItems := (itemsByKey contract).values.filter (hasOpenThreads contract options)
    with hshownItems
  set firsts := firstOfEach (fun i => (openThreadFind i).key) shownItems with hfirsts
  set isOpen : ItemDTO → Bool := fun i => i.state = .opened with hisOpen
  set wanted : ItemDTO → Bool := fun i => hasOpenThreads contract options i && isOpen i
    with hwanted
  -- of the items of one candidate the first is listed
  have hlisted : (((reviewCandidateList contract options).filter fun c =>
      c.listed && c.itemState = some .opened).map (·.listing)).Perm
      ((firsts.filter isOpen).map ItemDTO.listing) := by
    have hstate := (listed_candidates contract options).filter fun l => l.state = some .opened
    rw [List.filter_map, List.filter_map, List.filter_filter] at hstate
    refine .trans (.of_eq ?_) (hstate.trans (.of_eq ?_))
    · exact congrArg (List.map _) (List.filter_congr fun c _ => Bool.and_comm _ _)
    · refine congrArg (List.map ItemDTO.listing) (List.filter_congr fun i _ => ?_)
      simp [hisOpen, ItemDTO.listing]
  -- of the items of one key the last is kept
  have hvalues : (itemsByKey contract).values.Perm
      (lastOfEach ItemDTO.key (changeRequests contract)) := by
    have h := (OrdMap.entries_index_perm ItemDTO.key (changeRequests contract)).map Prod.snd
    rw [List.map_map] at h
    simpa [OrdMap.values, itemsByKey, Function.comp_def] using h
  have hkept : (shownItems.filter isOpen).Perm
      ((lastOfEach ItemDTO.key (changeRequests contract)).filter wanted) := by
    rw [hshownItems, List.filter_filter]
    exact (hvalues.filter _).trans (.of_eq (List.filter_congr fun i _ => Bool.and_comm _ _))
  have hopen : openChangeRequests contract options = (changeRequests contract).filter wanted := rfl
  have hfirst : (firsts.filter isOpen).Sublist (shownItems.filter isOpen) :=
    (firstOfEach_sublist shownItems).filter _
  have hlast : ((lastOfEach ItemDTO.key (changeRequests contract)).filter wanted).Sublist
      ((changeRequests contract).filter wanted) := (lastOfEach_sublist _).filter _
  rw [hopen]
  constructor
  · -- both cuts leave the length alone, so neither cuts anything
    intro h
    have hlength := (hlisted.symm.trans h).length_eq
    rw [List.length_map, List.length_map] at hlength
    have hmiddle := hkept.length_eq
    have hshort := hfirst.length_le
    have hshort' := hlast.length_le
    have hlater := hlast.eq_of_length_le (by omega)
    have hearlier := hfirst.eq_of_length_le (by omega)
    refine ⟨(filter_lastOfEach_eq_iff wanted _).mp hlater, ?_⟩
    refine ((filter_firstOfEach_eq_iff isOpen _).mp hearlier).imp fun hij hj => ?_
    exact hij (decide_eq_true hj)
  · rintro ⟨hlater, hearlier⟩
    have hlater' := (filter_lastOfEach_eq_iff wanted _).mpr hlater
    have hearlier' : firsts.filter isOpen = shownItems.filter isOpen :=
      (filter_firstOfEach_eq_iff isOpen _).mpr (hearlier.imp fun hij hj => hij (of_decide_eq_true hj))
    rw [hearlier'] at hlisted
    rw [hlater'] at hkept
    exact hlisted.trans (hkept.map _)

end

/-! ## A name used again -/

namespace ReusedName

/-- A change request of a repository that has been renamed, stored under
its old path. -/
def before : ItemDTO :=
  { sourceId := ⟨"github:github.com", by decide⟩
    externalId := "PR_before"
    kind := .changeRequest
    projectPath := some "dev-a/repo"
    iid := some 7
    url := "https://github.com/dev-a/repo/pull/7"
    title := some "Unresolved review"
    state := .opened
    stateRaw := some "OPEN"
    isDraft := some false
    author := none
    createdAt := none
    updatedAt := none
    closedAt := none
    mergedAt := none
    reviewState := none
    ciState := none
    mergeState := none
    openReviewThreads := some 2
    totalReviewThreads := some 3
    commentTotal := none
    demand := 0
    id := "github:github.com|PR_before"
    labels := []
    lastSeenAt := "2026-06-01T00:00:00Z"
    windowReasons := [] }

/-- The one with the same number in the repository that has the name
now. -/
def after : ItemDTO :=
  { before with
    externalId := "PR_after"
    id := "github:github.com|PR_after"
    openReviewThreads := some 0
    totalReviewThreads := some 0 }

/-- The contract with both states of the change request. -/
def contract : ReviewContract :=
  ⟨[⟨"github:github.com", "github"⟩], [before, after], []⟩

/-- A listing of the last week. -/
def options : ReviewCandidateOptions := ⟨7, [], false, 20, none, none, 1781000000000⟩

theorem not_listed :
    reviewCandidateList contract options = [] ∧
      openChangeRequests contract options = [before] := by
  decide +kernel

/-- **The open change request is hidden by the other one.** -/
theorem not_openThreads_listed :
    ¬∀ contract options, (((reviewCandidateList contract options).filter fun c =>
        c.listed && c.itemState = some .opened).map (·.listing)).Perm
      ((openChangeRequests contract options).map ItemDTO.listing) := by
  intro h
  have hperm := (h contract options).length_eq
  rw [not_listed.1, not_listed.2] at hperm
  exact absurd hperm (by decide)

end ReusedName

end SymphonyBoard
