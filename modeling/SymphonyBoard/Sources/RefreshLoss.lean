import SymphonyBoard.Sources.Listed
import SymphonyBoard.Sources.LostUpdates
/-!
# What the refresh pass loses

The refresh pass asks for merge requests and pull requests again and its
records replace those of the fetch whole. GitHub answers it with the same
payload a fetch gets; the payload GitLab's refresh makes carries no
references, so a mention the fetch has just resolved is not written.
`refreshKeeps_iff` says which payloads lose nothing.
-/

namespace SymphonyBoard

/-! ## GitLab -/

namespace GitLabSource

open GitLab

variable (src : GitLabSource)

/-! ### Payloads -/

section Payloads

variable (primary refreshed : List (RawRecord Payload))

/-- The links of an item that its last record's node still lists. No item
that the refresh has read again had a mention. -/
structure StillLinks (r r' : RawRecord Payload) (kind : ItemKind) (p p' : Node) : Prop where
  unmentioned : r' ∈ refreshed → p.mentioners kind r.externalId = []
  mentions : r' ∉ refreshed → p.mentioners kind r.externalId ⊆ p'.mentioners kind r.externalId
  closes : kind = .issue → p.closers ⊆ p'.closers
  /-- Either of two related items may list it. -/
  relates : kind = .issue → StillListed (primary ++ refreshed) src.listing.linkKeys
    (src.relatesKey r.externalId) (p.relatives r.externalId) (p'.relatives r.externalId)

end Payloads

section Links

variable {src}

theorem relatesKey_fst (self id : String) : (src.relatesKey self id).1 = .relates := by
  unfold relatesKey
  split <;> rfl

theorem mem_nodeLinks {kind : ItemKind} {self : String} {p : Node} {k : EdgeRowKey} :
    k ∈ src.nodeLinks kind self p ↔
      (kind = .issue ∧ ∃ id ∈ p.closers,
        (.closes, src.reader.endpointOf id, src.reader.endpointOf self) = k) ∨
      (kind = .issue ∧ ∃ id ∈ p.relatives self, src.relatesKey self id = k) ∨
      ∃ id ∈ p.mentioners kind self, (.mentions, src.reader.endpointOf id, src.reader.endpointOf self) = k := by
  cases kind <;> simp [nodeLinks]

theorem mem_nodeLinks_mentions {kind : ItemKind} {self id : String} {a : ItemEndpoint} {p : Node} :
    (.mentions, src.reader.endpointOf id, a) ∈ src.nodeLinks kind self p ↔
      a = src.reader.endpointOf self ∧ id ∈ p.mentioners kind self := by
  rw [mem_nodeLinks]
  constructor
  · rintro (⟨-, _, -, h⟩ | ⟨-, x, -, h⟩ | ⟨_, hid, h⟩)
    · cases h
    · have := (relatesKey_fst self x).symm.trans (congrArg Prod.fst h)
      cases this
    · cases h
      exact ⟨rfl, hid⟩
  · rintro ⟨rfl, hid⟩
    exact Or.inr (Or.inr ⟨id, hid, rfl⟩)

theorem mem_nodeLinks_closes {kind : ItemKind} {self id : String} {a : ItemEndpoint} {p : Node} :
    (.closes, src.reader.endpointOf id, a) ∈ src.nodeLinks kind self p ↔
      a = src.reader.endpointOf self ∧ kind = .issue ∧ id ∈ p.closers := by
  rw [mem_nodeLinks]
  constructor
  · rintro (⟨hkind, _, hid, h⟩ | ⟨-, x, -, h⟩ | ⟨_, -, h⟩)
    · cases h
      exact ⟨rfl, hkind, hid⟩
    · have := (relatesKey_fst self x).symm.trans (congrArg Prod.fst h)
      cases this
    · cases h
  · rintro ⟨rfl, hkind, hid⟩
    exact Or.inl ⟨hkind, id, hid, rfl⟩

end Links

section Item

variable {src} {primary refreshed : List (RawRecord Payload)} {r r' : RawRecord Payload}
  {kind : ItemKind} {p p' : Node}
  (hr' : Latest (primary ++ refreshed) r') (h' : src.reader.OfItem r' kind p')
  (hknown : ∀ r ∈ primary ++ refreshed, src.reader.Knows r)
  (hids : IdsByKind (primary ++ refreshed))

include hr' h' hknown hids

/-- An edge that only records of this id report is reported by the last of
them or by none. -/
theorem lastLists_own {k : EdgeRowKey}
    (hown : ∀ kind self q, k ∈ src.nodeLinks kind self q → self = r'.externalId) :
    LastLists (primary ++ refreshed) src.listing.linkKeys k ↔
      k ∈ src.nodeLinks kind r'.externalId p' := by
  constructor
  · rintro ⟨other, hother, hk⟩
    rcases hknown other hother.mem with hactivity | ⟨_, q, hq⟩
    · simp [NodeListing.linkKeys, NodeListing.item?_activity hactivity] at hk
    · rw [NodeListing.linkKeys_of_item _ hq] at hk
      have hsame := hown _ other.externalId q hk
      have hkinds := hids r' hr'.mem other hother.mem h'.entityKind_ne_activity
        hq.entityKind_ne_activity hsame
      obtain rfl := hr'.unique hother (Prod.ext hkinds hsame)
      obtain ⟨rfl, rfl⟩ := Prod.mk.inj (Option.some.inj (hq.item?.symm.trans h'.item?))
      exact hk
  · exact fun hk => ⟨r', hr', by rw [NodeListing.linkKeys_of_item _ h']; exact hk⟩

theorem lastLists_mentions (id : String) :
    LastLists (primary ++ refreshed) src.listing.linkKeys
      (.mentions, src.reader.endpointOf id, src.reader.endpointOf r'.externalId) ↔
        id ∈ p'.mentioners kind r'.externalId := by
  rw [lastLists_own hr' h' hknown hids, mem_nodeLinks_mentions]
  · exact and_iff_right rfl
  · exact fun _ _ _ hk => (ItemEndpoint.mk.inj (mem_nodeLinks_mentions.mp hk).1).2.symm

theorem lastLists_closes (id : String) :
    LastLists (primary ++ refreshed) src.listing.linkKeys
      (.closes, src.reader.endpointOf id, src.reader.endpointOf r'.externalId) ↔
        kind = .issue ∧ id ∈ p'.closers := by
  rw [lastLists_own hr' h' hknown hids, mem_nodeLinks_closes]
  · exact and_iff_right rfl
  · exact fun _ _ _ hk => (ItemEndpoint.mk.inj (mem_nodeLinks_closes.mp hk).1).2.symm

/-- **The links of an item that a merge keeps**, where a refreshed record
carries no mention. -/
theorem links_kept_iff (hid : r'.externalId = r.externalId) (h : src.reader.OfItem r kind p)
    (hbare : r' ∈ refreshed → p'.mentioners kind r.externalId = []) :
    (∀ k ∈ src.listing.linkKeys r, LastLists (primary ++ refreshed) src.listing.linkKeys k) ↔
      src.StillLinks primary refreshed r r' kind p p' := by
  have hmentions := lastLists_mentions hr' h' hknown hids
  have hcloses := lastLists_closes hr' h' hknown hids
  rw [hid] at hmentions hcloses
  rw [NodeListing.linkKeys_of_item _ h]
  constructor
  · intro hlinks
    have hsub : p.mentioners kind r.externalId ⊆ p'.mentioners kind r.externalId := fun id hmem =>
      (hmentions id).mp (hlinks _ (mem_nodeLinks_mentions.mpr ⟨rfl, hmem⟩))
    refine ⟨fun href => ?_, fun _ => hsub, fun hkind id hmem => ?_, fun hkind id hmem => ?_⟩
    · rw [hbare href] at hsub
      exact List.subset_nil.mp hsub
    · exact ((hcloses id).mp (hlinks _ (mem_nodeLinks_closes.mpr ⟨rfl, hkind, hmem⟩))).2
    · exact Or.inr (hlinks _ (mem_nodeLinks.mpr (Or.inr (Or.inl ⟨hkind, id, hmem, rfl⟩))))
  · intro hstill k hk
    rcases mem_nodeLinks.mp hk with ⟨hkind, id, hmem, rfl⟩ | ⟨hkind, id, hmem, rfl⟩ |
      ⟨id, hmem, rfl⟩
    · exact (hcloses id).mpr ⟨hkind, hstill.closes hkind hmem⟩
    · rcases hstill.relates hkind id hmem with hnow | hlast
      · refine ⟨r', hr', ?_⟩
        rw [NodeListing.linkKeys_of_item _ h', hid]
        exact mem_nodeLinks.mpr (Or.inr (Or.inl ⟨hkind, id, hnow, rfl⟩))
      · exact hlast
    · refine (hmentions id).mpr ?_
      by_cases href : r' ∈ refreshed
      · rw [hstill.unmentioned href] at hmem
        cases hmem
      · exact hstill.mentions href hmem

end Item

/-! ### Runs -/

section Runs

variable (startedAt now : String) (since : Option String) (answers : Answers)
  (candidates : List RefreshCandidate)

/-- The records of an incremental fetch. -/
def primary : List (RawRecord Payload) :=
  (src.fetch { since, full := false } now answers).records

/-- The records of its refresh pass. -/
def refreshed : List (RawRecord Payload) := (src.fetchRefresh now answers candidates).records

/-- The rows written from the merged records include those the fetch alone
would have written. -/
def RefreshKeeps : Prop :=
  (written (src.toSource now answers) src.normalize startedAt
      (dedupeRecords (src.primary now since answers ++ src.refreshed now answers candidates))).Includes
    (written (src.toSource now answers) src.normalize startedAt (src.primary now since answers))

/-- The node of a refreshed merge request carries no mention. -/
theorem mentioners_refreshed {r' : RawRecord Payload} {kind : ItemKind} {p' : Node}
    (hr' : r' ∈ src.refreshed now answers candidates) (h' : src.reader.OfItem r' kind p')
    (self : String) : p'.mentioners kind self = [] := by
  obtain ⟨outcome, ho, hrec⟩ := List.mem_filterMap.mp hr'
  obtain ⟨⟨target, i⟩, -, rfl⟩ := List.mem_map.mp ho
  simp only [refreshItem] at hrec
  split at hrec
  · cases hrec
  · cases hrec
  · split at hrec
    · cases hrec
    · obtain rfl := Option.some.inj hrec
      obtain rfl := Option.some.inj h'.payload
      rfl

end Runs

end GitLabSource

/-! ## GitHub -/

namespace GitHubSource

open GitHub

variable (src : GitHubSource)

/-! ### Payloads -/

section Payloads

variable (merged : List (RawRecord Payload))

/-- The links of an item that its last record's node still lists, or the
node of another record: a pull request and an issue both list that the one
closes the other, and a phase table may list any edge. -/
structure StillLinks (r : RawRecord Payload) (kind : ItemKind) (p p' : Node) : Prop where
  closing : kind = .changeRequest → StillListed merged src.listing.linkKeys
    (fun id => (.closes, src.reader.endpointOf r.externalId, src.reader.endpointOf id))
    p.closing p'.closing
  closers : kind = .issue → StillListed merged src.listing.linkKeys
    (fun id => (.closes, src.reader.endpointOf id, src.reader.endpointOf r.externalId))
    p.closers p'.closers
  mentions : StillListed merged src.listing.linkKeys
    (fun id => (.mentions, src.reader.endpointOf id, src.reader.endpointOf r.externalId))
    p.mentioners p'.mentioners
  phases : kind = .issue → StillListed merged src.listing.linkKeys id
    (src.phaseKeys r.externalId p) (src.phaseKeys r.externalId p')

end Payloads

theorem mem_nodeLinks {kind : ItemKind} {self : String} {p : Node} {k : EdgeRowKey} :
    k ∈ src.nodeLinks kind self p ↔
      (kind = .changeRequest ∧ ∃ id ∈ p.closing,
        (.closes, src.reader.endpointOf self, src.reader.endpointOf id) = k) ∨
      (kind = .issue ∧ ∃ id ∈ p.closers,
        (.closes, src.reader.endpointOf id, src.reader.endpointOf self) = k) ∨
      (∃ id ∈ p.mentioners,
        (.mentions, src.reader.endpointOf id, src.reader.endpointOf self) = k) ∨
      (kind = .issue ∧ k ∈ src.phaseKeys self p) := by
  cases kind <;> simp [nodeLinks]

/-- **The links of an item that a merge keeps.** -/
theorem links_kept_iff {merged : List (RawRecord Payload)} {r r' : RawRecord Payload}
    {kind : ItemKind} {p p' : Node} (hr' : Latest merged r') (hid : r'.externalId = r.externalId)
    (h : src.reader.OfItem r kind p) (h' : src.reader.OfItem r' kind p') :
    (∀ k ∈ src.listing.linkKeys r, LastLists merged src.listing.linkKeys k) ↔
      src.StillLinks merged r kind p p' := by
  have hkeys' : src.listing.linkKeys r' = src.nodeLinks kind r.externalId p' := by
    rw [NodeListing.linkKeys_of_item _ h', hid]
    rfl
  have hlast : ∀ {k}, k ∈ src.nodeLinks kind r.externalId p' →
      LastLists merged src.listing.linkKeys k := fun hk => ⟨r', hr', by rw [hkeys']; exact hk⟩
  rw [NodeListing.linkKeys_of_item _ h]
  constructor
  · intro hlinks
    refine ⟨fun hkind id hmem => ?_, fun hkind id hmem => ?_, fun id hmem => ?_,
      fun hkind k hmem => ?_⟩
    · exact Or.inr (hlinks _ (src.mem_nodeLinks.mpr (Or.inl ⟨hkind, id, hmem, rfl⟩)))
    · exact Or.inr (hlinks _ (src.mem_nodeLinks.mpr (Or.inr (Or.inl ⟨hkind, id, hmem, rfl⟩))))
    · exact Or.inr (hlinks _ (src.mem_nodeLinks.mpr (Or.inr (Or.inr (Or.inl ⟨id, hmem, rfl⟩)))))
    · exact Or.inr (hlinks _ (src.mem_nodeLinks.mpr (Or.inr (Or.inr (Or.inr ⟨hkind, hmem⟩)))))
  · intro hstill k hk
    rcases src.mem_nodeLinks.mp hk with ⟨hkind, id, hmem, rfl⟩ | ⟨hkind, id, hmem, rfl⟩ |
      ⟨id, hmem, rfl⟩ | ⟨hkind, hmem⟩
    · exact (hstill.closing hkind id hmem).elim
        (fun hnow => hlast (src.mem_nodeLinks.mpr (Or.inl ⟨hkind, id, hnow, rfl⟩))) fun hk => hk
    · exact (hstill.closers hkind id hmem).elim
        (fun hnow => hlast (src.mem_nodeLinks.mpr (Or.inr (Or.inl ⟨hkind, id, hnow, rfl⟩))))
        fun hk => hk
    · exact (hstill.mentions id hmem).elim
        (fun hnow => hlast (src.mem_nodeLinks.mpr (Or.inr (Or.inr (Or.inl ⟨id, hnow, rfl⟩)))))
        fun hk => hk
    · exact (hstill.phases hkind k hmem).elim
        (fun hnow => hlast (src.mem_nodeLinks.mpr (Or.inr (Or.inr (Or.inr ⟨hkind, hnow⟩)))))
        fun hk => hk

/-! ### Runs -/

section Runs

variable (startedAt now : String) (since : Option String) (answers : Answers)
  (candidates : List RefreshCandidate)

/-- The records of an incremental fetch. -/
def primary : List (RawRecord Payload) :=
  (src.fetch { since, full := false } now answers).records

/-- The records of its refresh pass. -/
def refreshed : List (RawRecord Payload) := (src.fetchRefresh now answers candidates).records

/-- The rows written from the merged records include those the fetch alone
would have written. -/
def RefreshKeeps : Prop :=
  (written (src.toSource now answers) src.normalize startedAt
      (dedupeRecords (src.primary now since answers ++ src.refreshed now answers candidates))).Includes
    (written (src.toSource now answers) src.normalize startedAt (src.primary now since answers))

end Runs

end GitHubSource

/-! ## Both adapters -/

/-- **When the refresh pass loses nothing**, for both adapters: for every
record of the fetch that a later one replaces, the later node still lists
what the earlier one did; in GitLab's case no merge request read again by
the refresh may have had a mention. -/
theorem refreshKeeps_iff (startedAt now : String) (since : Option String)
    (candidates : List RefreshCandidate) :
    (∀ (src : GitLabSource) (answers : GitLab.Answers),
      let primary := src.primary now since answers
      let refreshed := src.refreshed now answers candidates
      IdsByKind (primary ++ refreshed) →
      (src.RefreshKeeps startedAt now since answers candidates ↔
        ∀ r ∈ primary, ∀ r', Latest (primary ++ refreshed) r' → r'.key = r.key → r' ≠ r →
          src.listing.Carries primary (primary ++ refreshed)
            (src.StillLinks primary refreshed r r') r r')) ∧
    (∀ (src : GitHubSource) (answers : GitHub.Answers),
      let primary := src.primary now since answers
      let refreshed := src.refreshed now answers candidates
      IdsByKind (primary ++ refreshed) →
      (src.RefreshKeeps startedAt now since answers candidates ↔
        ∀ r ∈ primary, ∀ r', Latest (primary ++ refreshed) r' → r'.key = r.key → r' ≠ r →
          src.listing.Carries primary (primary ++ refreshed)
            (src.StillLinks (primary ++ refreshed) r) r r')) := by
  constructor
  · intro src answers primary refreshed hids
    have hknown : ∀ r ∈ primary ++ refreshed, src.reader.Knows r :=
      (src.reads now answers).knows { since := none, full := false } rfl rfl rfl
    rw [GitLabSource.RefreshKeeps, src.normalize_eq]
    exact NodeListing.includes_merged_iff_carries _ _ hknown hids fun r r' kind p p' hr' hid h h' =>
      GitLabSource.links_kept_iff hr' h' hknown hids hid h
        fun href => src.mentioners_refreshed now answers candidates href h' _
  · intro src answers primary refreshed hids
    have hknown : ∀ r ∈ primary ++ refreshed, src.reader.Knows r :=
      (src.reads now answers).knows { since := none, full := false } rfl rfl rfl
    rw [GitHubSource.RefreshKeeps, src.normalize_eq]
    exact NodeListing.includes_merged_iff_carries _ _ hknown hids fun r r' kind p p' hr' hid h h' =>
      src.links_kept_iff hr' hid h h'

/-! ## Items that are read twice -/

namespace OneRefresh

open OneProject TwoRuns

/-- The instant the run starts. -/
def startedAt : String := "2026-06-01T10:00:00.000Z"

/-- The watermark the run reads from. -/
def since : Option String := some "2026-06-01T07:00:00Z"

/-- The change request to be read again. -/
def candidate (projectPath : String) : RefreshCandidate :=
  { externalId := "2", projectPath, iid := 2, reason := .openChangeRequest }

/-- A GitLab source with a REST client. -/
def gitlabRest : GitLabSource := { gitlab with hasRest := true }

/-- A merge request with a label, a discussion to resolve and these
approvers. -/
def gitlabMergeRequest (approvedBy : List String) : GitLab.Node :=
  { gitlabNode "2" "2026-06-01T09:00:00Z" with
    createdAt := some "2026-05-30T08:00:00Z", labels := [⟨"bug", none⟩], approvedBy,
    resolvableDiscussionsCount := some 1 }

/-- An open discussion of the merge request. -/
def gitlabDiscussion : GitLab.Discussion :=
  { id := some "d1"
    notes := [{ id := some "n1", author := some "ann", avatarUrl := none, body := some "why?",
                webUrl := none, createdAt := none, updatedAt := none, resolvable := true,
                resolved := false, resolvedBy := none, position := none }] }

/-- An issue with these labels. -/
def gitlabIssue (titles : List String) : GitLab.Node :=
  { gitlabNode "5" "2026-06-01T08:00:00Z" with labels := titles.map (⟨·, none⟩) }

/-- The issues of two pages: the second begins with the issue the first
ended with, which has got a label meanwhile. -/
def gitlabIssues : GitLab.Listing
  | 0, _ => .ok (some
      { nodes := [gitlabNode "1" "2026-06-01T08:30:00Z", gitlabIssue ["p1"]], hasNextPage := true,
        endCursor := some "page 2" })
  | _ + 1, _ => .ok (some
      { nodes := [gitlabIssue ["p1", "p2"]], hasNextPage := false, endCursor := none })

/-- A merge request, approved once more when the refresh reads it, and
issues of which one is read twice; that one is closed by the merge request
and mentioned by the other issue. -/
def gitlabAnswers : GitLab.Answers :=
  { OneProject.gitlabAnswers none with
    mergeRequests := fun _ => once [gitlabMergeRequest []]
    issues := fun _ => gitlabIssues
    resolve := fun
      | 0 =>
        { details := .ok { relatedMergeRequests := [], approvedBy := ["ann"], notes := [] }
          discussions := fun _ => .ok [gitlabDiscussion] }
      | 1 =>
        { details := .ok { relatedMergeRequests := [], approvedBy := [], notes := [] }
          discussions := fun _ => .ok [] }
      | _ =>
        { details := .ok
            { relatedMergeRequests := [⟨"2", "2", some "opened"⟩], approvedBy := [],
              notes := [⟨true, some "mentioned in issue #1"⟩] }
          discussions := fun _ => .ok [] }
    byIid := fun _ => .ok (some (gitlabMergeRequest ["ann", "bob"]))
    refreshDiscussions := fun _ _ => .ok [gitlabDiscussion] }

/-- The merge request's record, of the fetch and of the refresh. -/
def mergeRequest (approvedBy : List String) : RawRecord GitLab.Payload :=
  GitLab.nodeRecord .changeRequest startedAt
    { gitlabMergeRequest approvedBy with
      projectPath := some "group/project", discussions := [gitlabDiscussion] }

/-- An issue that no candidate names. -/
def otherIssue : RawRecord GitLab.Payload :=
  GitLab.nodeRecord .issue startedAt
    { gitlabNode "1" "2026-06-01T08:30:00Z" with projectPath := some "group/project" }

/-- The record of the issue that is read twice. -/
def issue (titles : List String) : RawRecord GitLab.Payload :=
  GitLab.nodeRecord .issue startedAt
    { gitlabIssue titles with
      projectPath := some "group/project"
      relatedMergeRequests := [⟨"2", "2", some "opened"⟩]
      notes := [⟨true, some "mentioned in issue #1"⟩]
      mentions := [⟨"1", some "opened"⟩] }

theorem gitlab_primary : gitlabRest.primary startedAt since gitlabAnswers =
    [mergeRequest ["ann"], otherIssue, issue ["p1"], issue ["p1", "p2"]] := by
  rfl

theorem gitlab_refreshed :
    gitlabRest.refreshed startedAt gitlabAnswers [candidate "group/project"] =
      [mergeRequest ["ann", "bob"]] := by
  rfl

theorem gitlab_deduped : dedupeRecords (gitlabRest.primary startedAt since gitlabAnswers ++
    gitlabRest.refreshed startedAt gitlabAnswers [candidate "group/project"]) =
      [mergeRequest ["ann", "bob"], otherIssue, issue ["p1", "p2"]] := by
  rfl

theorem gitlab_mergeRequest (approvedBy : List String) :
    gitlabRest.reader.OfItem (mergeRequest approvedBy) .changeRequest
      { gitlabMergeRequest approvedBy with
        projectPath := some "group/project", discussions := [gitlabDiscussion] } :=
  ⟨rfl, rfl, rfl⟩

theorem gitlab_issue (titles : List String) :
    gitlabRest.reader.OfItem (issue titles) .issue
      { gitlabIssue titles with
        projectPath := some "group/project"
        relatedMergeRequests := [⟨"2", "2", some "opened"⟩]
        notes := [⟨true, some "mentioned in issue #1"⟩]
        mentions := [⟨"1", some "opened"⟩] } :=
  ⟨rfl, rfl, rfl⟩

theorem gitlab_idsByKind : IdsByKind (gitlabRest.primary startedAt since gitlabAnswers ++
    gitlabRest.refreshed startedAt gitlabAnswers [candidate "group/project"]) := by
  rw [gitlab_primary, gitlab_refreshed]
  unfold IdsByKind
  decide

/-- Both records that are replaced are carried on. -/
theorem gitlab_carries :
    let primary := gitlabRest.primary startedAt since gitlabAnswers
    let refreshed := gitlabRest.refreshed startedAt gitlabAnswers [candidate "group/project"]
    ∀ r ∈ primary, ∀ r', Latest (primary ++ refreshed) r' → r'.key = r.key → r' ≠ r →
      gitlabRest.listing.Carries primary (primary ++ refreshed)
        (gitlabRest.StillLinks primary refreshed r r') r r' := by
  intro primary refreshed r hr r' hr' hkey hne
  have hlast := mem_dedupeRecords_iff_latest.mpr hr'
  rw [gitlab_deduped] at hlast
  rw [show primary = _ from gitlab_primary] at hr
  simp only [List.mem_cons, List.not_mem_nil, or_false] at hr hlast
  rcases hr with rfl | rfl | rfl | rfl
  · obtain rfl : r' = mergeRequest ["ann", "bob"] := by
      rcases hlast with rfl | rfl | rfl
      · rfl
      · exact absurd hkey (by decide)
      · exact absurd hkey (by decide)
    refine .of_item (gitlab_mergeRequest _) (gitlab_mergeRequest _) ⟨?_, ?_, ?_, ?_⟩
    · refine ⟨fun _ => rfl, fun _ => List.nil_subset _, fun hkind => ?_, fun hkind => ?_⟩
      · cases hkind
      · cases hkind
    · -- the opening and the first approval are there, and one more approval
      intro id hid
      exact Or.inl (List.mem_append_left [_] hid)
    · exact fun _ hid => Or.inl hid
    · exact fun _ => List.Subset.refl _
  · rcases hlast with rfl | rfl | rfl
    · exact absurd hkey (by decide)
    · exact absurd rfl hne
    · exact absurd hkey (by decide)
  · obtain rfl : r' = issue ["p1", "p2"] := by
      rcases hlast with rfl | rfl | rfl
      · exact absurd hkey (by decide)
      · exact absurd hkey (by decide)
      · rfl
    refine .of_item (gitlab_issue _) (gitlab_issue _) ⟨?_, ?_, ?_, ?_⟩
    · refine ⟨fun href => ?_, fun _ => List.Subset.refl _, fun _ => List.Subset.refl _,
        fun _ _ hid => Or.inl hid⟩
      rw [show refreshed = _ from gitlab_refreshed, List.mem_singleton] at href
      cases href
    · exact fun _ hid => Or.inl hid
    · exact fun _ hid => Or.inl hid
    · exact fun _ => List.subset_append_left _ ["p2"]
  · rcases hlast with rfl | rfl | rfl
    · exact absurd hkey (by decide)
    · exact absurd hkey (by decide)
    · exact absurd rfl hne

/-- An open review thread of the pull request. -/
def githubThread : GitHub.ReviewThread :=
  { id := some "T1", isResolved := false, isOutdated := some false, resolvedBy := none,
    path := some "a.ts", line := some 3, startLine := none, commentsTotalCount := some 1,
    comments := [], latestComment := none }

/-- A review of the pull request. -/
def githubReview (id submittedAt : String) : GitHub.Review :=
  { id := some id, author := some "ann", state := some "APPROVED",
    submittedAt := some submittedAt, url := none }

/-- A pull request that closes an issue and is mentioned by another, with a
label, a review thread and these reviews. -/
def githubPullRequest (reviews : List GitHub.Review) : GitHub.Node :=
  { githubNode "PR_2" "2026-06-01T09:00:00Z" with
    number := some 2, createdAt := some "2026-05-30T08:00:00Z", labels := [⟨"bug", none⟩],
    closingIssues := [⟨"I_5", some "OPEN"⟩],
    crossReferences := [⟨false, some ⟨"I_1", some "OPEN"⟩⟩], reviews,
    reviewThreads := some
      { totalCount := some 1, hasNextPage := false, endCursor := none, nodes := [githubThread] } }

/-- A pull request that the probe finds, reviewed once more when the refresh
reads it. -/
def githubAnswers : GitHub.Answers :=
  { OneProject.githubAnswers none with
    probe := fun _ _ _ => .ok (some
      { nodes := [⟨some 2, some "2026-06-01T09:00:00Z"⟩], hasNextPage := false, endCursor := none })
    detail := fun _ _ _ => .ok (some (githubPullRequest [githubReview "R_1" "2026-06-01T08:00:00Z"]))
    byNumber := fun _ => .ok (some (githubPullRequest
      [githubReview "R_1" "2026-06-01T08:00:00Z", githubReview "R_2" "2026-06-01T09:59:00Z"])) }

/-- The pull request's record. -/
def pullRequest (reviews : List GitHub.Review) : RawRecord GitHub.Payload :=
  GitHub.nodeRecord .changeRequest startedAt (githubPullRequest reviews)

theorem github_primary : github.primary startedAt since githubAnswers =
    [pullRequest [githubReview "R_1" "2026-06-01T08:00:00Z"]] := by
  have hissues : GitHub.listPages since .issue startedAt
      (GitHub.visitOf "owner/name" (githubAnswers.trackerRefs 0) (githubAnswers.threadPages 0) .issue)
      (githubAnswers.issues 0) 0 .start = (.empty, .noConnection) := by
    simp [GitHub.listPages, GitHub.request, githubAnswers, OneProject.githubAnswers]
  have hissueRead : (GitHubSource.issueRead startedAt since githubAnswers "owner/name" 0).records =
      [] := by
    simp only [GitHubSource.issueRead, GitHub.sweepListing, hissues, GitHub.Read.empty]
  have hreads : (github.sweepReads startedAt since githubAnswers).flatMap (·.records) =
      (GitHubSource.issueRead startedAt since githubAnswers "owner/name" 0).records ++
        ((GitHubSource.pullRequestRead startedAt since githubAnswers "owner/name" 0).records ++ []) :=
    rfl
  calc github.primary startedAt since githubAnswers
      = (github.sweepReads startedAt since githubAnswers).flatMap (·.records) ++ [] := rfl
    _ = (GitHubSource.pullRequestRead startedAt since githubAnswers "owner/name" 0).records := by
        rw [hreads, hissueRead, List.nil_append, List.append_nil, List.append_nil]
    _ = _ := rfl

theorem github_refreshed : github.refreshed startedAt githubAnswers [candidate "owner/name"] =
    [pullRequest [githubReview "R_1" "2026-06-01T08:00:00Z",
      githubReview "R_2" "2026-06-01T09:59:00Z"]] := by
  rfl

theorem github_pullRequest (reviews : List GitHub.Review) :
    github.reader.OfItem (pullRequest reviews) .changeRequest (githubPullRequest reviews) :=
  ⟨rfl, rfl, rfl⟩

theorem github_idsByKind : IdsByKind (github.primary startedAt since githubAnswers ++
    github.refreshed startedAt githubAnswers [candidate "owner/name"]) := by
  rw [github_primary, github_refreshed]
  unfold IdsByKind
  decide

/-- More reviews, more activities. -/
theorem activityIds_githubPullRequest {reviews reviews' : List GitHub.Review}
    (h : reviews ⊆ reviews') :
    (githubPullRequest reviews).activityIds .changeRequest ⊆
      (githubPullRequest reviews').activityIds .changeRequest := by
  intro id hid
  rcases List.mem_append.mp hid with hid | hid
  · exact List.mem_append_left _ hid
  · obtain ⟨review, hreview, hsome⟩ := List.mem_filterMap.mp hid
    exact List.mem_append_right _ (List.mem_filterMap.mpr ⟨review, h hreview, hsome⟩)

/-- The record that is replaced is carried on. -/
theorem github_carries :
    let primary := github.primary startedAt since githubAnswers
    let refreshed := github.refreshed startedAt githubAnswers [candidate "owner/name"]
    ∀ r ∈ primary, ∀ r', Latest (primary ++ refreshed) r' → r'.key = r.key → r' ≠ r →
      github.listing.Carries primary (primary ++ refreshed)
        (github.StillLinks (primary ++ refreshed) r) r r' := by
  intro primary refreshed r hr r' hr' hkey hne
  have hlast := hr'.mem
  rw [show primary = _ from github_primary, show refreshed = _ from github_refreshed] at hlast
  rw [show primary = _ from github_primary, List.mem_singleton] at hr
  obtain rfl := hr
  simp only [List.cons_append, List.nil_append, List.mem_cons, List.not_mem_nil, or_false] at hlast
  obtain rfl := hlast.resolve_left hne
  refine .of_item (github_pullRequest _) (github_pullRequest _) ⟨?_, ?_, ?_, ?_⟩
  · refine ⟨fun _ _ hid => Or.inl hid, fun hkind => ?_, fun _ hid => Or.inl hid, fun hkind => ?_⟩
    · cases hkind
    · cases hkind
  · -- the opening and the first review are there, and one more review
    exact fun id hid => Or.inl (activityIds_githubPullRequest (List.subset_append_left [_] [_]) hid)
  · exact fun _ hid => Or.inl hid
  · exact fun _ => List.Subset.refl _

/-- What the fetch of each provider writes: links, an approval or a review,
a thread and a label of items that are read twice. The merge keeps it. -/
theorem refreshKeeps_readTwice :
    (gitlabRest.RefreshKeeps startedAt startedAt since gitlabAnswers [candidate "group/project"] ∧
      let rows := written (gitlabRest.toSource startedAt gitlabAnswers) gitlabRest.normalize
        startedAt (gitlabRest.primary startedAt since gitlabAnswers)
      let item := gitlabRest.reader.endpointOf
      rows.Holds (.edge (.closes, item "2", item "5")) ∧
      rows.Holds (.edge (.mentions, item "1", item "5")) ∧
      rows.Holds (.activity (item (GitLab.approvalId "2" "ann"))) ∧
      rows.Holds (.reviewThread (item "d1")) ∧ rows.HasLabel (item "2") "bug") ∧
    github.RefreshKeeps startedAt startedAt since githubAnswers [candidate "owner/name"] ∧
      let rows := written (github.toSource startedAt githubAnswers) github.normalize startedAt
        (github.primary startedAt since githubAnswers)
      let item := github.reader.endpointOf
      rows.Holds (.edge (.closes, item "PR_2", item "I_5")) ∧
      rows.Holds (.edge (.mentions, item "I_1", item "PR_2")) ∧
      rows.Holds (.activity (item (GitHub.reviewId "PR_2"
        (githubReview "R_1" "2026-06-01T08:00:00Z") "2026-06-01T08:00:00Z"))) ∧
      rows.Holds (.reviewThread (item "T1")) ∧ rows.HasLabel (item "PR_2") "bug" := by
  refine ⟨⟨?_, ?_⟩, ?_, ?_⟩
  · exact ((refreshKeeps_iff startedAt startedAt since [candidate "group/project"]).1 gitlabRest
      gitlabAnswers gitlab_idsByKind).mpr gitlab_carries
  · rw [gitlab_primary]
    refine ⟨?_, ?_, ?_, ?_, ?_⟩
    · unfold Store.Holds; decide
    · unfold Store.Holds; decide
    · unfold Store.Holds; decide
    · unfold Store.Holds; decide
    · exact ⟨_, rfl, _, List.mem_cons_self, rfl⟩
  · exact ((refreshKeeps_iff startedAt startedAt since [candidate "owner/name"]).2 github
      githubAnswers github_idsByKind).mpr github_carries
  · rw [github_primary]
    refine ⟨?_, ?_, ?_, ?_, ?_⟩
    · unfold Store.Holds; decide
    · unfold Store.Holds; decide
    · unfold Store.Holds; decide
    · unfold Store.Holds; decide
    · exact ⟨_, rfl, _, List.mem_cons_self, rfl⟩

/-- The same provider, with a note that the merge request is mentioned by
the first issue. -/
def gitlabMention : GitLab.Answers :=
  { gitlabAnswers with
    resolve := fun
      | 0 =>
        { details := .ok
            { relatedMergeRequests := [], approvedBy := ["ann"],
              notes := [⟨true, some "mentioned in issue #1"⟩] }
          discussions := fun _ => .ok [gitlabDiscussion] }
      | n => gitlabAnswers.resolve n }

end OneRefresh

open OneRefresh in
/-- **A refresh can lose a mention.** The fetch has resolved a note of the
merge request to the issue that mentions it; the refresh asks for the merge
request again and attaches no references. -/
theorem not_refreshKeeps :
    ¬ ∀ (src : GitLabSource) (startedAt now : String) (since : Option String)
      (answers : GitLab.Answers) (candidates : List RefreshCandidate),
      IdsByKind (src.primary now since answers ++ src.refreshed now answers candidates) →
      src.RefreshKeeps startedAt now since answers candidates := by
  intro h
  have hkeeps := h gitlabRest startedAt startedAt since gitlabMention [candidate "group/project"]
    (by unfold IdsByKind; decide)
  have hmention := hkeeps.parts (.edge (.mentions, gitlabRest.reader.endpointOf "1",
    gitlabRest.reader.endpointOf "2")) (by unfold Store.Holds; decide)
  revert hmention
  unfold Store.Holds
  decide

end SymphonyBoard
