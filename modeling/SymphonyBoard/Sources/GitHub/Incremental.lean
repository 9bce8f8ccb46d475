import SymphonyBoard.Sources.GitHub.Reads
/-!
# What the GitHub incremental fetch reads

With a watermark the issues are read page by page, and the pull requests
are probed for and then resolved one by one. A probe that is read to where
it may stop has the rows down to the watermark as its candidates
(`probePages_serves`); if none of them fails to resolve, each has a record
(`fetchIncrementalPullRequests_complete`).
-/

namespace SymphonyBoard

namespace GitHub

/-! ## The probe -/

/-- The row a candidate was read from. -/
def Candidate.row (c : Candidate) : ProbeNode := { number := some c.number, updatedAt := some c.updatedAt }

/-- The row the probe shows of a pull request. -/
def probeRow (node : Node) : ProbeNode := { number := node.number, updatedAt := some node.updatedAt }

/-- A row that does not stop the probe. -/
def freshRow (since : String) (row : ProbeNode) : Bool :=
  match row.updatedAt with
  | none => true
  | some updatedAt => notOlder (some since) updatedAt

theorem freshRow_some {since updatedAt : String} {number : Option Nat} :
    freshRow since { number, updatedAt := some updatedAt } = true ↔ ¬ updatedAt < since := by
  simp [freshRow, notOlder]

/-- **The rows of a probe page**: the candidates are the rows down to the
first older one. -/
theorem probeRows_spec {project since : String} {rows : List ProbeNode}
    {candidates : List Candidate} {stop : Bool}
    (h : probeRows project since rows = .ok (candidates, stop)) :
    candidates.map Candidate.row = rows.takeWhile (freshRow since) ∧
      (stop = false → rows.takeWhile (freshRow since) = rows) ∧
      (stop = true → rows.takeWhile (freshRow since) ≠ rows) := by
  induction rows generalizing candidates stop with
  | nil =>
    obtain ⟨rfl, rfl⟩ := Prod.mk.inj (Except.ok.inj h)
    exact ⟨rfl, (fun _ => rfl), (fun h => by cases h)⟩
  | cons row rows ih =>
    obtain ⟨number, updatedAt⟩ := row
    cases updatedAt with
    | none => cases h
    | some updatedAt =>
      rw [probeRows] at h
      simp only at h
      by_cases hlt : updatedAt < since
      · rw [if_pos hlt] at h
        obtain ⟨rfl, rfl⟩ := Prod.mk.inj (Except.ok.inj h)
        have hold : ¬ freshRow since ⟨number, some updatedAt⟩ = true :=
          fun hf => freshRow_some.mp hf hlt
        rw [List.takeWhile_cons_of_neg hold]
        exact ⟨rfl, (fun h => by cases h), (fun _ h => by cases h)⟩
      · rw [if_neg hlt] at h
        rw [List.takeWhile_cons_of_pos (freshRow_some.mpr hlt)]
        cases number with
        | none => cases h
        | some number =>
          simp only [bind, Except.bind, pure, Except.pure] at h
          cases hrest : probeRows project since rows with
          | error e =>
            rw [hrest] at h
            cases h
          | ok rest =>
            rw [hrest] at h
            obtain ⟨rfl, rfl⟩ := Prod.mk.inj (Except.ok.inj h)
            obtain ⟨hmap, hall, hstop⟩ := ih hrest
            refine ⟨by rw [List.map_cons, hmap]; rfl, fun hf => by rw [hall hf], fun ht heq => ?_⟩
            exact hstop ht (List.cons.inj heq).2

/-- A row that ends the probe does not end it well. -/
theorem probeRows_error {project since : String} {rows : List ProbeNode} {e : ProbeEnd}
    (h : probeRows project since rows = .error e) (candidates : List Candidate)
    (ending : ListingEnd) : e ≠ .done candidates ending := by
  induction rows with
  | nil => cases h
  | cons row rows ih =>
    obtain ⟨number, updatedAt⟩ := row
    cases updatedAt with
    | none =>
      obtain rfl := Except.error.inj h
      exact fun h => by cases h
    | some updatedAt =>
      rw [probeRows] at h
      simp only at h
      split at h
      · cases h
      · cases number with
        | none =>
          obtain rfl := Except.error.inj h
          exact fun h => by cases h
        | some number =>
          simp only [bind, Except.bind, pure, Except.pure] at h
          cases hrest : probeRows project since rows with
          | error e' =>
            rw [hrest] at h
            obtain rfl := Except.error.inj h
            exact ih hrest
          | ok rest =>
            rw [hrest] at h
            cases h

/-- **The probe reads a fixed listing down to the watermark**, when it
stops where it may. -/
theorem probePages_serves {project since : String} {listing : ProbeListing}
    {remaining : Nat × Option String → List ProbeNode}
    (hs : Serves (probeRequest listing) remaining) {left : Nat} {s : Nat × Option String}
    {candidates : List Candidate} {ending : ListingEnd}
    (h : probePages project since listing left s = .done candidates ending)
    (hend : ending.ReadThrough) :
    candidates.map Candidate.row = (remaining s).takeWhile (freshRow since) := by
  induction left generalizing s candidates with
  | zero =>
    obtain ⟨rfl, rfl⟩ := ProbeEnd.done.inj h
    rcases hend with h | h <;> cases h
  | succ left ih =>
    rw [probePages] at h
    cases hreq : probeRequest listing s with
    | error msg =>
      rw [hreq] at h
      cases h
    | ok found =>
      rw [hreq] at h
      rcases found with _ | ⟨page, s'⟩
      · obtain ⟨rfl, rfl⟩ := ProbeEnd.done.inj h
        rcases hend with h | h <;> cases h
      · simp only at h
        cases hrows : probeRows project since page.nodes with
        | error e =>
          rw [hrows] at h
          exact absurd h (probeRows_error hrows candidates ending)
        | ok rows =>
          obtain ⟨cs, stop⟩ := rows
          rw [hrows] at h
          obtain ⟨hmap, hall, hstop⟩ := probeRows_spec hrows
          rw [hs.page s page s' hreq]
          simp only at h
          cases stop with
          | true =>
            -- an old row ends the read within the page
            obtain ⟨rfl, -⟩ := ProbeEnd.done.inj h
            have hne : ((page.nodes.takeWhile (freshRow since)).length ≠ page.nodes.length) :=
              fun hlen => hstop rfl ((List.takeWhile_prefix _).eq_of_length hlen)
            rw [List.takeWhile_append, if_neg hne]
            exact hmap
          | false =>
            -- the whole page is fresh, and the read goes on behind it
            have hall := hall rfl
            simp only [Bool.false_eq_true, if_false] at h
            split at h
            · rename_i hnext
              obtain ⟨rfl, -⟩ := ProbeEnd.done.inj h
              rw [hs.last s page s' hreq hnext, List.append_nil]
              exact hmap
            · split at h
              · cases h
              · cases hrest : probePages project since listing left s' with
                | noNumber =>
                  rw [hrest] at h
                  cases h
                | failed msg =>
                  rw [hrest] at h
                  cases h
                | done rest ending' =>
                  rw [hrest] at h
                  obtain ⟨rfl, rfl⟩ := ProbeEnd.done.inj h
                  rw [List.map_append, hmap, hall, ih hrest, List.takeWhile_append,
                    if_pos (by rw [hall])]

/-! ## The candidates -/

/-- A candidate that resolves without error has the record of the node its
detail request answered with. -/
theorem resolveDetail_record {project now : String} {answer : Except String (Option Node)}
    {threads : ThreadPages} {candidate : Candidate}
    (h : (resolveDetail project now answer threads candidate).error = none) :
    ∃ node r, answer = .ok (some node) ∧
      (resolveDetail project now answer threads candidate).record = some r ∧
      RecordFor .changeRequest node.id r := by
  unfold resolveDetail at h ⊢
  match answer with
  | .error msg => cases h
  | .ok none => cases h
  | .ok (some node) =>
    simp only at h ⊢
    cases hc : completeReviewThreads project threads node with
    | error msg =>
      rw [hc] at h
      cases h
    | ok node' =>
      have hid := completeReviewThreads_id hc
      exact ⟨node, _, rfl, rfl, rfl, hid, node', rfl, hid⟩

/-- What the probe of a project comes to. -/
def probeEnd (project since : String) (listing : ProbeListing) : ProbeEnd :=
  probePages project since listing maxPages (0, none)

/-- **Complete incremental pull requests**: the probe is done, and each
candidate has the record of the node its detail request answered with. -/
theorem fetchIncrementalPullRequests_complete {project since now : String}
    {listing : ProbeListing} {detail : Nat → Nat → Except String (Option Node)}
    {threads : Nat → ThreadPages} {result : FetchResult Payload}
    (h : fetchIncrementalPullRequests project since now listing detail threads = .ok result)
    (hc : result.complete = true) :
    ∃ candidates ending, probeEnd project since listing = .done candidates ending ∧
      ∀ c ∈ candidates, ∃ pos node, detail pos c.number = .ok (some node) ∧
        ∃ r ∈ result.records, RecordFor .changeRequest node.id r := by
  unfold fetchIncrementalPullRequests at h
  split at h
  · obtain rfl := Except.ok.inj h
    cases hc
  · split at h
    · cases h
    · obtain rfl := Except.ok.inj h
      cases hc
    · rename_i candidates ending hprobe
      obtain rfl := Except.ok.inj h
      refine ⟨candidates, ending, hprobe, fun c hcand => ?_⟩
      obtain ⟨pos, hpos⟩ := List.mem_iff_getElem?.mp hcand
      have hmem : (c, pos) ∈ candidates.zipIdx := List.mem_zipIdx_iff_getElem?.mpr hpos
      have hout : resolveDetail project now (detail pos c.number) (threads pos) c ∈
          resolveCandidates project now detail threads candidates :=
        List.mem_map.mpr ⟨(c, pos), hmem, rfl⟩
      simp only [List.isEmpty_iff, List.filterMap_eq_nil_iff] at hc
      have herr := hc _ hout
      obtain ⟨node, r, hnode, hr, hrec⟩ := resolveDetail_record herr
      exact ⟨pos, node, hnode, r, List.mem_filterMap.mpr ⟨_, hout, hr⟩, hrec⟩

/-! ## Every record is of an item -/

theorem nodeRecord_recordFor (kind : RefKind) (now : String) (node : Node) :
    RecordFor kind (nodeRecord kind now node).externalId (nodeRecord kind now node) :=
  ⟨rfl, rfl, node, rfl, rfl⟩

theorem recordFor_of_mem_visitNodes {since : Option String} {kind : RefKind} {now : String}
    {visit : Visit} {pos : Nat} {nodes : List Node} {r : RawRecord Payload}
    (h : r ∈ (visitNodes since kind now visit pos nodes).1.records) :
    RecordFor kind r.externalId r := by
  induction nodes generalizing pos with
  | nil => cases h
  | cons node nodes ih =>
    rw [visitNodes] at h
    split at h
    · cases h
    · split at h
      · cases h
      · rcases List.mem_append.mp h with h | h
        · obtain rfl := List.mem_singleton.mp h
          exact nodeRecord_recordFor kind now _
        · exact ih h

theorem recordFor_of_mem_listPages {since : Option String} {kind : RefKind} {now : String}
    {visit : Visit} {listing : Listing} {fetched : Nat} {s : ReaderState} {r : RawRecord Payload}
    (h : r ∈ (listPages since kind now visit listing fetched s).1.records) :
    RecordFor kind r.externalId r := by
  rw [listPages] at h
  split at h
  · cases h
  · cases h
  · rename_i page s' _
    have hvisit : ∀ r ∈ (visitNodes since kind now visit fetched page.nodes).1.records,
        RecordFor kind r.externalId r := fun r hr => recordFor_of_mem_visitNodes hr
    split at h
    · rename_i hvis
      rw [hvis] at hvisit
      exact hvisit r h
    · rename_i hvis
      rw [hvis] at hvisit
      split at h
      · exact hvisit r h
      · split at h
        · exact hvisit r h
        · rename_i hcap
          have hlen := List.length_pos_of_ne_nil (not_or.mp hcap).2
          rcases List.mem_append.mp h with h | h
          · exact hvisit r h
          · exact recordFor_of_mem_listPages h
termination_by maxItems - fetched

theorem recordFor_of_mem_incremental {project since now : String} {listing : ProbeListing}
    {detail : Nat → Nat → Except String (Option Node)} {threads : Nat → ThreadPages}
    {r : RawRecord Payload}
    (h : r ∈ (sweepIncremental project since now listing detail threads).records) :
    RecordFor .changeRequest r.externalId r := by
  unfold sweepIncremental at h
  split at h
  · cases h
  · rename_i incremental hinc
    unfold fetchIncrementalPullRequests at hinc
    split at hinc
    · obtain rfl := Except.ok.inj hinc
      cases h
    · split at hinc
      · cases hinc
      · obtain rfl := Except.ok.inj hinc
        cases h
      · obtain rfl := Except.ok.inj hinc
        obtain ⟨outcome, hout, hr⟩ := List.mem_filterMap.mp h
        obtain ⟨⟨c, pos⟩, -, rfl⟩ := List.mem_map.mp hout
        simp only [resolveDetail] at hr
        split at hr
        · cases hr
        · cases hr
        · split at hr
          · cases hr
          · obtain rfl := Option.some.inj hr
            exact nodeRecord_recordFor .changeRequest now _

end GitHub

open GitHub

namespace GitHubSource

variable (src : GitHubSource) (now : String) (since : Option String) (answers : Answers)

/-- What the fetch reads of one listing: the pull requests of an
incremental fetch are probed for. -/
def sweepRead (project : String) (i : Nat) : RefKind → SweepRead
  | .issue => issueRead now since answers project i
  | .changeRequest => pullRequestRead now since answers project i

theorem sweepRead_mem {i : Nat} {project : String} (h : src.projects[i]? = some project)
    (kind : RefKind) : sweepRead now since answers project i kind ∈ src.sweepReads now since answers := by
  refine List.mem_flatMap.mpr ⟨(project, i), List.mem_zipIdx_iff_getElem?.mpr h, ?_⟩
  cases kind <;> simp [sweepRead]

theorem recordFor_of_mem_sweepReads {r : RawRecord Payload}
    (h : r ∈ (src.sweepReads now since answers).flatMap (·.records)) :
    ∃ kind, RecordFor kind r.externalId r := by
  obtain ⟨read, hread, hr⟩ := List.mem_flatMap.mp h
  obtain ⟨⟨project, i⟩, -, hread⟩ := List.mem_flatMap.mp hread
  simp only [List.mem_cons, List.not_mem_nil, or_false] at hread
  rcases hread with rfl | rfl
  · exact ⟨.issue, recordFor_of_mem_listPages hr⟩
  · cases since with
    | none => exact ⟨.changeRequest, recordFor_of_mem_listPages hr⟩
    | some since => exact ⟨.changeRequest, recordFor_of_mem_incremental hr⟩

/-- A refreshed record is of a pull request. -/
theorem recordFor_of_mem_fetchRefresh {candidates : List RefreshCandidate} {r : RawRecord Payload}
    (hr : r ∈ (src.fetchRefresh now answers candidates).records) :
    RecordFor .changeRequest r.externalId r := by
  obtain ⟨outcome, ho, hrec⟩ := List.mem_filterMap.mp hr
  obtain ⟨⟨target, i⟩, -, rfl⟩ := List.mem_map.mp ho
  simp only [refreshItem] at hrec
  split at hrec
  · cases hrec
  · split at hrec
    · cases hrec
    · cases hrec
    · split at hrec
      · cases hrec
      · obtain rfl := Option.some.inj hrec
        exact nodeRecord_recordFor .changeRequest now _

/-- The fetch and the refresh yield what the reader knows. -/
theorem reads : src.reader.Reads (src.toSource now answers) where
  fetched _ _ h r hr := by
    obtain rfl := Except.ok.inj h
    rcases List.mem_append.mp hr with hr | hr
    · obtain ⟨kind, hrec⟩ := src.recordFor_of_mem_sweepReads now _ answers hr
      exact Or.inr (src.ofItem_of_recordFor hrec)
    · exact Or.inl (src.entityKind_of_activityReads now answers hr)
  refreshed _ hf _ _ _ h r hr := by
    obtain rfl := Option.some.inj hf
    obtain rfl := Except.ok.inj h
    exact Or.inr (src.ofItem_of_recordFor (src.recordFor_of_mem_fetchRefresh now answers hr))

/-! ## What is read through -/

/-- The fetch reads a listing to where it may stop. -/
def ReadThrough (project : String) (i : Nat) : RefKind → Prop
  | .issue =>
    (listPages since .issue now (visitOf project (answers.trackerRefs i) (answers.threadPages i) .issue)
      (answers.issues i) 0 .start).2.ReadThrough
  | .changeRequest =>
    match since with
    | none =>
      (listPages none .changeRequest now
        (visitOf project (answers.trackerRefs i) (answers.threadPages i) .changeRequest)
        (answers.pullRequests i) 0 .start).2.ReadThrough
    | some since =>
      ∃ candidates ending, probeEnd project since (answers.probe i) = .done candidates ending ∧
        ending.ReadThrough

/-- The provider shows these items: its listings and its probe hand them
out in order, and a pull request asked for by its number is that one. -/
structure Shows (answers : Answers) (visible : RefKind → Nat → List Node) : Prop where
  listing : ∀ kind i, ∃ remaining, Serves (request (answers.listing kind i)) remaining ∧
    remaining .start = visible kind i
  probe : ∀ i, ∃ remaining, Serves (probeRequest (answers.probe i)) remaining ∧
    remaining (0, none) = (visible .changeRequest i).map probeRow
  detail : ∀ i pos number node, answers.detail i pos number = .ok (some node) →
    ∀ x ∈ visible .changeRequest i, x.number = some number → node.id = x.id

/-- **Every shown item down to the watermark has a record**, when its
listing is read through and the fetch does not withhold its watermark. -/
theorem exists_record_of_shown {visible : RefKind → Nat → List Node} (hshow : Shows answers visible)
    (hwith : src.withholds now since answers = false) {i : Nat} {project : String}
    (hi : src.projects[i]? = some project) {kind : RefKind}
    (hthrough : ReadThrough now since answers project i kind) {x : Node}
    (hx : x ∈ (visible kind i).takeWhile fun node => notOlder since node.updatedAt) :
    ∃ r ∈ (src.sweepReads now since answers).flatMap (·.records), RecordFor kind x.id r := by
  suffices h : ∃ r ∈ (sweepRead now since answers project i kind).records, RecordFor kind x.id r by
    obtain ⟨r, hr, hrec⟩ := h
    exact ⟨r, List.mem_flatMap.mpr ⟨_, src.sweepRead_mem now since answers hi kind, hr⟩, hrec⟩
  obtain ⟨remaining, hs, hstart⟩ := hshow.listing kind i
  have hv := keepsNode_visitOf project (answers.trackerRefs i) (answers.threadPages i) kind
  cases kind with
  | issue =>
    have hrec := listPages_serves now hv hs 0 .start hthrough
    rw [hstart] at hrec
    exact hrec.exists_record hx
  | changeRequest =>
    cases since with
    | none =>
      have hrec := listPages_serves now hv hs 0 .start hthrough
      rw [hstart] at hrec
      exact hrec.exists_record hx
    | some since =>
      -- an incremental run probes the pull requests and reads what is fresh one by one
      obtain ⟨candidates, ending, hprobe, hend⟩ := hthrough
      simp only [withholds, Bool.or_eq_false_iff, List.any_eq_false] at hwith
      have hno := hwith.2 _ (src.sweepRead_mem now (some since) answers hi .changeRequest)
      simp only [sweepRead, pullRequestRead, sweepIncremental] at hno ⊢
      cases hinc : fetchIncrementalPullRequests project since now (answers.probe i)
          (answers.detail i) (answers.detailThreadPages i) with
      | error msg =>
        rw [hinc] at hno
        exact absurd rfl hno
      | ok incremental =>
        rw [hinc] at hno
        obtain ⟨cs, ending', hprobe', hall⟩ :=
          fetchIncrementalPullRequests_complete hinc (by simpa using hno)
        obtain ⟨rfl, rfl⟩ := ProbeEnd.done.inj (hprobe'.symm.trans hprobe)
        obtain ⟨remaining, hs, hstart⟩ := hshow.probe i
        have hrows := probePages_serves hs hprobe hend
        rw [hstart, List.takeWhile_map] at hrows
        have hrow : probeRow x ∈ cs.map Candidate.row := hrows ▸ List.mem_map_of_mem hx
        obtain ⟨c, hc, hcx⟩ := List.mem_map.mp hrow
        have hnumber : x.number = some c.number := (congrArg ProbeNode.number hcx).symm
        obtain ⟨pos, node, hnode, r, hr, hrec⟩ := hall c hc
        rw [hshow.detail i pos c.number node hnode x (List.takeWhile_subset _ hx) hnumber] at hrec
        exact ⟨r, hr, hrec⟩

end GitHubSource

end SymphonyBoard
