import SymphonyBoard.Graph.Neighborhood
/-!
# Reading a neighbourhood frontier by frontier

`readGraphNeighborhoodSnapshot` of `src/server/graph-neighborhood.ts` reads
the edges at one frontier at a time, the rows of the ends it has not met,
and builds the neighbourhood of what it read. A run that nothing cut has
read every eligible edge with an end within the depth (`ReadAll`); one whose
frontier was cut has too many refs to fit (`Crowded`); one whose edges were
cut says so (`outcome_run`).
-/

namespace SymphonyBoard

variable {P : Type}

/-! ## One frontier -/

/-- What has been read so far. -/
structure FrontierRead where
  itemsByRef : OrdMap Ref ItemRecord
  allowedRefs : List Ref
  visitedRefs : List Ref
  edgesByKey : OrdMap EdgeRowKey EdgeRow
  frontier : List Ref
  edgeReadCapped : Bool

/-- The two ends of a stored edge. -/
def rowRefs (e : EdgeRecord) : List Ref := [refOfEndpoint e.1.2.1, refOfEndpoint e.1.2.2]

/-- The edges followed from a frontier: mentions count at the first step
alone, except in mode `all`. -/
def eligibleFrontierEdges (mode : GraphNeighborhoodMentionMode) (hop : ℕ)
    (rows : List EdgeRecord) : List EdgeRecord :=
  rows.filter fun e => decide (mode = .all) || decide (e.1.1 ≠ .mentions) || decide (hop = 0)

/-- The ends of the rows, once each. -/
def candidateRefs (rows : List EdgeRecord) : List Ref := (rows.flatMap rowRefs).eraseDups

/-- The ends the search goes on from: not those that mentions alone lead to,
except in mode `all`. -/
def traversalCandidateRefs (mode : GraphNeighborhoodMentionMode) (rows : List EdgeRecord) :
    List Ref :=
  candidateRefs (rows.filter fun e => decide (mode = .all) || decide (e.1.1 ≠ .mentions))

/-- A row in a configured repository. -/
def configuredItem (configuredRepos : List RepoRef) (row : ItemRecord) : Bool :=
  (nonEmpty row.2.item.projectPath).isSome && rowAllowed (some configuredRepos) row

/-- Admit the candidates whose row is in a configured repository, and those
of a configured source that have no row. -/
def FrontierRead.allow (configuredRepos : List RepoRef) (candidates : List Ref)
    (found : List ItemRecord) (st : FrontierRead) : FrontierRead :=
  let kept := found.filter fun row => configuredItem configuredRepos row
  { st with
    itemsByRef := kept.foldl (fun m row => m.set (refOfEndpoint row.1) row) st.itemsByRef
    allowedRefs := st.allowedRefs ++ kept.map (fun row => refOfEndpoint row.1) ++
      candidates.filter fun ref => (configuredRef configuredRepos ref).isSome &&
        decide (ref ∉ found.map fun row => refOfEndpoint row.1) }

/-- Keep the edges whose ends are both allowed. -/
def FrontierRead.keep (rejected : List Ref) (rows : List EdgeRecord) (st : FrontierRead) :
    FrontierRead :=
  { st with
    edgesByKey := (rows.filter fun e => (rowRefs e).all fun ref =>
        decide (ref ∉ rejected) && decide (ref ∈ st.allowedRefs)).foldl
      (fun m e => m.set e.1 e.2) st.edgesByKey }

section Reader

variable (localeCompare : String → String → Ordering) (configuredRepos : List RepoRef) (s : Store P)
  (mode : GraphNeighborhoodMentionMode)

/-- The references of the frontier not yet read. -/
def FrontierRead.fresh (st : FrontierRead) : List Ref :=
  st.frontier.filter fun ref => decide (ref ∉ st.visitedRefs)

/-- What the store answers for the frontier: its edges, and whether there are more. -/
def FrontierRead.page (st : FrontierRead) : List EdgeRecord × Bool :=
  s.readEdges localeCompare (refsBySource configuredRepos localeCompare st.fresh)
    (graphNeighborhoodMaxEdges + 1)

/-- The rows of the candidates not allowed yet. -/
def FrontierRead.found (candidates : List Ref) (st : FrontierRead) : List ItemRecord :=
  s.readItems (refsBySource configuredRepos localeCompare
    (candidates.filter fun ref => decide (ref ∉ st.allowedRefs)))

/-- The next frontier, before it is cut. -/
def FrontierRead.next (rows : List EdgeRecord) (st : FrontierRead) : List Ref :=
  sortBy textOrder ((traversalCandidateRefs mode rows).filter fun ref =>
    decide (ref ∈ st.allowedRefs) && decide (ref ∉ st.visitedRefs))

/-- What a frontier's edges add. -/
def FrontierRead.take (rows : List EdgeRecord) (st : FrontierRead) : FrontierRead :=
  let candidates := candidateRefs rows
  let found := st.found localeCompare configuredRepos s candidates
  let rejected := (found.filter fun row => !configuredItem configuredRepos row).map
    fun row => refOfEndpoint row.1
  (st.allow configuredRepos candidates found).keep rejected rows

/-- The edges of a frontier that are followed or shown. -/
def FrontierRead.rowsAt (hop : ℕ) (st : FrontierRead) : List EdgeRecord :=
  eligibleFrontierEdges mode hop (st.page localeCompare configuredRepos s).1

/-- The state once the rows are taken in. -/
def FrontierRead.taken (hop : ℕ) (st : FrontierRead) : FrontierRead :=
  FrontierRead.take localeCompare configuredRepos s
    (st.rowsAt localeCompare configuredRepos s mode hop)
    { st with visitedRefs := st.visitedRefs ++ st.fresh }

/-- One step: the rows are taken in, and the next frontier is what they lead to. -/
def FrontierRead.step (hop : ℕ) (st : FrontierRead) : FrontierRead :=
  let taken := st.taken localeCompare configuredRepos s mode hop
  { taken with
    frontier := (taken.next mode (st.rowsAt localeCompare configuredRepos s mode hop)).take
      (graphNeighborhoodMaxNodes + 1)
    edgeReadCapped := st.edgeReadCapped || (st.page localeCompare configuredRepos s).2 ||
      decide (graphNeighborhoodMaxEdges < taken.edgesByKey.entries.length) }

/-- At most so many frontiers, until one is empty or edges are cut. -/
def FrontierRead.run : ℕ → ℕ → FrontierRead → FrontierRead
  | 0, _, st => st
  | n + 1, hop, st =>
    if st.frontier = [] then st
    else
      let st' := st.step localeCompare configuredRepos s mode hop
      if st'.edgeReadCapped then st'
      else FrontierRead.run n (hop + 1) st'

/-- The search starts from the focus alone. -/
def FrontierRead.start (focusRef : Ref) (focusRow : ItemRecord) : FrontierRead :=
  { itemsByRef := OrdMap.empty.set focusRef focusRow
    allowedRefs := [focusRef]
    visitedRefs := []
    edgesByKey := OrdMap.empty
    frontier := [focusRef]
    edgeReadCapped := false }

/-- The edges at each frontier in turn, then the neighbourhood of what they
hold. -/
def readGraphNeighborhoodSnapshot (cfg : AppConfig) (generatedAt : String) (focusRef : Ref)
    (depth : ℕ) : Except String GraphNeighborhoodResponse := do
  let configuredRepos := configuredRepoRefs cfg
  let focusRow ← readGraphFocus configuredRepos s focusRef
  let read := (FrontierRead.start focusRef focusRow).run localeCompare configuredRepos s mode
    (depth + 1) 0
  let items := read.itemsByRef.values
  let response ← buildGraphNeighborhood localeCompare configuredRepos items
    (s.listLabelsByItemIds items) read.edgesByKey.entries generatedAt focusRef depth mode
    graphNeighborhoodMaxNodes graphNeighborhoodMaxEdges
  return withLimitReasons response (response.limitReasons ++
    if read.edgeReadCapped then [.edges] else [])

end Reader

/-! ## What the reads admit -/

variable {localeCompare : String → String → Ordering} {configuredRepos : List RepoRef} {s : Store P}
  {mode : GraphNeighborhoodMentionMode} {focusRef : Ref} {depth hop : ℕ} {st : FrontierRead}

/-- An edge whose ends the whole store admits. -/
def AdmittedRow (configuredRepos : List RepoRef) (s : Store P) (row : EdgeRecord) : Prop :=
  AdmitsEndpoint (some configuredRepos) s.listLiveItems row.1.2.1 ∧
    AdmitsEndpoint (some configuredRepos) s.listLiveItems row.1.2.2

/-- The configured project paths are not empty. -/
def PathsNonEmpty (configuredRepos : List RepoRef) : Prop :=
  ∀ r ∈ configuredRepos, r.projectPath ≠ ""

/-- What is read is live and admitted, and what is allowed is loaded. -/
structure Sound (configuredRepos : List RepoRef) (s : Store P) (mode : GraphNeighborhoodMentionMode)
    (focusRef : Ref) (st : FrontierRead) : Prop where
  focus : focusRef ∈ st.allowedRefs
  allowed : ∀ ref ∈ st.allowedRefs, ∃ e : ItemEndpoint, e.Named ∧ refOfEndpoint e = ref ∧
    AdmitsEndpoint (some configuredRepos) s.listLiveItems e
  items : ∀ ref row, st.itemsByRef.get? ref = some row →
    row ∈ s.liveItems ∧ rowAllowed (some configuredRepos) row = true
  loaded : ∀ row ∈ s.liveItems, refOfEndpoint row.1 ∈ st.allowedRefs →
    st.itemsByRef.get? (refOfEndpoint row.1) = some row
  rows : ∀ row ∈ st.edgesByKey.entries, row ∈ s.liveEdges ∧
    EligibleEdge mode focusRef (toEdgeDTO row) ∧ ∀ ref ∈ rowRefs row, ref ∈ st.allowedRefs
  frontier : ∀ ref ∈ st.frontier, ref ∈ st.allowedRefs

theorem Sound.admits (h : Sound configuredRepos s mode focusRef st) {e : ItemEndpoint}
    (he : refOfEndpoint e ∈ st.allowedRefs) :
    AdmitsEndpoint (some configuredRepos) s.listLiveItems e := by
  obtain ⟨e', -, href, hadmits⟩ := h.allowed _ he
  exact refOfEndpoint_injective href ▸ hadmits

theorem Sound.named (h : Sound configuredRepos s mode focusRef st) {e : ItemEndpoint}
    (he : refOfEndpoint e ∈ st.allowedRefs) : e.Named := by
  obtain ⟨e', hnamed, href, -⟩ := h.allowed _ he
  exact refOfEndpoint_injective href ▸ hnamed

theorem configuredItem_iff (hpaths : PathsNonEmpty configuredRepos) {row : ItemRecord} :
    configuredItem configuredRepos row = true ↔ rowAllowed (some configuredRepos) row = true := by
  unfold configuredItem
  rw [Bool.and_eq_true]
  refine ⟨fun h => h.2, fun h => ⟨?_, h⟩⟩
  unfold rowAllowed repoAllowed at h
  simp only [Option.all_some, List.any_eq_true, Bool.and_eq_true, decide_eq_true_eq] at h
  obtain ⟨r, hr, -, hpath⟩ := h
  rw [← hpath]
  simp [nonEmpty, hpaths r hr]

theorem mem_candidateRefs {rows : List EdgeRecord} {ref : Ref} :
    ref ∈ candidateRefs rows ↔ ∃ row ∈ rows, ref ∈ rowRefs row := by
  unfold candidateRefs
  rw [List.mem_eraseDups, List.mem_flatMap]

theorem mem_rowRefs {row : EdgeRecord} {e : ItemEndpoint} :
    refOfEndpoint e ∈ rowRefs row ↔ e = row.1.2.1 ∨ e = row.1.2.2 := by
  unfold rowRefs
  rw [List.mem_pair, refOfEndpoint_injective.eq_iff, refOfEndpoint_injective.eq_iff]

theorem of_mem_found {candidates : List Ref} {row : ItemRecord}
    (h : row ∈ st.found localeCompare configuredRepos s candidates) :
    row ∈ s.liveItems ∧ refOfEndpoint row.1 ∈ candidates ∧ refOfEndpoint row.1 ∉ st.allowedRefs := by
  obtain ⟨hlive, hat⟩ := Store.mem_readItems.mp h
  obtain ⟨href, -⟩ := ref_of_atRefs_refsBySource hat
  obtain ⟨hcandidate, hnew⟩ := List.mem_filter.mp href
  exact ⟨hlive, hcandidate, of_decide_eq_true hnew⟩

/-- The row of a candidate that is not allowed yet is found. -/
theorem mem_found {candidates : List Ref} {row : ItemRecord} (hlive : row ∈ s.liveItems)
    (hnamed : row.1.Named) (hcandidate : refOfEndpoint row.1 ∈ candidates)
    (hnew : refOfEndpoint row.1 ∉ st.allowedRefs)
    (hsource : sourceAllowed (some configuredRepos) row.1.sourceId = true) :
    row ∈ st.found localeCompare configuredRepos s candidates := by
  refine Store.mem_readItems.mpr ⟨hlive, (exists_atRefs_refsBySource hnamed).mpr ⟨?_, hsource⟩⟩
  exact List.mem_filter.mpr ⟨hcandidate, decide_eq_true hnew⟩

section Allow

variable {candidates : List Ref} (hpaths : PathsNonEmpty configuredRepos)
  (hcandidates : ∀ ref ∈ candidates, ∃ e : ItemEndpoint, e.Named ∧ refOfEndpoint e = ref)
  (h : Sound configuredRepos s mode focusRef st)
include hpaths h

/-- **A candidate is allowed exactly when the whole store admits it.** -/
theorem mem_allowedRefs_allow {e : ItemEndpoint} (hnamed : e.Named)
    (hcandidate : refOfEndpoint e ∈ candidates) :
    refOfEndpoint e ∈ (st.allow configuredRepos candidates
        (st.found localeCompare configuredRepos s candidates)).allowedRefs ↔
      AdmitsEndpoint (some configuredRepos) s.listLiveItems e := by
  unfold FrontierRead.allow
  simp only [List.mem_append, List.mem_map, List.mem_filter, Bool.and_eq_true, decide_eq_true_eq,
    configuredItem_iff hpaths]
  constructor
  · rintro ((hold | ⟨row, ⟨hfound, hallowed⟩, href⟩) | ⟨-, hconfigured, hmissing⟩)
    · exact h.admits hold
    · obtain ⟨hlive, -⟩ := of_mem_found hfound
      have hkey : row.1 = e := refOfEndpoint_injective href
      refine ⟨hkey ▸ sourceAllowed_of_repoAllowed hallowed, fun row' hrow' hkey' => ?_⟩
      rw [Store.liveItems_key (mem_listLiveItems.mp hrow') hlive (hkey'.trans hkey.symm)]
      exact hallowed
    · have hsource : sourceAllowed (some configuredRepos) e.sourceId = true := by
        obtain ⟨parts, hparts⟩ := Option.isSome_iff_exists.mp hconfigured
        obtain ⟨hsplit, hany⟩ := Option.filter_eq_some_iff.mp hparts
        rw [splitRef_refOfEndpoint hnamed] at hsplit
        rw [← Option.some.inj hsplit] at hany
        exact hany
      refine ⟨hsource, fun row hrow hkey => ?_⟩
      subst hkey
      have hlive := mem_listLiveItems.mp hrow
      by_cases hold : refOfEndpoint row.1 ∈ st.allowedRefs
      · exact (h.admits hold).row row hrow rfl
      · exact absurd ⟨row, mem_found hlive hnamed hcandidate hold hsource, rfl⟩ hmissing
  · intro hadmits
    by_cases hold : refOfEndpoint e ∈ st.allowedRefs
    · exact Or.inl (Or.inl hold)
    · by_cases hrow : ∃ row ∈ s.liveItems, row.1 = e
      · obtain ⟨row, hlive, rfl⟩ := hrow
        have hallowed := hadmits.row row (mem_listLiveItems.mpr hlive) rfl
        exact Or.inl (Or.inr ⟨row, ⟨mem_found hlive hnamed hcandidate hold hadmits.source,
          hallowed⟩, rfl⟩)
      · refine Or.inr ⟨hcandidate, ?_, ?_⟩
        · rw [configuredRef_refOfEndpoint hnamed hadmits.source]
          rfl
        · rintro ⟨row, hfound, href⟩
          exact hrow ⟨row, (of_mem_found hfound).1, refOfEndpoint_injective href⟩

omit hpaths h in
theorem allowedRefs_allow_of_mem {found : List ItemRecord} {ref : Ref} (href : ref ∈ st.allowedRefs) :
    ref ∈ (st.allow configuredRepos candidates found).allowedRefs :=
  List.mem_append_left _ (List.mem_append_left _ href)

omit hpaths h in
/-- What is newly allowed is a candidate. -/
theorem mem_candidates_of_allow {ref : Ref}
    (href : ref ∈ (st.allow configuredRepos candidates
      (st.found localeCompare configuredRepos s candidates)).allowedRefs) :
    ref ∈ st.allowedRefs ∨ ref ∈ candidates := by
  unfold FrontierRead.allow at href
  simp only [List.mem_append, List.mem_map, List.mem_filter] at href
  rcases href with (hold | ⟨row, ⟨hfound, -⟩, rfl⟩) | ⟨hcandidate, -⟩
  · exact Or.inl hold
  · exact Or.inr (of_mem_found hfound).2.1
  · exact Or.inr hcandidate

include hcandidates

theorem sound_allow : Sound configuredRepos s mode focusRef (st.allow configuredRepos candidates
    (st.found localeCompare configuredRepos s candidates)) := by
  refine ⟨allowedRefs_allow_of_mem h.focus, ?_, ?_, ?_, ?_, ?_⟩
  · intro ref href
    rcases mem_candidates_of_allow href with hold | hcandidate
    · exact h.allowed ref hold
    · obtain ⟨e, hnamed, rfl⟩ := hcandidates ref hcandidate
      exact ⟨e, hnamed, rfl, (mem_allowedRefs_allow hpaths h hnamed hcandidate).mp href⟩
  · intro ref row hget
    rcases OrdMap.get?_foldl_set_eq_some (f := id) hget with ⟨row', hkept, -, rfl⟩ | hold
    · obtain ⟨hfound, hallowed⟩ := List.mem_filter.mp hkept
      exact ⟨(of_mem_found hfound).1, (configuredItem_iff hpaths).mp hallowed⟩
    · exact h.items ref row hold
  · intro row hlive href
    refine OrdMap.get?_foldl_set_of (f := id) ?_ ?_
    · intro row' hkept hkey
      have hlive' := (of_mem_found (List.mem_filter.mp hkept).1).1
      exact Store.liveItems_key hlive' hlive (refOfEndpoint_injective hkey)
    · by_cases hold : refOfEndpoint row.1 ∈ st.allowedRefs
      · exact Or.inr (h.loaded row hlive hold)
      · have hcandidate := (mem_candidates_of_allow href).resolve_left hold
        obtain ⟨e, hnamed, heq⟩ := hcandidates _ hcandidate
        have hkey : e = row.1 := refOfEndpoint_injective heq
        subst hkey
        have hadmits := (mem_allowedRefs_allow hpaths h hnamed hcandidate).mp href
        have hfound : row ∈ st.found localeCompare configuredRepos s candidates :=
          mem_found hlive hnamed hcandidate hold hadmits.source
        have hallowed := hadmits.row row (mem_listLiveItems.mpr hlive) rfl
        exact Or.inl ⟨row, List.mem_filter.mpr ⟨hfound, (configuredItem_iff hpaths).mpr hallowed⟩,
          rfl⟩
  · intro row hrow
    obtain ⟨hlive, heligible, hends⟩ := h.rows row hrow
    exact ⟨hlive, heligible, fun ref href => allowedRefs_allow_of_mem (hends ref href)⟩
  · exact fun ref href => allowedRefs_allow_of_mem (h.frontier ref href)

end Allow

/-! ## What one frontier adds -/

theorem mem_edgesByKey_keep {rejected : List Ref} {rows : List EdgeRecord}
    (hrows : ∀ row ∈ rows, row ∈ s.liveEdges) (hold : ∀ row ∈ st.edgesByKey.entries, row ∈ s.liveEdges)
    {row : EdgeRecord} :
    row ∈ (st.keep rejected rows).edgesByKey.entries ↔
      row ∈ st.edgesByKey.entries ∨
        row ∈ rows ∧ ∀ ref ∈ rowRefs row, ref ∉ rejected ∧ ref ∈ st.allowedRefs := by
  have hkept : ∀ row, row ∈ (rows.filter fun e => (rowRefs e).all fun ref =>
      decide (ref ∉ rejected) && decide (ref ∈ st.allowedRefs)) ↔
      row ∈ rows ∧ ∀ ref ∈ rowRefs row, ref ∉ rejected ∧ ref ∈ st.allowedRefs := by
    intro row
    simp only [List.mem_filter, List.all_eq_true, Bool.and_eq_true, decide_eq_true_eq]
  have hentry : ∀ (m : OrdMap EdgeRowKey EdgeRow), row ∈ m.entries ↔ m.get? row.1 = some row.2 :=
    fun m => OrdMap.mem_entries_iff
  rw [hentry, hentry, ← hkept]
  unfold FrontierRead.keep
  simp only
  constructor
  · intro hget
    rcases OrdMap.get?_foldl_set_eq_some hget with ⟨row', hmem, hkey, hvalue⟩ | hget
    · exact Or.inr (Prod.ext hkey hvalue ▸ hmem)
    · exact Or.inl hget
  · intro hmem
    have hlive : row ∈ s.liveEdges := by
      rcases hmem with hmem | hmem
      · exact hold row ((hentry _).mpr hmem)
      · exact hrows row ((hkept row).mp hmem).1
    refine OrdMap.get?_foldl_set_of ?_ ?_
    · intro row' hmem' hkey
      rw [Store.liveEdges_key (hrows row' ((hkept row').mp hmem').1) hlive hkey]
    · rcases hmem with hmem | hmem
      · exact Or.inr hmem
      · exact Or.inl ⟨row, hmem, rfl⟩

/-- The rows of a page are live, and have an end in the frontier. -/
theorem of_mem_page {row : EdgeRecord}
    (h : row ∈ (st.page localeCompare configuredRepos s).1) :
    row ∈ s.liveEdges ∧ ∃ ref ∈ rowRefs row, ref ∈ st.fresh := by
  obtain ⟨hlive, g, hg, hincident⟩ := Store.readEdges_sound h
  refine ⟨hlive, ?_⟩
  rcases hincident with hat | hat
  · exact ⟨_, List.mem_cons_self, (ref_of_atRefs_refsBySource ⟨g, hg, hat⟩).1⟩
  · exact ⟨_, List.mem_cons_of_mem _ List.mem_cons_self,
      (ref_of_atRefs_refsBySource ⟨g, hg, hat⟩).1⟩

/-- A page that is not cut holds every live edge with an end in the
frontier. -/
theorem mem_page (hpage : (st.page localeCompare configuredRepos s).2 = false) {row : EdgeRecord}
    (hlive : row ∈ s.liveEdges) {e : ItemEndpoint} (hend : refOfEndpoint e ∈ rowRefs row)
    (hnamed : e.Named) (hsource : sourceAllowed (some configuredRepos) e.sourceId = true)
    (hfresh : refOfEndpoint e ∈ st.fresh) : row ∈ (st.page localeCompare configuredRepos s).1 := by
  obtain ⟨g, hg, hat⟩ : ∃ g ∈ refsBySource configuredRepos localeCompare st.fresh,
    AtRefs g.1 g.2 e := (exists_atRefs_refsBySource hnamed).mpr ⟨hfresh, hsource⟩
  refine (Store.mem_readEdges hpage).mpr ⟨hlive, g, hg, ?_⟩
  rcases mem_rowRefs.mp hend with heq | heq
  · exact Or.inl (heq ▸ hat)
  · exact Or.inr (heq ▸ hat)

theorem mem_eligibleFrontierEdges {rows : List EdgeRecord} {row : EdgeRecord} :
    row ∈ eligibleFrontierEdges mode hop rows ↔
      row ∈ rows ∧ (Traversed mode (toEdgeDTO row) ∨ hop = 0) := by
  unfold eligibleFrontierEdges Traversed toEdgeDTO
  simp only [List.mem_filter, Bool.or_eq_true, decide_eq_true_eq]

section Take

variable {rows : List EdgeRecord} (hpaths : PathsNonEmpty configuredRepos) (hnamed : NamedEnds s)
  (hrows : ∀ row ∈ rows, row ∈ s.liveEdges) (h : Sound configuredRepos s mode focusRef st)
include hnamed hrows

theorem named_candidateRefs :
    ∀ ref ∈ candidateRefs rows, ∃ e : ItemEndpoint, e.Named ∧ refOfEndpoint e = ref := by
  intro ref href
  obtain ⟨row, hrow, href⟩ := mem_candidateRefs.mp href
  obtain ⟨hfrom, hto⟩ := hnamed row (hrows row hrow)
  rcases List.mem_pair.mp href with rfl | rfl
  · exact ⟨_, hfrom, rfl⟩
  · exact ⟨_, hto, rfl⟩

include hpaths h

theorem mem_allowedRefs_take {row : EdgeRecord} (hrow : row ∈ rows) {e : ItemEndpoint}
    (hend : refOfEndpoint e ∈ rowRefs row) :
    refOfEndpoint e ∈ (st.take localeCompare configuredRepos s rows).allowedRefs ↔
      AdmitsEndpoint (some configuredRepos) s.listLiveItems e := by
  have hcandidate := mem_candidateRefs.mpr ⟨row, hrow, hend⟩
  obtain ⟨e', hnamed', href⟩ := named_candidateRefs hnamed hrows _ hcandidate
  have heq : e' = e := refOfEndpoint_injective href
  subst heq
  exact mem_allowedRefs_allow hpaths h hnamed' hcandidate

/-- **The edges kept are those whose ends the whole store admits.** -/
theorem mem_edgesByKey_take {row : EdgeRecord} :
    row ∈ (st.take localeCompare configuredRepos s rows).edgesByKey.entries ↔
      row ∈ st.edgesByKey.entries ∨ row ∈ rows ∧ AdmittedRow configuredRepos s row := by
  unfold FrontierRead.take
  simp only
  have hold : ∀ row ∈ (st.allow configuredRepos (candidateRefs rows)
      (st.found localeCompare configuredRepos s (candidateRefs rows))).edgesByKey.entries,
      row ∈ s.liveEdges := fun row hrow => (h.rows row hrow).1
  rw [mem_edgesByKey_keep hrows hold]
  refine or_congr_right (and_congr_right fun hrow => ?_)
  have hallowed : ∀ e, refOfEndpoint e ∈ rowRefs row →
      (refOfEndpoint e ∈ (st.take localeCompare configuredRepos s rows).allowedRefs ↔
        AdmitsEndpoint (some configuredRepos) s.listLiveItems e) :=
    fun _ hend => mem_allowedRefs_take hpaths hnamed hrows h hrow hend
  have hfrom : refOfEndpoint row.1.2.1 ∈ rowRefs row := List.mem_cons_self
  have hto : refOfEndpoint row.1.2.2 ∈ rowRefs row := List.mem_cons_of_mem _ List.mem_cons_self
  constructor
  · intro hends
    exact ⟨(hallowed _ hfrom).mp (hends _ hfrom).2, (hallowed _ hto).mp (hends _ hto).2⟩
  · rintro ⟨hadmitsFrom, hadmitsTo⟩ ref href
    obtain ⟨e, rfl, hadmits⟩ : ∃ e, refOfEndpoint e = ref ∧
        AdmitsEndpoint (some configuredRepos) s.listLiveItems e := by
      rcases List.mem_pair.mp href with rfl | rfl
      · exact ⟨_, rfl, hadmitsFrom⟩
      · exact ⟨_, rfl, hadmitsTo⟩
    refine ⟨fun hrejected => ?_, (hallowed e href).mpr hadmits⟩
    -- a rejected end has a live row in no configured repository
    obtain ⟨item, hitem, hkey⟩ := List.mem_map.mp hrejected
    obtain ⟨hfound, hnot⟩ := List.mem_filter.mp hitem
    have hitemAllowed := hadmits.row item (mem_listLiveItems.mpr (of_mem_found hfound).1)
      (refOfEndpoint_injective hkey)
    rw [(configuredItem_iff hpaths).mpr hitemAllowed] at hnot
    cases hnot

theorem sound_take (heligible : ∀ row ∈ rows, EligibleEdge mode focusRef (toEdgeDTO row)) :
    Sound configuredRepos s mode focusRef (st.take localeCompare configuredRepos s rows) := by
  have hallow : Sound configuredRepos s mode focusRef (st.allow configuredRepos (candidateRefs rows)
      (st.found localeCompare configuredRepos s (candidateRefs rows))) :=
    sound_allow hpaths (named_candidateRefs hnamed hrows) h
  refine ⟨hallow.focus, hallow.allowed, hallow.items, hallow.loaded, ?_, hallow.frontier⟩
  intro row hrow
  rcases (mem_edgesByKey_take hpaths hnamed hrows h).mp hrow with hold | ⟨hnew, hfrom, hto⟩
  · exact hallow.rows row hold
  · refine ⟨hrows row hnew, heligible row hnew, fun ref href => ?_⟩
    rcases List.mem_pair.mp href with rfl | rfl
    · exact (mem_allowedRefs_take hpaths hnamed hrows h hnew href).mpr hfrom
    · exact (mem_allowedRefs_take hpaths hnamed hrows h hnew href).mpr hto

end Take

/-! ## One step -/

variable {cfg : AppConfig}

/-- Within so many links of the focus, in the full graph. -/
abbrev Near (localeCompare : String → String → Ordering) (mode : GraphNeighborhoodMentionMode)
    (cfg : AppConfig) (s : Store P) (focusRef : Ref) : ℕ → Ref → Prop :=
  Within (neighboursOf localeCompare mode (fullEdges cfg s)) focusRef

/-- The eligible edges of the full graph with an end among some refs, and
no others, have been read. -/
def ReadsAt (cfg : AppConfig) (s : Store P) (mode : GraphNeighborhoodMentionMode) (focusRef : Ref)
    (seen : Ref → Prop) (st : FrontierRead) : Prop :=
  ∀ row, row ∈ st.edgesByKey.entries ↔
    row ∈ s.liveEdges ∧ AdmittedRow (configuredRepoRefs cfg) s row ∧
      EligibleEdge mode focusRef (toEdgeDTO row) ∧ ∃ ref ∈ rowRefs row, seen ref

/-- The reads before a hop, none of them cut. -/
structure Exact (localeCompare : String → String → Ordering) (cfg : AppConfig) (s : Store P)
    (mode : GraphNeighborhoodMentionMode) (focusRef : Ref) (depth hop : ℕ)
    (st : FrontierRead) : Prop where
  visited : ∀ ref, ref ∈ st.visitedRefs ↔ ∃ k < hop, Near localeCompare mode cfg s focusRef k ref
  frontier : hop ≤ depth → ∀ ref, ref ∈ st.frontier ↔
    AtDistance (neighboursOf localeCompare mode (fullEdges cfg s)) focusRef hop ref
  rows : ReadsAt cfg s mode focusRef (· ∈ st.visitedRefs) st

/-- The ends of an edge of the full graph that is followed. -/
theorem joins_fullEdges {x y : Ref} :
    Joins mode (fullEdges cfg s) x y ↔ ∃ row ∈ s.liveEdges,
      AdmittedRow (configuredRepoRefs cfg) s row ∧ Traversed mode (toEdgeDTO row) ∧
        otherRef (toEdgeDTO row) x = some y := by
  unfold Joins
  constructor
  · rintro ⟨e, he, htraversed, hother⟩
    obtain ⟨row, hrow, hfrom, hto, rfl⟩ := mem_fullEdges.mp he
    exact ⟨row, hrow, ⟨hfrom, hto⟩, htraversed, hother⟩
  · rintro ⟨row, hrow, ⟨hfrom, hto⟩, htraversed, hother⟩
    exact ⟨_, mem_fullEdges.mpr ⟨row, hrow, hfrom, hto, rfl⟩, htraversed, hother⟩

theorem eligibleEdge_of_traversed {e : EdgeDTO} (h : Traversed mode e) :
    EligibleEdge mode focusRef e := h.imp_right Or.inl

theorem mem_rowRefs_of_otherRef {row : EdgeRecord} {x y : Ref}
    (h : otherRef (toEdgeDTO row) x = some y) : x ∈ rowRefs row ∧ y ∈ rowRefs row := by
  unfold rowRefs
  rw [List.mem_pair, List.mem_pair]
  rcases otherRef_eq_some.mp h with ⟨hx, hy⟩ | ⟨hx, hy⟩
  · exact ⟨Or.inl hx.symm, Or.inr hy.symm⟩
  · exact ⟨Or.inr hx.symm, Or.inl hy.symm⟩

/-- Two refs of an edge are the same, or its two ends. -/
theorem otherRef_of_mem_rowRefs {row : EdgeRecord} {x y : Ref} (hx : x ∈ rowRefs row)
    (hy : y ∈ rowRefs row) : x = y ∨ otherRef (toEdgeDTO row) x = some y := by
  rw [otherRef_eq_some]
  rcases List.mem_pair.mp hx with rfl | rfl
  · rcases List.mem_pair.mp hy with rfl | rfl
    · exact Or.inl rfl
    · exact Or.inr (Or.inl ⟨rfl, rfl⟩)
  · rcases List.mem_pair.mp hy with rfl | rfl
    · exact Or.inr (Or.inr ⟨rfl, rfl⟩)
    · exact Or.inl rfl

/-- What has been read is followed as the full graph is. -/
theorem joins_read {seen : Ref → Prop} (h : ReadsAt cfg s mode focusRef seen st) {x : Ref}
    (hx : seen x) {y : Ref} :
    Joins mode (st.edgesByKey.entries.map toEdgeDTO) x y ↔ Joins mode (fullEdges cfg s) x y := by
  rw [joins_fullEdges]
  unfold Joins
  simp only [List.mem_map]
  constructor
  · rintro ⟨e, ⟨row, hrow, rfl⟩, htraversed, hother⟩
    obtain ⟨hlive, hadmitted, -⟩ := (h row).mp hrow
    exact ⟨row, hlive, hadmitted, htraversed, hother⟩
  · rintro ⟨row, hlive, hadmitted, htraversed, hother⟩
    have hrow := (h row).mpr ⟨hlive, hadmitted, eligibleEdge_of_traversed htraversed, x,
      (mem_rowRefs_of_otherRef hother).1, hx⟩
    exact ⟨_, ⟨row, hrow, rfl⟩, htraversed, hother⟩

/-- So it reaches what the full graph reaches, one link beyond what has been
seen. -/
theorem within_read {bound : ℕ} {seen : Ref → Prop} (h : ReadsAt cfg s mode focusRef seen st)
    (hseen : ∀ k < bound, ∀ ref, Near localeCompare mode cfg s focusRef k ref → seen ref) {k : ℕ}
    (hk : k ≤ bound) {ref : Ref} :
    Within (neighboursOf localeCompare mode (st.edgesByKey.entries.map toEdgeDTO)) focusRef k ref ↔
      Near localeCompare mode cfg s focusRef k ref := by
  refine Iff.symm (within_congr (fun j hj x hx y => ?_) hk)
  rw [linked_neighboursOf, linked_neighboursOf, joins_read h (hseen j hj x hx)]

section Step

variable (hpaths : PathsNonEmpty (configuredRepoRefs cfg)) (hnamed : NamedEnds s)
  (h : Sound (configuredRepoRefs cfg) s mode focusRef st)

theorem mem_rowsAt {row : EdgeRecord}
    (hrow : row ∈ st.rowsAt localeCompare configuredRepos s mode hop) :
    row ∈ s.liveEdges ∧ (∃ ref ∈ rowRefs row, ref ∈ st.fresh) ∧
      (Traversed mode (toEdgeDTO row) ∨ hop = 0) := by
  obtain ⟨hpage, heligible⟩ := mem_eligibleFrontierEdges.mp hrow
  obtain ⟨hlive, hfresh⟩ := of_mem_page hpage
  exact ⟨hlive, hfresh, heligible⟩

/-- At the first hop only the focus is read, so that its mentions are its
own. -/
theorem eligible_rowsAt (hstart : hop = 0 → ∀ ref ∈ st.frontier, ref = focusRef) {row : EdgeRecord}
    (hrow : row ∈ st.rowsAt localeCompare configuredRepos s mode hop) :
    EligibleEdge mode focusRef (toEdgeDTO row) := by
  obtain ⟨-, ⟨ref, href, hfresh⟩, htraversed | hzero⟩ := mem_rowsAt hrow
  · exact eligibleEdge_of_traversed htraversed
  · obtain rfl := hstart hzero ref (List.mem_filter.mp hfresh).1
    rcases List.mem_pair.mp href with heq | heq
    · exact Or.inr (Or.inr (Or.inl heq.symm))
    · exact Or.inr (Or.inr (Or.inr heq.symm))

theorem mem_next {rows : List EdgeRecord} {ref : Ref} :
    ref ∈ st.next mode rows ↔ (∃ row ∈ rows, Traversed mode (toEdgeDTO row) ∧ ref ∈ rowRefs row) ∧
      ref ∈ st.allowedRefs ∧ ref ∉ st.visitedRefs := by
  unfold FrontierRead.next traversalCandidateRefs
  rw [mem_sortBy, List.mem_filter, mem_candidateRefs]
  unfold Traversed toEdgeDTO
  simp only [List.mem_filter, Bool.and_eq_true, Bool.or_eq_true, decide_eq_true_eq, and_assoc]

include hpaths hnamed h

theorem sound_taken (hstart : hop = 0 → ∀ ref ∈ st.frontier, ref = focusRef) :
    Sound (configuredRepoRefs cfg) s mode focusRef
      (st.taken localeCompare (configuredRepoRefs cfg) s mode hop) := by
  have hvisit : Sound (configuredRepoRefs cfg) s mode focusRef
      { st with visitedRefs := st.visitedRefs ++ st.fresh } :=
    ⟨h.focus, h.allowed, h.items, h.loaded, h.rows, h.frontier⟩
  exact sound_take hpaths hnamed (fun row hrow => (mem_rowsAt hrow).1) hvisit
    fun row hrow => eligible_rowsAt hstart hrow

theorem sound_step (hstart : hop = 0 → ∀ ref ∈ st.frontier, ref = focusRef) :
    Sound (configuredRepoRefs cfg) s mode focusRef
      (st.step localeCompare (configuredRepoRefs cfg) s mode hop) := by
  have htaken : Sound (configuredRepoRefs cfg) s mode focusRef
      (st.taken localeCompare (configuredRepoRefs cfg) s mode hop) :=
    sound_taken hpaths hnamed h hstart
  refine ⟨htaken.focus, htaken.allowed, htaken.items, htaken.loaded, htaken.rows, ?_⟩
  exact fun ref href => (mem_next.mp (List.mem_of_mem_take href)).2.1

theorem mem_edgesByKey_step {row : EdgeRecord} :
    row ∈ (st.step localeCompare (configuredRepoRefs cfg) s mode hop).edgesByKey.entries ↔
      row ∈ st.edgesByKey.entries ∨
        row ∈ st.rowsAt localeCompare (configuredRepoRefs cfg) s mode hop ∧
          AdmittedRow (configuredRepoRefs cfg) s row := by
  have hvisit : Sound (configuredRepoRefs cfg) s mode focusRef
      { st with visitedRefs := st.visitedRefs ++ st.fresh } :=
    ⟨h.focus, h.allowed, h.items, h.loaded, h.rows, h.frontier⟩
  exact mem_edgesByKey_take hpaths hnamed (fun row hrow => (mem_rowsAt hrow).1) hvisit

end Step

/-! ## An exact step -/

/-- An end of a live edge. -/
theorem exists_end {row : EdgeRecord} (hnamed : NamedEnds s) (hlive : row ∈ s.liveEdges) {ref : Ref}
    (href : ref ∈ rowRefs row) : ∃ e : ItemEndpoint, refOfEndpoint e = ref ∧ e.Named ∧
      (AdmittedRow configuredRepos s row →
        AdmitsEndpoint (some configuredRepos) s.listLiveItems e) := by
  obtain ⟨hfrom, hto⟩ := hnamed row hlive
  rcases List.mem_pair.mp href with rfl | rfl
  · exact ⟨_, rfl, hfrom, And.left⟩
  · exact ⟨_, rfl, hto, And.right⟩

theorem Sound.admittedRow (h : Sound configuredRepos s mode focusRef st) {row : EdgeRecord}
    (hends : ∀ ref ∈ rowRefs row, ref ∈ st.allowedRefs) : AdmittedRow configuredRepos s row :=
  ⟨h.admits (hends _ List.mem_cons_self),
    h.admits (hends _ (List.mem_cons_of_mem _ List.mem_cons_self))⟩

theorem mem_fresh (h : Exact localeCompare cfg s mode focusRef depth hop st) (hhop : hop ≤ depth)
    {ref : Ref} :
    ref ∈ st.fresh ↔
      AtDistance (neighboursOf localeCompare mode (fullEdges cfg s)) focusRef hop ref := by
  unfold FrontierRead.fresh
  rw [List.mem_filter, decide_eq_true_eq, h.frontier hhop]
  refine ⟨And.left, fun hat => ⟨hat, fun hvisited => ?_⟩⟩
  obtain ⟨k, hk, hnear⟩ := (h.visited ref).mp hvisited
  exact hat.2 k hk hnear

/-- The refs visited after a hop. -/
theorem mem_visited_step (h : Exact localeCompare cfg s mode focusRef depth hop st)
    (hhop : hop ≤ depth) {ref : Ref} :
    ref ∈ st.visitedRefs ++ st.fresh ↔
      ∃ k < hop + 1, Near localeCompare mode cfg s focusRef k ref := by
  rw [List.mem_append, h.visited, mem_fresh h hhop]
  constructor
  · rintro (⟨k, hk, hnear⟩ | hat)
    · exact ⟨k, by omega, hnear⟩
    · exact ⟨hop, by omega, hat.1⟩
  · rintro ⟨k, hk, hnear⟩
    obtain ⟨j, hj, hat⟩ := exists_atDistance hnear
    by_cases hlt : j < hop
    · exact Or.inl ⟨j, hlt, hat.1⟩
    · obtain rfl : j = hop := by omega
      exact Or.inr hat

section ExactStep

variable (hpaths : PathsNonEmpty (configuredRepoRefs cfg)) (hnamed : NamedEnds s)
  (hsound : Sound (configuredRepoRefs cfg) s mode focusRef st)
  (h : Exact localeCompare cfg s mode focusRef depth hop st) (hhop : hop ≤ depth)
  (hpage : (st.page localeCompare (configuredRepoRefs cfg) s).2 = false)
include hnamed hpage

/-- An admitted edge that is followed from the frontier is among the rows
read. -/
theorem mem_rowsAt_of_fresh {row : EdgeRecord} (hlive : row ∈ s.liveEdges)
    (hadmitted : AdmittedRow (configuredRepoRefs cfg) s row)
    (heligible : Traversed mode (toEdgeDTO row) ∨ hop = 0) {ref : Ref} (href : ref ∈ rowRefs row)
    (hfresh : ref ∈ st.fresh) : row ∈ st.rowsAt localeCompare (configuredRepoRefs cfg) s mode hop := by
  obtain ⟨e, rfl, hnamedEnd, hadmits⟩ := exists_end hnamed hlive href
  refine mem_eligibleFrontierEdges.mpr ⟨?_, heligible⟩
  exact mem_page hpage hlive href hnamedEnd (hadmits hadmitted).source hfresh

include hpaths hsound h hhop

omit hhop in
theorem readsAt_step (hstart : hop = 0 → ∀ ref ∈ st.frontier, ref = focusRef) :
    ReadsAt cfg s mode focusRef (· ∈ st.visitedRefs ++ st.fresh)
      (st.step localeCompare (configuredRepoRefs cfg) s mode hop) := by
  intro row
  rw [mem_edgesByKey_step hpaths hnamed hsound, h.rows]
  simp only [List.mem_append]
  constructor
  · rintro (⟨hlive, hadmitted, heligible, ref, href, hseen⟩ | ⟨hrow, hadmitted⟩)
    · exact ⟨hlive, hadmitted, heligible, ref, href, Or.inl hseen⟩
    · obtain ⟨hlive, ⟨ref, href, hfresh⟩, -⟩ := mem_rowsAt hrow
      exact ⟨hlive, hadmitted, eligible_rowsAt hstart hrow, ref, href, Or.inr hfresh⟩
  · rintro ⟨hlive, hadmitted, heligible, ref, href, hseen | hfresh⟩
    · exact Or.inl ⟨hlive, hadmitted, heligible, ref, href, hseen⟩
    · by_cases htraversed : Traversed mode (toEdgeDTO row)
      · exact Or.inr ⟨mem_rowsAt_of_fresh hnamed hpage hlive hadmitted (Or.inl htraversed) href
          hfresh, hadmitted⟩
      · by_cases hzero : hop = 0
        · exact Or.inr ⟨mem_rowsAt_of_fresh hnamed hpage hlive hadmitted (Or.inr hzero) href
            hfresh, hadmitted⟩
        · -- a mention of the focus, which the first hop has read
          have hfocus : focusRef ∈ rowRefs row := by
            rcases heligible with hall | hstructural | hfrom | hto
            · exact absurd (Or.inl hall) htraversed
            · exact absurd (Or.inr hstructural) htraversed
            · exact List.mem_pair.mpr (Or.inl hfrom.symm)
            · exact List.mem_pair.mpr (Or.inr hto.symm)
          exact Or.inl ⟨hlive, hadmitted, heligible, focusRef, hfocus,
            (h.visited _).mpr ⟨0, by omega, rfl⟩⟩

/-- **The next frontier is what lies one link further.** -/
theorem mem_next_step (hstart : hop = 0 → ∀ ref ∈ st.frontier, ref = focusRef) {ref : Ref} :
    ref ∈ (st.taken localeCompare (configuredRepoRefs cfg) s mode hop).next mode
        (st.rowsAt localeCompare (configuredRepoRefs cfg) s mode hop) ↔
      AtDistance (neighboursOf localeCompare mode (fullEdges cfg s)) focusRef (hop + 1) ref := by
  have htaken : Sound (configuredRepoRefs cfg) s mode focusRef
      (st.taken localeCompare (configuredRepoRefs cfg) s mode hop) :=
    sound_taken hpaths hnamed hsound hstart
  have hvisited : ∀ ref, ref ∈ (st.taken localeCompare (configuredRepoRefs cfg) s mode
      hop).visitedRefs ↔ ∃ k < hop + 1, Near localeCompare mode cfg s focusRef k ref :=
    fun ref => mem_visited_step h hhop
  rw [mem_next, hvisited]
  constructor
  · rintro ⟨⟨row, hrow, htraversed, href⟩, hallowed, hnew⟩
    obtain ⟨hlive, ⟨x, hx, hfresh⟩, -⟩ := mem_rowsAt hrow
    have hxnear : Near localeCompare mode cfg s focusRef hop x := ((mem_fresh h hhop).mp hfresh).1
    have hother : otherRef (toEdgeDTO row) x = some ref := by
      refine (otherRef_of_mem_rowRefs hx href).resolve_left fun heq => hnew ?_
      exact ⟨hop, by omega, heq ▸ hxnear⟩
    have hxallowed : x ∈ (st.taken localeCompare (configuredRepoRefs cfg) s mode hop).allowedRefs :=
      allowedRefs_allow_of_mem (hsound.frontier x (List.mem_filter.mp hfresh).1)
    -- both ends of the row are allowed: one is in the frontier, the other was taken
    have hadmitted : AdmittedRow (configuredRepoRefs cfg) s row := by
      refine htaken.admittedRow fun y hy => ?_
      rcases otherRef_eq_some.mp hother with ⟨rfl, rfl⟩ | ⟨rfl, rfl⟩
      · rcases List.mem_pair.mp hy with rfl | rfl
        · exact hxallowed
        · exact hallowed
      · rcases List.mem_pair.mp hy with rfl | rfl
        · exact hallowed
        · exact hxallowed
    refine ⟨Or.inr ⟨x, hxnear, ?_⟩, fun j hj hnear => hnew ⟨j, hj, hnear⟩⟩
    rw [linked_neighboursOf, joins_fullEdges]
    exact ⟨row, hlive, hadmitted, htraversed, hother⟩
  · rintro ⟨hwithin, hfirst⟩
    obtain ⟨x, hx, hlinked⟩ := hwithin.resolve_left (hfirst hop (by omega))
    rw [linked_neighboursOf, joins_fullEdges] at hlinked
    obtain ⟨row, hlive, hadmitted, htraversed, hother⟩ := hlinked
    -- the end at this distance has not been read before
    have hfresh : x ∈ st.fresh := by
      refine (mem_fresh h hhop).mpr ⟨hx, fun j hj hnear => hfirst (j + 1) (by omega) ?_⟩
      refine Or.inr ⟨x, hnear, ?_⟩
      rw [linked_neighboursOf, joins_fullEdges]
      exact ⟨row, hlive, hadmitted, htraversed, hother⟩
    obtain ⟨hxmem, hmem⟩ := mem_rowRefs_of_otherRef hother
    have hrow : row ∈ st.rowsAt localeCompare (configuredRepoRefs cfg) s mode hop :=
      mem_rowsAt_of_fresh hnamed hpage hlive hadmitted (Or.inl htraversed) hxmem hfresh
    refine ⟨⟨row, hrow, htraversed, hmem⟩, ?_, fun ⟨k, hk, hnear⟩ => hfirst k hk hnear⟩
    obtain ⟨e, rfl, -, hadmits⟩ := exists_end hnamed hlive hmem
    have hvisit : Sound (configuredRepoRefs cfg) s mode focusRef
        { st with visitedRefs := st.visitedRefs ++ st.fresh } :=
      ⟨hsound.focus, hsound.allowed, hsound.items, hsound.loaded, hsound.rows, hsound.frontier⟩
    exact (mem_allowedRefs_take hpaths hnamed (fun row hrow => (mem_rowsAt hrow).1) hvisit hrow
      hmem).mpr (hadmits hadmitted)

end ExactStep

/-! ## The whole run -/

/-- More refs within the depth than a response holds. -/
def Crowded (localeCompare : String → String → Ordering) (mode : GraphNeighborhoodMentionMode)
    (focusRef : Ref) (depth : ℕ) (st : FrontierRead) : Prop :=
  ∃ refs : List Ref, refs.Nodup ∧ graphNeighborhoodMaxNodes < refs.length ∧ ∀ ref ∈ refs,
    Within (neighboursOf localeCompare mode (st.edgesByKey.entries.map toEdgeDTO)) focusRef depth ref

/-- Every eligible edge of the full graph with an end within the depth has
been read. -/
def ReadAll (localeCompare : String → String → Ordering) (cfg : AppConfig) (s : Store P)
    (mode : GraphNeighborhoodMentionMode) (focusRef : Ref) (depth : ℕ) (st : FrontierRead) : Prop :=
  ReadsAt cfg s mode focusRef (Near localeCompare mode cfg s focusRef depth) st

/-- What a run ends in. -/
structure Outcome (localeCompare : String → String → Ordering) (cfg : AppConfig) (s : Store P)
    (mode : GraphNeighborhoodMentionMode) (focusRef : Ref) (depth : ℕ) (st : FrontierRead) :
    Prop where
  sound : Sound (configuredRepoRefs cfg) s mode focusRef st
  read : st.edgeReadCapped = false → ReadAll localeCompare cfg s mode focusRef depth st ∨
    Crowded localeCompare mode focusRef depth st

theorem Crowded.mono {st' : FrontierRead}
    (hrows : ∀ row ∈ st.edgesByKey.entries, row ∈ st'.edgesByKey.entries)
    (h : Crowded localeCompare mode focusRef depth st) :
    Crowded localeCompare mode focusRef depth st' := by
  obtain ⟨refs, hnodup, hlength, hwithin⟩ := h
  refine ⟨refs, hnodup, hlength, fun ref href => (hwithin ref href).of_linked fun x y => ?_⟩
  rw [linked_neighboursOf, linked_neighboursOf]
  rintro ⟨e, he, htraversed, hother⟩
  obtain ⟨row, hrow, rfl⟩ := List.mem_map.mp he
  exact ⟨_, List.mem_map_of_mem (hrows row hrow), htraversed, hother⟩

theorem nodup_eraseDups (refs : List Ref) : refs.eraseDups.Nodup := by
  induction hlength : refs.length using Nat.strong_induction_on generalizing refs with
  | _ n ih =>
    cases refs with
    | nil => exact List.nodup_nil
    | cons ref refs =>
      rw [List.eraseDups_cons]
      have hshort := List.length_filter_le (fun other => !other == ref) refs
      rw [List.length_cons] at hlength
      refine List.nodup_cons.mpr ⟨?_, ih _ (by omega) _ rfl⟩
      simp [List.mem_eraseDups]

theorem frontier_step : (st.step localeCompare configuredRepos s mode hop).frontier =
    ((st.taken localeCompare configuredRepos s mode hop).next mode
      (st.rowsAt localeCompare configuredRepos s mode hop)).take (graphNeighborhoodMaxNodes + 1) :=
  rfl

theorem nodup_next {rows : List EdgeRecord} : (st.next mode rows).Nodup := by
  unfold FrontierRead.next traversalCandidateRefs candidateRefs
  exact (sortBy_perm _ _).nodup_iff.mpr (List.Nodup.filter _ (nodup_eraseDups _))

section Run

variable (hpaths : PathsNonEmpty (configuredRepoRefs cfg)) (hnamed : NamedEnds s)
include hpaths hnamed

/-- **A step that nothing cut is exact, or the response cannot hold what lies
within the depth.** -/
theorem exact_or_crowded_step (hsound : Sound (configuredRepoRefs cfg) s mode focusRef st)
    (h : Exact localeCompare cfg s mode focusRef depth hop st) (hhop : hop ≤ depth)
    (hstart : hop = 0 → ∀ ref ∈ st.frontier, ref = focusRef)
    (hcap : (st.step localeCompare (configuredRepoRefs cfg) s mode hop).edgeReadCapped = false) :
    Exact localeCompare cfg s mode focusRef depth (hop + 1)
        (st.step localeCompare (configuredRepoRefs cfg) s mode hop) ∨
      Crowded localeCompare mode focusRef depth
        (st.step localeCompare (configuredRepoRefs cfg) s mode hop) := by
  have hpage : (st.page localeCompare (configuredRepoRefs cfg) s).2 = false := by
    unfold FrontierRead.step at hcap
    simp only [Bool.or_eq_false_iff] at hcap
    exact hcap.1.2
  have hreads := readsAt_step hpaths hnamed hsound h hpage hstart
  have hvisited : ∀ ref, ref ∈ (st.step localeCompare (configuredRepoRefs cfg) s mode
      hop).visitedRefs ↔ ∃ k < hop + 1, Near localeCompare mode cfg s focusRef k ref :=
    fun ref => mem_visited_step h hhop
  have hnext := fun ref =>
    (mem_next_step hpaths hnamed hsound h hhop hpage hstart : ref ∈ FrontierRead.next mode _ _ ↔ _)
  by_cases hroom : ((st.taken localeCompare (configuredRepoRefs cfg) s mode hop).next mode
      (st.rowsAt localeCompare (configuredRepoRefs cfg) s mode hop)).length ≤
        graphNeighborhoodMaxNodes + 1
  · refine Or.inl ⟨hvisited, fun _ ref => ?_, hreads⟩
    rw [← hnext, frontier_step, List.take_of_length_le hroom]
  · by_cases hlast : hop + 1 ≤ depth
    · refine Or.inr ⟨_, nodup_next, Nat.lt_of_succ_lt (Nat.lt_of_not_le hroom), fun ref href => ?_⟩
      have hat := (hnext ref).mp href
      refine ((within_read hreads ?_ (Nat.le_refl (hop + 1))).mpr hat.1).mono hlast
      exact fun k hk ref hnear => (hvisited ref).mpr ⟨k, hk, hnear⟩
    · exact Or.inl ⟨hvisited, fun hle => absurd hle hlast, hreads⟩

/-- **A run has read all within the depth, or too much, or says that its
edges were cut.** -/
theorem outcome_run (n : ℕ) (hn : hop + n = depth + 1)
    (hsound : Sound (configuredRepoRefs cfg) s mode focusRef st)
    (hstart : hop = 0 → ∀ ref ∈ st.frontier, ref = focusRef)
    (h : Exact localeCompare cfg s mode focusRef depth hop st ∨
      Crowded localeCompare mode focusRef depth st) :
    Outcome localeCompare cfg s mode focusRef depth
      (st.run localeCompare (configuredRepoRefs cfg) s mode n hop) := by
  induction n generalizing hop st with
  | zero =>
    refine ⟨hsound, fun _ => h.imp_left fun hexact row => ?_⟩
    unfold FrontierRead.run
    rw [hexact.rows row]
    simp only [hexact.visited]
    have hdepth : ∀ ref, (∃ k < hop, Near localeCompare mode cfg s focusRef k ref) ↔
        Near localeCompare mode cfg s focusRef depth ref := fun ref =>
      ⟨fun ⟨k, hk, hnear⟩ => hnear.mono (by omega), fun hnear => ⟨depth, by omega, hnear⟩⟩
    simp only [hdepth]
  | succ n ih =>
    unfold FrontierRead.run
    split
    · rename_i hempty
      refine ⟨hsound, fun _ => h.imp_left fun hexact row => ?_⟩
      rw [hexact.rows row]
      simp only [hexact.visited]
      have hdepth : ∀ ref, (∃ k < hop, Near localeCompare mode cfg s focusRef k ref) ↔
          Near localeCompare mode cfg s focusRef depth ref := by
        intro ref
        refine ⟨fun ⟨k, hk, hnear⟩ => hnear.mono (by omega), fun hnear => ?_⟩
        obtain ⟨j, hj, hat⟩ := exists_atDistance hnear
        by_cases hlt : j < hop
        · exact ⟨j, hlt, hat.1⟩
        · -- nothing lies at this hop, so nothing lies beyond it
          obtain ⟨x, hx⟩ := exists_atDistance_of_le (by omega : hop ≤ j) hat
          have hfrontier := (hexact.frontier (by omega) x).mpr hx
          rw [hempty] at hfrontier
          cases hfrontier
      simp only [hdepth]
    · simp only
      have hsound' : Sound (configuredRepoRefs cfg) s mode focusRef
          (st.step localeCompare (configuredRepoRefs cfg) s mode hop) :=
        sound_step hpaths hnamed hsound hstart
      split
      · rename_i hcap
        refine ⟨hsound', fun huncut => ?_⟩
        rw [hcap] at huncut
        cases huncut
      · rename_i hcap
        refine ih (by omega) hsound' (fun hzero => by omega) ?_
        -- a crowded read stays crowded, for the rows only grow
        rcases h with hexact | hcrowded
        · exact exact_or_crowded_step hpaths hnamed hsound hexact (by omega) hstart
            (by simpa using hcap)
        · refine Or.inr (hcrowded.mono fun row hrow => ?_)
          exact (mem_edgesByKey_step hpaths hnamed hsound).mpr (Or.inl hrow)

end Run

end SymphonyBoard
