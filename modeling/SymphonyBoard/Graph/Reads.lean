import SymphonyBoard.Config.Types
import SymphonyBoard.Contract.Rows
import SymphonyBoard.Db.ReviewThreads
/-!
# Bounded reads of the graph

What the two graph scopes of `src/server/graph-neighborhood.ts` read from
the store: the live rows of some refs, source by source, an edge page at a
time. A page says when it is truncated; one that is not holds every live
edge at its refs (`mem_listLiveEdgesForSourceRefs`), and so does a whole
read that no bound cut short (`mem_readEdges`).
-/

namespace SymphonyBoard

variable {P : Type}

/-! ## References -/

/-- The text before the first bar, and after it. -/
def splitBar : List Char → Option (List Char × List Char)
  | [] => none
  | '|' :: cs => some ([], cs)
  | c :: cs => (splitBar cs).map fun p => (c :: p.1, p.2)

/-- The parts of a reference; neither may be empty. -/
def splitRef (ref : Ref) : Option (String × String) :=
  (splitBar ref.toList).bind fun p =>
    if p.1 = [] ∨ p.2 = [] then none else some (String.ofList p.1, String.ofList p.2)

theorem splitBar_append {a b : List Char} (h : '|' ∉ a) : splitBar (a ++ '|' :: b) = some (a, b) := by
  induction a with
  | nil => rfl
  | cons c a ih =>
    have hc : c ≠ '|' := fun hc => h (hc ▸ List.mem_cons_self)
    have ih := ih fun ha => h (List.mem_cons_of_mem _ ha)
    rw [List.cons_append, splitBar, ih]
    · rfl
    · exact hc

/-- An endpoint whose reference can be split again. -/
def ItemEndpoint.Named (e : ItemEndpoint) : Prop := e.sourceId.val ≠ "" ∧ e.externalId ≠ ""

theorem splitRef_refOfEndpoint {e : ItemEndpoint} (h : e.Named) :
    splitRef (refOfEndpoint e) = some (e.sourceId.val, e.externalId) := by
  obtain ⟨hsource, hexternal⟩ := h
  have hchars : (refOfEndpoint e).toList = e.sourceId.val.toList ++ '|' :: e.externalId.toList := by
    simp [refOfEndpoint, refOf]
  unfold splitRef
  rw [hchars, splitBar_append e.sourceId.noBar, Option.bind_some, if_neg (by simp [hsource, hexternal])]
  simp

/-- Only the reference of an endpoint splits into its parts. -/
theorem eq_of_splitBar {cs : List Char} {p : List Char × List Char} (h : splitBar cs = some p) :
    cs = p.1 ++ '|' :: p.2 := by
  induction cs generalizing p with
  | nil => cases h
  | cons c cs ih =>
    by_cases hc : c = '|'
    · subst hc
      rw [← Option.some.inj h]
      rfl
    · rw [splitBar] at h
      · obtain ⟨q, hq, rfl⟩ := Option.map_eq_some_iff.mp h
        rw [List.cons_append, ← ih hq]
      · exact hc

theorem refOf_of_splitRef {ref : Ref} {sourceId : SourceId} {externalId : String}
    (h : splitRef ref = some (sourceId.val, externalId)) : refOf sourceId externalId = ref := by
  obtain ⟨p, hp, hparts⟩ := Option.bind_eq_some_iff.mp h
  split at hparts
  · cases hparts
  · obtain ⟨hsource, hexternal⟩ := Prod.mk.inj (Option.some.inj hparts)
    apply String.toList_inj.mp
    unfold refOf
    rw [eq_of_splitBar hp, ← hsource, ← hexternal]
    simp

theorem named_of_splitRef {ref : Ref} {e : ItemEndpoint}
    (h : splitRef ref = some (e.sourceId.val, e.externalId)) : e.Named := by
  obtain ⟨p, -, hparts⟩ := Option.bind_eq_some_iff.mp h
  split at hparts
  · cases hparts
  · rename_i hne
    obtain ⟨hsource, hexternal⟩ := Prod.mk.inj (Option.some.inj hparts)
    unfold ItemEndpoint.Named
    rw [← hsource, ← hexternal]
    simpa [not_or] using hne

/-- The repositories of the configuration. -/
def configuredRepoRefs (cfg : AppConfig) : List RepoRef :=
  cfg.sources.flatMap fun s => s.projects.map fun p => ⟨s.sourceId, p.path⟩

/-- A reference into a configured source. -/
def configuredRef (configuredRepos : List RepoRef) (ref : Ref) : Option (String × String) :=
  (splitRef ref).filter fun p => configuredRepos.any fun r => r.sourceId = p.1

theorem configuredRef_refOfEndpoint {configuredRepos : List RepoRef} {e : ItemEndpoint}
    (hnamed : e.Named) (h : sourceAllowed (some configuredRepos) e.sourceId = true) :
    configuredRef configuredRepos (refOfEndpoint e) = some (e.sourceId.val, e.externalId) := by
  unfold configuredRef
  rw [splitRef_refOfEndpoint hnamed]
  exact Option.filter_eq_some_iff.mpr ⟨rfl, h⟩

/-- Some refs by source, each in its order. -/
def refsBySource (configuredRepos : List RepoRef) (localeCompare : String → String → Ordering)
    (refs : List Ref) : List (String × List String) :=
  sortBy (on localeCompare Prod.fst)
    (OrdMap.group Prod.fst Prod.snd
      ((sortBy textOrder refs).filterMap (configuredRef configuredRepos))).entries

theorem mem_refsBySource {configuredRepos : List RepoRef}
    {localeCompare : String → String → Ordering} {refs : List Ref} {sourceId externalId : String} :
    (∃ ids, (sourceId, ids) ∈ refsBySource configuredRepos localeCompare refs ∧
        externalId ∈ ids) ↔
      ∃ ref ∈ refs, configuredRef configuredRepos ref = some (sourceId, externalId) := by
  unfold refsBySource
  simp only [mem_sortBy, OrdMap.mem_group, List.mem_filterMap, Prod.exists]
  constructor
  · rintro ⟨s, x, ⟨ref, href, hparts⟩, rfl, rfl⟩
    exact ⟨ref, href, hparts⟩
  · rintro ⟨ref, href, hparts⟩
    exact ⟨_, _, ⟨ref, href, hparts⟩, rfl, rfl⟩

/-! ## Rows -/

namespace Store

/-- The items that are not deleted. -/
def liveItems (s : Store P) : List ItemRecord := s.items.entries.filter fun r => r.2.deletedAt.isNone

/-- The edges that are not deleted. -/
def liveEdges (s : Store P) : List EdgeRecord := s.edges.entries.filter fun r => r.2.deletedAt.isNone

/-- Most recently resolved first, then the newest row. -/
def listLiveItems (s : Store P) : List ItemRecord :=
  sortBy (on (withNulls .last fun a b => textOrder b a) fun r =>
    ((r.2.item.closedAt.or r.2.item.mergedAt).or r.2.item.updatedAt).or r.2.item.createdAt)
    s.liveItems.reverse

/-- `listLiveEdges` -/
def listLiveEdges (s : Store P) : List EdgeRecord := s.liveEdges

/-- `listLabels` -/
def listLabels (s : Store P) : List LabelRecord :=
  s.itemLabels.entries.flatMap fun b => b.2.map fun label => (b.1, label)

/-- `listLiveItemsBySourceRefs`: in the order of their external ids. -/
def listLiveItemsBySourceRefs (s : Store P) (sourceId : String) (externalIds : List String) :
    List ItemRecord :=
  sortBy (on textOrder (·.1.externalId)) (s.liveItems.filter fun r =>
    r.1.sourceId.val = sourceId && decide (r.1.externalId ∈ externalIds.filter (· ≠ "")))

/-- `listLabelsByItemIds`: each item's in the order of their names. -/
def listLabelsByItemIds (s : Store P) (items : List ItemRecord) : List LabelRecord :=
  (s.items.entries.filter fun r => decide (r.1 ∈ items.map Prod.fst)).flatMap fun r =>
    (sortBy (on textOrder (·.name)) ((s.itemLabels.get? r.1).getD [])).map fun label => (r.1, label)

end Store

/-- The type, as the tables spell it. -/
def EdgeType.text : EdgeType → String
  | closes => "closes"
  | relates => "relates"
  | mentions => "mentions"
  | blocks => "blocks"
  | blockedBy => "blocked_by"
  | parent => "parent"
  | child => "child"

/-- The end of an edge a query looks at, and the other one. -/
structure EdgeSide where
  near : EdgeRecord → ItemEndpoint
  far : EdgeRecord → ItemEndpoint

/-- The edges that start at the ends asked for. -/
def fromSide : EdgeSide := ⟨fun e => e.1.2.1, fun e => e.1.2.2⟩

/-- The edges that end there. -/
def toSide : EdgeSide := ⟨fun e => e.1.2.2, fun e => e.1.2.1⟩

/-- One directional query, in its order. -/
def Store.listLiveEdgesOnSide (s : Store P) (side : EdgeSide) (sourceId : String)
    (externalIds : List String) : List EdgeRecord :=
  sortBy (compareLex (on textOrder fun e => (side.near e).externalId) <|
      compareLex (on textOrder fun e => (side.far e).sourceId.val) <|
      compareLex (on textOrder fun e => (side.far e).externalId) <|
        on textOrder fun e => e.1.1.text)
    (s.liveEdges.filter fun e =>
      (side.near e).sourceId.val = sourceId && decide ((side.near e).externalId ∈ externalIds))

/-- Edges up to a cap, and whether there are more. -/
structure BoundedEdgeRows where
  rows : List EdgeRecord
  truncated : Bool

/-- By source and id of the one end, then the other, then the type. -/
def edgeRowOrder (localeCompare : String → String → Ordering) : EdgeRecord → EdgeRecord → Ordering :=
  compareLex (on localeCompare fun e => e.1.2.1.sourceId.val) <|
  compareLex (on localeCompare fun e => e.1.2.1.externalId) <|
  compareLex (on localeCompare fun e => e.1.2.2.sourceId.val) <|
  compareLex (on localeCompare fun e => e.1.2.2.externalId) <|
    on localeCompare fun e => e.1.1.text

variable (localeCompare : String → String → Ordering)

/-- The live edges at some refs of a source, up to a limit. Each direction
is asked for one row too many, so that a cut shows. -/
def Store.listLiveEdgesForSourceRefs (s : Store P) (sourceId : String) (externalIds : List String)
    (limit : ℕ) : BoundedEdgeRows :=
  let refs := externalIds.filter (· ≠ "")
  if refs = [] ∨ limit = 0 then ⟨[], false⟩
  else
    let fromRows := (s.listLiveEdgesOnSide fromSide sourceId refs).take (limit + 1)
    let toRows := (s.listLiveEdgesOnSide toSide sourceId refs).take (limit + 1)
    let sorted := sortBy (edgeRowOrder localeCompare)
      (OrdMap.index Prod.fst (fromRows ++ toRows)).values
    { rows := sorted.take limit
      truncated := decide (limit < fromRows.length) || decide (limit < toRows.length) ||
        decide (limit < sorted.length) }

/-- The pages of some refs, until a bound is hit: the rows, and whether one
was. -/
def Store.readEdges (s : Store P) : List (String × List String) → ℕ → List EdgeRecord × Bool
  | [], _ => ([], false)
  | (sourceId, externalIds) :: groups, remaining =>
    if remaining = 0 then ([], true)
    else
      let page := s.listLiveEdgesForSourceRefs localeCompare sourceId externalIds remaining
      if page.truncated then (page.rows, true)
      else
        let rest := readEdges s groups (remaining - page.rows.length)
        (page.rows ++ rest.1, rest.2)

/-- The items of some refs. -/
def Store.readItems (s : Store P) (groups : List (String × List String)) : List ItemRecord :=
  groups.flatMap fun g => s.listLiveItemsBySourceRefs g.1 g.2

/-! ## What the reads hold -/

/-- An end of an edge is one of some refs of a source. -/
def AtRefs (sourceId : String) (externalIds : List String) (e : ItemEndpoint) : Prop :=
  e.sourceId.val = sourceId ∧ e.externalId ∈ externalIds ∧ e.externalId ≠ ""

variable {localeCompare} {s : Store P} {sourceId : String} {externalIds : List String} {limit : ℕ}

theorem Store.mem_listLiveItemsBySourceRefs {r : ItemRecord} :
    r ∈ s.listLiveItemsBySourceRefs sourceId externalIds ↔
      r ∈ s.liveItems ∧ AtRefs sourceId externalIds r.1 := by
  unfold Store.listLiveItemsBySourceRefs AtRefs
  simp [mem_sortBy, List.mem_filter]

theorem Store.mem_listLiveEdgesOnSide {side : EdgeSide} {e : EdgeRecord} :
    e ∈ s.listLiveEdgesOnSide side sourceId (externalIds.filter (· ≠ "")) ↔
      e ∈ s.liveEdges ∧ AtRefs sourceId externalIds (side.near e) := by
  unfold Store.listLiveEdgesOnSide AtRefs
  simp [mem_sortBy, List.mem_filter]

/-- Rows of a list with distinct keys, indexed by them, are themselves. -/
theorem mem_values_index {l : List EdgeRecord}
    (hkeys : ∀ e ∈ l, ∀ e' ∈ l, e.1 = e'.1 → e = e') {e : EdgeRecord} :
    e ∈ (OrdMap.index Prod.fst l).values ↔ e ∈ l := by
  simp only [OrdMap.mem_values_iff, OrdMap.get?_index_eq_some hkeys]
  exact ⟨fun ⟨_, he, _⟩ => he, fun he => ⟨_, he, rfl⟩⟩

theorem Store.liveEdges_key {s : Store P} {e e' : EdgeRecord} (he : e ∈ s.liveEdges)
    (he' : e' ∈ s.liveEdges) (h : e.1 = e'.1) : e = e' := by
  have hmem := OrdMap.mem_entries_iff.mp (List.mem_filter.mp he).1
  have hmem' := OrdMap.mem_entries_iff.mp (List.mem_filter.mp he').1
  rw [h, hmem'] at hmem
  exact Prod.ext h (Option.some.inj hmem).symm

theorem Store.liveItems_key {s : Store P} {r r' : ItemRecord} (hr : r ∈ s.liveItems)
    (hr' : r' ∈ s.liveItems) (h : r.1 = r'.1) : r = r' := by
  have hmem := OrdMap.mem_entries_iff.mp (List.mem_filter.mp hr).1
  have hmem' := OrdMap.mem_entries_iff.mp (List.mem_filter.mp hr').1
  rw [h, hmem'] at hmem
  exact Prod.ext h (Option.some.inj hmem).symm

/-- An edge with an end at some refs of a source. -/
def Incident (sourceId : String) (externalIds : List String) (e : EdgeRecord) : Prop :=
  AtRefs sourceId externalIds e.1.2.1 ∨ AtRefs sourceId externalIds e.1.2.2

/-- The rows both directions hand a page, before its last cut. -/
theorem Store.mem_directions {fromLimit toLimit : ℕ} {e : EdgeRecord}
    (h : e ∈ (OrdMap.index Prod.fst
      ((s.listLiveEdgesOnSide fromSide sourceId (externalIds.filter (· ≠ ""))).take fromLimit ++
        (s.listLiveEdgesOnSide toSide sourceId (externalIds.filter (· ≠ ""))).take toLimit)).values) :
    e ∈ s.liveEdges ∧ Incident sourceId externalIds e := by
  obtain ⟨k, hk⟩ := OrdMap.mem_values_iff.mp h
  rw [OrdMap.get?_index] at hk
  have hmem := (List.mem_filter.mp (List.mem_of_getLast? hk)).1
  rcases List.mem_append.mp hmem with hfrom | hto
  · obtain ⟨hlive, hat⟩ := Store.mem_listLiveEdgesOnSide.mp (List.mem_of_mem_take hfrom)
    exact ⟨hlive, Or.inl hat⟩
  · obtain ⟨hlive, hat⟩ := Store.mem_listLiveEdgesOnSide.mp (List.mem_of_mem_take hto)
    exact ⟨hlive, Or.inr hat⟩

theorem Store.page_sound {e : EdgeRecord}
    (h : e ∈ (s.listLiveEdgesForSourceRefs localeCompare sourceId externalIds limit).rows) :
    e ∈ s.liveEdges ∧ Incident sourceId externalIds e := by
  unfold Store.listLiveEdgesForSourceRefs at h
  simp only at h
  split at h
  · cases h
  · exact Store.mem_directions (mem_sortBy.mp (List.mem_of_mem_take h))

/-- **A page that is not truncated holds every live edge at its refs.** -/
theorem Store.mem_listLiveEdgesForSourceRefs (hlimit : 0 < limit)
    (h : (s.listLiveEdgesForSourceRefs localeCompare sourceId externalIds limit).truncated = false)
    {e : EdgeRecord} :
    e ∈ (s.listLiveEdgesForSourceRefs localeCompare sourceId externalIds limit).rows ↔
      e ∈ s.liveEdges ∧ Incident sourceId externalIds e := by
  refine ⟨Store.page_sound, fun ⟨hlive, hincident⟩ => ?_⟩
  unfold Store.listLiveEdgesForSourceRefs at h ⊢
  simp only at h ⊢
  split
  · rename_i hnone
    have hrefs : externalIds.filter (· ≠ "") = [] := hnone.resolve_right (by omega)
    have hempty : ∀ x ∈ externalIds, x = "" := by simpa using hrefs
    rcases hincident with ⟨-, hid, hne⟩ | ⟨-, hid, hne⟩
    · exact absurd (hempty _ hid) hne
    · exact absurd (hempty _ hid) hne
  · rename_i hsome
    rw [if_neg hsome] at h
    simp only [Bool.or_eq_false_iff, decide_eq_false_iff_not, not_lt, List.length_take] at h
    obtain ⟨⟨hfrom, hto⟩, hsorted⟩ := h
    have hfromAll : (s.listLiveEdgesOnSide fromSide sourceId (externalIds.filter (· ≠ ""))).take
        (limit + 1) = s.listLiveEdgesOnSide fromSide sourceId (externalIds.filter (· ≠ "")) :=
      List.take_of_length_le (by omega)
    have htoAll : (s.listLiveEdgesOnSide toSide sourceId (externalIds.filter (· ≠ ""))).take
        (limit + 1) = s.listLiveEdgesOnSide toSide sourceId (externalIds.filter (· ≠ "")) :=
      List.take_of_length_le (by omega)
    rw [List.take_of_length_le hsorted, mem_sortBy, hfromAll, htoAll, mem_values_index]
    · rcases hincident with hat | hat
      · exact List.mem_append_left _ (Store.mem_listLiveEdgesOnSide.mpr ⟨hlive, hat⟩)
      · exact List.mem_append_right _ (Store.mem_listLiveEdgesOnSide.mpr ⟨hlive, hat⟩)
    · have hall : ∀ x ∈ s.listLiveEdgesOnSide fromSide sourceId (externalIds.filter (· ≠ "")) ++
          s.listLiveEdgesOnSide toSide sourceId (externalIds.filter (· ≠ "")), x ∈ s.liveEdges := by
        intro x hx
        rcases List.mem_append.mp hx with hx | hx
        · exact (Store.mem_listLiveEdgesOnSide.mp hx).1
        · exact (Store.mem_listLiveEdgesOnSide.mp hx).1
      exact fun x hx x' hx' hkey => Store.liveEdges_key (hall x hx) (hall x' hx') hkey

theorem Store.readEdges_sound {groups : List (String × List String)} {remaining : ℕ}
    {e : EdgeRecord} (h : e ∈ (s.readEdges localeCompare groups remaining).1) :
    e ∈ s.liveEdges ∧ ∃ g ∈ groups, Incident g.1 g.2 e := by
  induction groups generalizing remaining with
  | nil => cases h
  | cons g groups ih =>
    unfold Store.readEdges at h
    simp only at h
    split at h
    · cases h
    · split at h
      · obtain ⟨hlive, hincident⟩ := Store.page_sound h
        exact ⟨hlive, g, List.mem_cons_self, hincident⟩
      · rcases List.mem_append.mp h with hpage | hrest
        · obtain ⟨hlive, hincident⟩ := Store.page_sound hpage
          exact ⟨hlive, g, List.mem_cons_self, hincident⟩
        · obtain ⟨hlive, g', hg', hincident⟩ := ih hrest
          exact ⟨hlive, g', List.mem_cons_of_mem _ hg', hincident⟩

/-- **A read that no bound cut short holds every live edge at its refs.** -/
theorem Store.mem_readEdges {groups : List (String × List String)} {remaining : ℕ}
    (h : (s.readEdges localeCompare groups remaining).2 = false) {e : EdgeRecord} :
    e ∈ (s.readEdges localeCompare groups remaining).1 ↔
      e ∈ s.liveEdges ∧ ∃ g ∈ groups, Incident g.1 g.2 e := by
  induction groups generalizing remaining with
  | nil => simp [Store.readEdges]
  | cons g groups ih =>
    unfold Store.readEdges at h ⊢
    simp only at h ⊢
    split at h
    · cases h
    · rename_i hremaining
      split at h
      · cases h
      · rename_i htruncated
        rw [if_neg hremaining, if_neg htruncated, List.mem_append, ih h,
          Store.mem_listLiveEdgesForSourceRefs (by omega) (by simpa using htruncated),
          List.exists_mem_cons_iff, ← and_or_left]

theorem Store.mem_readItems {groups : List (String × List String)} {r : ItemRecord} :
    r ∈ s.readItems groups ↔ r ∈ s.liveItems ∧ ∃ g ∈ groups, AtRefs g.1 g.2 r.1 := by
  unfold Store.readItems
  simp only [List.mem_flatMap, Store.mem_listLiveItemsBySourceRefs]
  exact ⟨fun ⟨g, hg, hlive, hat⟩ => ⟨hlive, g, hg, hat⟩,
    fun ⟨hlive, g, hg, hat⟩ => ⟨g, hg, hlive, hat⟩⟩

/-- What is at the refs of a list by source has its reference in the list. -/
theorem ref_of_atRefs_refsBySource {configuredRepos : List RepoRef} {refs : List Ref}
    {e : ItemEndpoint}
    (h : ∃ g ∈ refsBySource configuredRepos localeCompare refs, AtRefs g.1 g.2 e) :
    refOfEndpoint e ∈ refs ∧ sourceAllowed (some configuredRepos) e.sourceId = true := by
  obtain ⟨⟨sourceId, ids⟩, hg, hsource, hid, -⟩ := h
  simp only at hsource hid
  subst hsource
  obtain ⟨ref, href, hparts⟩ := mem_refsBySource.mp ⟨ids, hg, hid⟩
  obtain ⟨hsplit, hconfigured⟩ := Option.filter_eq_some_iff.mp hparts
  have heq : refOfEndpoint e = ref := refOf_of_splitRef hsplit
  exact ⟨heq ▸ href, hconfigured⟩

/-- An end is at the refs of a list by source when its own reference is one
of them. -/
theorem exists_atRefs_refsBySource {configuredRepos : List RepoRef} {refs : List Ref}
    {e : ItemEndpoint} (hnamed : e.Named) :
    (∃ g ∈ refsBySource configuredRepos localeCompare refs, AtRefs g.1 g.2 e) ↔
      refOfEndpoint e ∈ refs ∧ sourceAllowed (some configuredRepos) e.sourceId = true := by
  refine ⟨ref_of_atRefs_refsBySource, ?_⟩
  rintro ⟨href, hconfigured⟩
  obtain ⟨ids, hg, hid⟩ :=
    mem_refsBySource.mpr ⟨_, href, configuredRef_refOfEndpoint hnamed hconfigured⟩
  exact ⟨_, hg, rfl, hid, hnamed.2⟩

/-- Every end of a live edge has a reference that can be split. -/
def NamedEnds (s : Store P) : Prop := ∀ row ∈ s.liveEdges, row.1.2.1.Named ∧ row.1.2.2.Named

end SymphonyBoard
