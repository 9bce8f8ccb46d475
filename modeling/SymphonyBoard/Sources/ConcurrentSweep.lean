import Mathlib.Data.Prod.Lex
import SymphonyBoard.Common.Keyset
import SymphonyBoard.Sources.Completeness
import SymphonyBoard.SyncEngine.Tombstones
/-!
# A full sweep of a changing provider

While a sweep reads the pages of a listing, items of the listing are
updated and move to its front. The cursor stands behind the last item
returned, so an item that moves before the reader gets to it is never
read, and a complete sweep tombstones it. `sweep_keeps_iff` says that this
is the only way, the page cap of the GitLab loop apart.

The provider keeps each listing sorted downwards by a key, the update time
and the id, and a cursor is a written form of the last key of a page. The
time of a listing is counted in requests: between two of them its items
may change in any way `Timeline` allows.
-/

namespace SymphonyBoard

section Provider

variable {κ : Type*} [LinearOrder κ]

/-- How a provider writes a position in a listing as a cursor. -/
structure CursorCode (κ : Type*) where
  enc : κ → String
  dec : String → Option κ
  dec_enc : ∀ k, dec (enc k) = some k

variable {N : Type} {key : N → κ} {ident : N → String}

/-- A page as the provider returns it: the end cursor is the position of
its last node. -/
def connectionOf (code : CursorCode κ) (key : N → κ) (page : Page N) : Connection N :=
  { nodes := page.nodes
    hasNextPage := page.hasNextPage
    endCursor := page.nodes.getLast?.map fun y => code.enc (key y) }

/-- The page behind a cursor of the items a listing has at some time. -/
def pageAt (code : CursorCode κ) (T : Timeline key ident) (size call : ℕ)
    (cursor : Option String) : Connection N :=
  connectionOf code key (keysetPage key size (cursor.bind code.dec) (T.items call))

/-- An item is in a listing all the time. -/
def ListedThroughout (T : Timeline key ident) (x : String) : Prop :=
  ∀ n, ∃ y ∈ T.items n, ident y = x

/-- An item is in a listing at no time. -/
def NeverListed (T : Timeline key ident) (x : String) : Prop :=
  ∀ n, ∀ y ∈ T.items n, ident y ≠ x

theorem ListedThroughout.not_neverListed {T : Timeline key ident} {x : String}
    (h : ListedThroughout T x) : ¬ NeverListed T x := by
  intro hnever
  obtain ⟨y, hy, hyx⟩ := h 0
  exact hnever 0 y hy hyx

theorem stillAhead_of_none {σ : Type*} (T : Timeline key ident) {time : σ → ℕ}
    {cursor : σ → Option κ} {s : σ} (h : cursor s = none) (x : String) :
    StillAhead T time cursor x s := by
  intro y _ _ c hc
  rw [h] at hc
  cases hc

/-! ## GitLab -/

namespace GitLab

variable {key : Node → κ}

/-- The listing answers each request with an error or a page of the items
it has then. -/
def AnswersFrom (code : CursorCode κ) (T : Timeline key Node.id) (listing : Listing) : Prop :=
  ∀ call cursor found, listing call cursor = .ok found →
    ∃ size, 0 < size ∧ found = some (pageAt code T size call cursor)

theorem AnswersFrom.serves {code : CursorCode κ} {T : Timeline key Node.id} {listing : Listing}
    (h : AnswersFrom code T listing) :
    ServesTimeline (request listing) T (·.1) fun s => s.2.bind code.dec := by
  have hpage : ∀ s page s', request listing s = .ok (some (page, s')) →
      (∃ size, 0 < size ∧ page = keysetPage key size (s.2.bind code.dec) (T.items s.1)) ∧
        s' = (s.1 + 1, page.nodes.getLast?.map fun y => code.enc (key y)) := by
    intro s page s' hreq
    cases hl : listing s.1 s.2 with
    | error msg =>
      rw [request, hl] at hreq
      cases hreq
    | ok found =>
      obtain ⟨size, hsize, rfl⟩ := h s.1 s.2 found hl
      rw [request, hl] at hreq
      obtain ⟨rfl, rfl⟩ := Prod.mk.inj (Option.some.inj (Except.ok.inj hreq))
      exact ⟨⟨size, hsize, rfl⟩, rfl⟩
  refine ⟨fun s page s' hreq => (hpage s page s' hreq).1, ?_, ?_⟩
  · intro s page s' hreq _
    rw [(hpage s page s' hreq).2]
    cases page.nodes.getLast? with
    | none => rfl
    | some y => exact code.dec_enc (key y)
  · intro s page s' hreq
    rw [(hpage s page s' hreq).2]
    exact Nat.le_succ s.1

theorem AnswersFrom.found {code : CursorCode κ} {T : Timeline key Node.id} {listing : Listing}
    (h : AnswersFrom code T listing) (s : ℕ × Option String) : request listing s ≠ .ok none := by
  intro hreq
  cases hl : listing s.1 s.2 with
  | error msg =>
    rw [request, hl] at hreq
    cases hreq
  | ok found =>
    obtain ⟨size, -, rfl⟩ := h s.1 s.2 found hl
    rw [request, hl] at hreq
    cases hreq

/-- The reader of a listing misses an item: the item moved while it was
unread, or the reader got to its page cap without it. -/
def Misses (listing : Listing) (T : Timeline key Node.id) (x : String) : Prop :=
  MovedUnread (request listing) T (·.1) x (0, none) ∨
    ∃ s, UnreadTo (request listing) Node.id x maxPages (0, none) s

/-- **What the sweep reads** of a listing that an item is in all the
time. -/
theorem read_iff_not_misses {code : CursorCode κ} {T : Timeline key Node.id} {answers : Answers}
    {kind : RefKind} {i : Nat} (hT : AnswersFrom code T (answers.listing kind i))
    (hnot : ∀ msg, (GitLabSource.listingRead none answers kind i).2 ≠ .failed msg) {x : String}
    (hx : ListedThroughout T x) :
    (∃ node ∈ (GitLabSource.listingRead none answers kind i).1, node.id = x) ↔
      ¬ Misses (answers.listing kind i) T x := by
  have hs := hT.serves
  have hahead : StillAhead T (fun s : ℕ × Option String => s.1)
      (fun s : ℕ × Option String => s.2.bind code.dec) x (0, none) := stillAhead_of_none T rfl x
  rw [GitLabSource.listingRead] at hnot ⊢
  rcases bulkPages_full (answers.listing kind i) maxPages (0, none) with
    ⟨n, l, o, hn, hr, heq⟩ | ⟨l, hr, heq⟩
  · rw [heq] at hnot ⊢
    cases o with
    | noListing => exact absurd rfl (hr.ne_noListing hT.found)
    | failed msg => exact absurd rfl (hnot msg)
    | lastPage =>
      rw [hr.mem_iff_not_movedUnread hs hx hahead]
      refine ⟨?_, fun h hm => h (Or.inl hm)⟩
      rintro h (hm | ⟨s, hto⟩)
      · exact h hm
      · -- fewer pages than the cap were read
        obtain ⟨l', hfirst, -⟩ := hto.readsFirst
        exact absurd (hr.le_of_readsFirst hfirst) (by omega)
  · rw [heq]
    constructor
    · rintro hmem (hm | ⟨s, hto⟩)
      · exact hr.not_movedUnread hs hx hahead hmem hm
      · obtain ⟨l', hfirst, hno⟩ := hto.readsFirst
        obtain rfl := hr.unique hfirst
        obtain ⟨y, hy, hyx⟩ := hmem
        exact hno y hy hyx
    · intro h
      by_contra hno
      simp only [not_exists, not_and] at hno
      obtain ⟨s, hto⟩ := hr.unreadTo hno
      exact h (Or.inr ⟨s, hto⟩)

/-- Nothing is read that the listing never has. -/
theorem not_read_of_neverListed {code : CursorCode κ} {T : Timeline key Node.id}
    {answers : Answers} {kind : RefKind} {i : Nat}
    (hT : AnswersFrom code T (answers.listing kind i)) {x : String} (hx : NeverListed T x) :
    ¬ ∃ node ∈ (GitLabSource.listingRead none answers kind i).1, node.id = x := by
  rintro ⟨node, hnode, hid⟩
  have hmem : ∃ n, node ∈ T.items n := by
    rw [GitLabSource.listingRead] at hnode
    rcases bulkPages_full (answers.listing kind i) maxPages (0, none) with
      ⟨n, l, o, -, hr, heq⟩ | ⟨l, hr, heq⟩
    · rw [heq] at hnode
      exact hr.mem_items hT.serves node hnode
    · rw [heq] at hnode
      exact hr.mem_items hT.serves node hnode
  obtain ⟨n, hn⟩ := hmem
  exact hx n node hn hid

end GitLab

/-! ## GitHub -/

namespace GitHub

variable {key : Node → κ}

/-- The listing answers each request with an error or a page of the items
it has then. -/
def AnswersFrom (code : CursorCode κ) (T : Timeline key Node.id) (listing : Listing) : Prop :=
  ∀ call cursor asked found, listing call cursor asked = .ok found →
    ∃ size, 0 < size ∧ found = some (pageAt code T size call cursor)

/-- The number of the request that is answered with the next page: the
first one, or the second where that fails. -/
def answeredCall (listing : Listing) (s : ReaderState) : ℕ :=
  match listing s.call s.cursor s.pageSize with
  | .ok _ => s.call
  | .error _ => s.call + 1

/-- A request that yields a page was answered by the listing. -/
theorem answered_of_request {listing : Listing} {s : ReaderState}
    {found : Option (Page Node × ReaderState)} (h : request listing s = .ok found) :
    ∃ asked conn?, listing (answeredCall listing s) s.cursor asked = .ok conn? ∧
      found = conn?.map fun conn =>
        ({ nodes := conn.nodes, hasNextPage := conn.hasNextPage },
          { call := answeredCall listing s + 1, cursor := conn.endCursor, pageSize := asked }) := by
  unfold request at h
  cases hl : listing s.call s.cursor s.pageSize with
  | ok conn? =>
    have hcall : answeredCall listing s = s.call := by rw [answeredCall, hl]
    rw [hl] at h
    rw [hcall]
    exact ⟨s.pageSize, conn?, hl, (Except.ok.inj h).symm⟩
  | error err =>
    have hcall : answeredCall listing s = s.call + 1 := by rw [answeredCall, hl]
    rw [hl] at h
    rw [hcall]
    simp only at h
    split at h
    · cases h
    · cases hl' : listing (s.call + 1) s.cursor (pageSize / 2) with
      | ok conn? =>
        rw [hl'] at h
        exact ⟨pageSize / 2, conn?, hl', (Except.ok.inj h).symm⟩
      | error err' =>
        rw [hl'] at h
        cases h

theorem call_le_answeredCall (listing : Listing) (s : ReaderState) :
    s.call ≤ answeredCall listing s := by
  unfold answeredCall
  split <;> omega

theorem AnswersFrom.serves {code : CursorCode κ} {T : Timeline key Node.id} {listing : Listing}
    (h : AnswersFrom code T listing) :
    ServesTimeline (request listing) T (answeredCall listing) fun s => s.cursor.bind code.dec := by
  have hpage : ∀ s page s', request listing s = .ok (some (page, s')) →
      (∃ size, 0 < size ∧
          page = keysetPage key size (s.cursor.bind code.dec) (T.items (answeredCall listing s))) ∧
        s'.call = answeredCall listing s + 1 ∧
        s'.cursor = page.nodes.getLast?.map fun y => code.enc (key y) := by
    intro s page s' hreq
    obtain ⟨asked, conn?, hl, hfound⟩ := answered_of_request hreq
    obtain ⟨size, hsize, rfl⟩ := h _ _ _ _ hl
    obtain ⟨rfl, rfl⟩ := Prod.mk.inj (Option.some.inj hfound)
    exact ⟨⟨size, hsize, rfl⟩, rfl, rfl⟩
  refine ⟨fun s page s' hreq => (hpage s page s' hreq).1, ?_, ?_⟩
  · intro s page s' hreq _
    rw [(hpage s page s' hreq).2.2]
    cases page.nodes.getLast? with
    | none => rfl
    | some y => exact code.dec_enc (key y)
  · intro s page s' hreq
    have hcall := (hpage s page s' hreq).2.1
    have hle := call_le_answeredCall listing s'
    omega

theorem AnswersFrom.found {code : CursorCode κ} {T : Timeline key Node.id} {listing : Listing}
    (h : AnswersFrom code T listing) (s : ReaderState) : request listing s ≠ .ok none := by
  intro hreq
  obtain ⟨asked, conn?, hl, hfound⟩ := answered_of_request hreq
  obtain ⟨size, -, rfl⟩ := h _ _ _ _ hl
  cases hfound

/-- The reader of a listing misses an item: the item moved while it was
unread. -/
def Misses (listing : Listing) (T : Timeline key Node.id) (x : String) : Prop :=
  MovedUnread (request listing) T (answeredCall listing) x .start

/-- What the sweep reads of a listing: the records are those of the nodes
to the last page. -/
theorem listingRead_nodes {code : CursorCode κ} {T : Timeline key Node.id} {now : String}
    {answers : Answers} {kind : RefKind} {project : String} {i : Nat}
    (hT : AnswersFrom code T (answers.listing kind i))
    (hnot : ∀ msg, (GitHubSource.listingRead now answers kind project i).2 ≠ .failed msg) :
    ∃ n l, ReadsTo (request (answers.listing kind i)) .start n l .lastPage ∧
      RecordsOf kind (GitHubSource.listingRead now answers kind project i).1.records l := by
  have hv := keepsNode_visitOf project (answers.trackerRefs i) (answers.threadPages i) kind
  rcases listPages_full kind now hv (answers.listing kind i) 0 .start with
    ⟨msg, hfail⟩ | ⟨n, l, hr, -⟩ | ⟨n, l, hr, -, hrec⟩
  · exact absurd hfail (hnot msg)
  · exact absurd rfl (hr.ne_noListing hT.found)
  · exact ⟨n, l, hr, hrec⟩

end GitHub

/-! ## The run that consumes the sweep -/

open GitLab in
/-- The items of a complete GitLab sweep. -/
theorem gitlab_fetched_iff {key : GitLab.Node → κ} {code : CursorCode κ} {src : GitLabSource}
    {since : Option String} {now : String} {answers : GitLab.Answers}
    {T : GitLab.RefKind → ℕ → Timeline key GitLab.Node.id}
    (hT : ∀ kind i, AnswersFrom code (T kind i) (answers.listing kind i))
    (hc : (src.fetch { since, full := true } now answers).complete = true) {k : ItemEndpoint}
    (hk : k.sourceId = src.descriptor.sourceId)
    (hx : ∀ kind i, ListedThroughout (T kind i) k.externalId ∨ NeverListed (T kind i) k.externalId) :
    (∃ r ∈ (src.fetch { since, full := true } now answers).records,
        NormalizesTo src.normalize r k) ↔
      ∃ i project kind, src.projects[i]? = some project ∧
        ListedThroughout (T kind i) k.externalId ∧
        ¬ Misses (answers.listing kind i) (T kind i) k.externalId := by
  have hsince : GitLabSource.sinceOf { since, full := true } = none := rfl
  rw [src.normalizesTo_fetch_iff now answers hk, hsince]
  refine exists_congr fun i => exists_congr fun project => exists_congr fun kind =>
    and_congr_right fun hi => ?_
  have hnot := src.not_failed_of_complete now answers hc hi kind
  rcases hx kind i with hlisted | hnever
  · exact (read_iff_not_misses (hT kind i) hnot hlisted).trans (iff_and_self.mpr fun _ => hlisted)
  · constructor
    · exact fun hread => absurd hread (not_read_of_neverListed (hT kind i) hnever)
    · exact fun hlisted => absurd hnever hlisted.1.not_neverListed

open GitHub in
/-- The items of a complete GitHub sweep. -/
theorem github_fetched_iff {key : GitHub.Node → κ} {code : CursorCode κ} {src : GitHubSource}
    {since : Option String} {now : String} {answers : GitHub.Answers}
    {T : GitHub.RefKind → ℕ → Timeline key GitHub.Node.id}
    (hT : ∀ kind i, AnswersFrom code (T kind i) (answers.listing kind i))
    (hc : (src.fetch { since, full := true } now answers).complete = true) {k : ItemEndpoint}
    (hk : k.sourceId = src.descriptor.sourceId)
    (hx : ∀ kind i, ListedThroughout (T kind i) k.externalId ∨ NeverListed (T kind i) k.externalId) :
    (∃ r ∈ (src.fetch { since, full := true } now answers).records,
        NormalizesTo src.normalize r k) ↔
      ∃ i project kind, src.projects[i]? = some project ∧
        ListedThroughout (T kind i) k.externalId ∧
        ¬ Misses (answers.listing kind i) (T kind i) k.externalId := by
  rw [src.normalizesTo_fetch_iff now answers rfl]
  refine exists_congr fun i => exists_congr fun project => exists_congr fun kind =>
    and_congr_right fun hi => ?_
  have hnot := src.not_failed_of_complete now answers rfl hc hi kind
  obtain ⟨n, l, hr, hrec⟩ := listingRead_nodes (hT kind i) hnot
  have hs := (hT kind i).serves
  have hread : (∃ r ∈ (GitHubSource.listingRead now answers kind project i).1.records,
      NormalizesTo src.normalize r k) ↔ ∃ y ∈ l, y.id = k.externalId := by
    constructor
    · rintro ⟨r, hmem, hto⟩
      obtain ⟨y, hy, hry⟩ := hrec.exists_node hmem
      exact ⟨y, hy, by rw [(src.normalizesTo_iff hry k).mp hto]⟩
    · rintro ⟨y, hy, hid⟩
      obtain ⟨r, hmem, hry⟩ := hrec.exists_record hy
      exact ⟨r, hmem, (src.normalizesTo_iff hry k).mpr (by rw [hid, ← hk])⟩
  rw [hread]
  rcases hx kind i with hlisted | hnever
  · rw [hr.mem_iff_not_movedUnread hs hlisted (stillAhead_of_none (T kind i) rfl k.externalId)]
    exact iff_and_self.mpr fun _ => hlisted
  · constructor
    · rintro ⟨y, hy, hid⟩
      obtain ⟨m, hm⟩ := hr.mem_items hs y hy
      exact absurd hid (hnever m y hm)
    · exact fun hlisted => absurd hnever hlisted.1.not_neverListed

/-- **Which items a complete sweep keeps.** A full run over a provider
that changes meanwhile, for both adapters: of the items that a listing has
either all the time or never, a run that ends complete tombstones exactly
those stored live before it that every listing missed, because they moved
while they were unread, or lie behind the page cap of the GitLab loop. -/
theorem sweep_keeps_iff (code : CursorCode κ) {prevWatermark : Option String} {opts : SyncOptions}
    {env : RunEnv} (hfull : opts.full = true) (hwrite : opts.dryRun = false)
    (htx : env.txError = none) (now : String) (k : ItemEndpoint) :
    (∀ (src : GitLabSource) (store : Store GitLab.Payload) (answers : GitLab.Answers)
        (key : GitLab.Node → κ) (T : GitLab.RefKind → ℕ → Timeline key GitLab.Node.id),
      (∀ kind i, GitLab.AnswersFrom code (T kind i) (answers.listing kind i)) →
      (src.fetch { since := prevWatermark, full := true } now answers).complete = true →
      k.sourceId = src.descriptor.sourceId →
      (∀ kind i, ListedThroughout (T kind i) k.externalId ∨
        NeverListed (T kind i) k.externalId) →
      (¬ Tombstoned store
          (syncSource store (src.toSource now answers) prevWatermark opts env).1 k ↔
        (SeenBefore store k env.startedAt →
          ∃ i project kind, src.projects[i]? = some project ∧
            ListedThroughout (T kind i) k.externalId ∧
            ¬ GitLab.Misses (answers.listing kind i) (T kind i) k.externalId))) ∧
    (∀ (src : GitHubSource) (store : Store GitHub.Payload) (answers : GitHub.Answers)
        (key : GitHub.Node → κ) (T : GitHub.RefKind → ℕ → Timeline key GitHub.Node.id),
      (∀ kind i, GitHub.AnswersFrom code (T kind i) (answers.listing kind i)) →
      (src.fetch { since := prevWatermark, full := true } now answers).complete = true →
      k.sourceId = src.descriptor.sourceId →
      (∀ kind i, ListedThroughout (T kind i) k.externalId ∨
        NeverListed (T kind i) k.externalId) →
      (¬ Tombstoned store
          (syncSource store (src.toSource now answers) prevWatermark opts env).1 k ↔
        (SeenBefore store k env.startedAt →
          ∃ i project kind, src.projects[i]? = some project ∧
            ListedThroughout (T kind i) k.externalId ∧
            ¬ GitHub.Misses (answers.listing kind i) (T kind i) k.externalId))) := by
  constructor
  · intro src store answers key T hT hc hk hx
    have hn : NormalizesWith (src.toSource now answers) src.normalize := fun _ => rfl
    rw [tombstoned_syncSource_iff hn rfl hfull hwrite htx hc hk, gitlab_fetched_iff hT hc hk hx,
      not_and_not_right]
  · intro src store answers key T hT hc hk hx
    have hn : NormalizesWith (src.toSource now answers) src.normalize := fun _ => rfl
    rw [tombstoned_syncSource_iff hn rfl hfull hwrite htx hc hk, github_fetched_iff hT hc hk hx,
      not_and_not_right]

end Provider

/-! ## Two issues of one project -/

namespace TwoIssues

open OneProject

/-- A text, in code point order. -/
structure Text where
  text : String
deriving DecidableEq

instance : LinearOrder Text where
  le a b := a.text ≤ b.text
  le_refl a := String.le_refl a.text
  le_trans _ _ _ := String.le_trans
  le_antisymm _ _ h h' := congrArg Text.mk (String.le_antisymm h h')
  le_total a b := String.le_total a.text b.text
  toDecidableLE a b := inferInstanceAs (Decidable (a.text ≤ b.text))

/-- The position of an item: when it was updated, and its id. -/
abbrev Position := Lex (Text × Text)

/-- The position of an item that was updated at a time. -/
def position (updatedAt id : String) : Position := toLex (⟨updatedAt⟩, ⟨id⟩)

/-- Two texts in one: each character of the first after a mark. -/
def encChars : List Char → List Char → List Char
  | [], b => 'y' :: b
  | c :: a, b => 'x' :: c :: encChars a b

/-- The two texts of one. -/
def decChars : List Char → Option (List Char × List Char)
  | 'y' :: b => some ([], b)
  | 'x' :: c :: l => (decChars l).map fun ab => (c :: ab.1, ab.2)
  | _ => none

theorem decChars_encChars (a b : List Char) : decChars (encChars a b) = some (a, b) := by
  induction a with
  | nil => rfl
  | cons c a ih => simp [encChars, decChars, ih]

/-- A cursor that spells out both parts of a position. -/
def code : CursorCode Position where
  enc k := String.ofList (encChars (ofLex k).1.text.toList (ofLex k).2.text.toList)
  dec s := (decChars s.toList).map fun ab => position (String.ofList ab.1) (String.ofList ab.2)
  dec_enc k := by
    simp [decChars_encChars, position]
    rfl

/-- The position of a GitLab node. -/
def gitlabKey (node : GitLab.Node) : Position := position node.updatedAt node.id

/-- The position of a GitHub node. -/
def githubKey (node : GitHub.Node) : Position := position node.updatedAt node.id

/-- The listings of one kind of item: issues, and nothing else. -/
def gitlabListings (T : Timeline gitlabKey GitLab.Node.id) :
    GitLab.RefKind → ℕ → Timeline gitlabKey GitLab.Node.id
  | .issue, _ => T
  | .changeRequest, _ => Timeline.still gitlabKey GitLab.Node.id [] .nil .nil

/-- The same of GitHub. -/
def githubListings (T : Timeline githubKey GitHub.Node.id) :
    GitHub.RefKind → ℕ → Timeline githubKey GitHub.Node.id
  | .issue, _ => T
  | .changeRequest, _ => Timeline.still githubKey GitHub.Node.id [] .nil .nil

/-- Pages of one issue each. -/
def gitlabPages (T : Timeline gitlabKey GitLab.Node.id) : GitLab.Answers :=
  { gitlabAnswers (some emptyPage) with
    issues := fun _ call cursor => .ok (some (pageAt code T 1 call cursor)) }

/-- The same of GitHub. -/
def githubPages (T : Timeline githubKey GitHub.Node.id) : GitHub.Answers :=
  { githubAnswers (some emptyPage) with
    issues := fun _ call cursor _ => .ok (some (pageAt code T 1 call cursor)) }

theorem gitlabPages_answersFrom (T : Timeline gitlabKey GitLab.Node.id) (kind : GitLab.RefKind)
    (i : ℕ) :
    GitLab.AnswersFrom code (gitlabListings T kind i) ((gitlabPages T).listing kind i) := by
  intro call cursor found h
  refine ⟨1, Nat.one_pos, ?_⟩
  cases kind <;> exact (Except.ok.inj h).symm

theorem githubPages_answersFrom (T : Timeline githubKey GitHub.Node.id) (kind : GitHub.RefKind)
    (i : ℕ) :
    GitHub.AnswersFrom code (githubListings T kind i) ((githubPages T).listing kind i) := by
  intro call cursor asked found h
  refine ⟨1, Nat.one_pos, ?_⟩
  cases kind <;> exact (Except.ok.inj h).symm

/-- Items stored by an earlier sync. -/
def stored {P : Type} (items : List CanonicalItem) : Store P :=
  { Store.empty .sqlite with
    items := items.foldl (fun rows item => rows.set item.endpoint
      { item, normalizedWith := "", lastSeenAt := "2026-06-01T08:30:00.000Z", deletedAt := none })
      OrdMap.empty }

/-- A full sweep that writes. -/
def opts : SyncOptions :=
  { full := true, dryRun := false, ciRefreshGraceMs := none, ciRefreshLimit := none }

/-- The times of the sweep. -/
def env : RunEnv :=
  { startedAt := "2026-06-01T09:30:00.000Z", sweepAt := "2026-06-01T10:30:00.000Z",
    finishedAt := "2026-06-01T10:30:00.000Z", txError := none }

/-- The issue as both sweeps find it at first. -/
def gitlabIssue : GitLab.Node := gitlabNode "1" "2026-06-01T08:00:00Z"

/-- The same of GitHub. -/
def githubIssue : GitHub.Node := githubNode "1" "2026-06-01T08:00:00Z"

/-- The issue as it is stored. -/
def gitlabItem : CanonicalItem := gitlab.commonItem gitlabIssue .issue

/-- The same of GitHub. -/
def githubItem : CanonicalItem := github.commonItem githubIssue .issue

/-! ## An issue that moves after it was read -/

/-- Two items. The one in front is updated between the first request and
the second. -/
def frontMoves {N : Type} (key : N → Position) (ident : N → String) (x x' y : N)
    (hid : ident x' = ident x) (hne : ident x ≠ ident y) (hyx : key y < key x)
    (hxx' : key x < key x') : Timeline key ident where
  items n := if n = 0 then [x, y] else [x', y]
  sorted n := by
    split
    · simpa using hyx
    · simpa using hyx.trans hxx'
  distinct n := by
    split
    · simpa using hne
    · simpa [hid] using hne
  moves n z hz := by
    rcases List.mem_pair.mp (by simpa using hz) with rfl | rfl
    · by_cases hn : n = 0
      · -- the updated item is in front of both
        subst hn
        refine Or.inr fun m hm w hw => ?_
        obtain rfl := Nat.le_zero.mp hm
        rcases List.mem_pair.mp (by simpa using hw) with rfl | rfl
        · exact hxx'
        · exact hyx.trans hxx'
      · exact Or.inl ⟨z, by simp [hn], rfl, rfl⟩
    · refine Or.inl ⟨z, ?_, rfl, rfl⟩
      split <;> simp

/-- The other issue, in front of it. -/
def second : GitLab.Node := gitlabNode "2" "2026-06-01T09:00:00Z"

/-- The other issue, updated. -/
def updatedSecond : GitLab.Node := gitlabNode "2" "2026-06-01T10:00:00Z"

/-- The same of GitHub. -/
def githubSecond : GitHub.Node := githubNode "2" "2026-06-01T09:00:00Z"

/-- The same of GitHub. -/
def githubUpdatedSecond : GitHub.Node := githubNode "2" "2026-06-01T10:00:00Z"

/-- The issues of the GitLab project while the sweep reads them. -/
def gitlabReadThenMoved : Timeline gitlabKey GitLab.Node.id :=
  frontMoves gitlabKey GitLab.Node.id second updatedSecond gitlabIssue rfl (by decide) (by decide)
    (by decide)

/-- The same of GitHub. -/
def githubReadThenMoved : Timeline githubKey GitHub.Node.id :=
  frontMoves githubKey GitHub.Node.id githubSecond githubUpdatedSecond githubIssue rfl (by decide)
    (by decide) (by decide)

theorem gitlabReadThenMoved_listed : ∀ x ∈ ["1", "2"], ListedThroughout gitlabReadThenMoved x := by
  intro x hx n
  rcases List.mem_pair.mp hx with rfl | rfl
  · exact ⟨gitlabIssue, by simp only [gitlabReadThenMoved, frontMoves]; split <;> simp, rfl⟩
  · by_cases hn : n = 0
    · exact ⟨second, by simp [gitlabReadThenMoved, frontMoves, hn], rfl⟩
    · exact ⟨updatedSecond, by simp [gitlabReadThenMoved, frontMoves, hn], rfl⟩

theorem githubReadThenMoved_listed : ∀ x ∈ ["1", "2"], ListedThroughout githubReadThenMoved x := by
  intro x hx n
  rcases List.mem_pair.mp hx with rfl | rfl
  · exact ⟨githubIssue, by simp only [githubReadThenMoved, frontMoves]; split <;> simp, rfl⟩
  · by_cases hn : n = 0
    · exact ⟨githubSecond, by simp [githubReadThenMoved, frontMoves, hn], rfl⟩
    · exact ⟨githubUpdatedSecond, by simp [githubReadThenMoved, frontMoves, hn], rfl⟩

/-- The item in front is read first, the other one on the second page. -/
theorem gitlab_readThenMoved_readsTo :
    ∃ l, ReadsTo (GitLab.request ((gitlabPages gitlabReadThenMoved).listing .issue 0)) (0, none) 1
      l .lastPage ∧ l.map GitLab.Node.id = ["2", "1"] :=
  ⟨_, .more rfl rfl (.last rfl rfl), rfl⟩

theorem github_readThenMoved_readsTo :
    ∃ l, ReadsTo (GitHub.request ((githubPages githubReadThenMoved).listing .issue 0)) .start 1
      l .lastPage ∧ l.map GitHub.Node.id = ["2", "1"] :=
  ⟨_, .more rfl rfl (.last rfl rfl), rfl⟩

theorem github_readThenMoved_complete :
    (github.fetch { since := none, full := true } ""
      (githubPages githubReadThenMoved)).complete = true := by
  refine github_complete ((githubPages githubReadThenMoved).listing .issue 0)
    ((githubPages githubReadThenMoved).listing .changeRequest 0) ?_ ?_
  · unfold GitHub.sweepListing
    rw [listPages_more _ _ rfl rfl (by decide) (by decide), listPages_last _ _ rfl rfl]
    rfl
  · unfold GitHub.sweepListing
    rw [listPages_last _ _ rfl rfl]
    rfl

/-- Neither issue is missed: both are read, the front one before it moves. -/
theorem gitlab_readThenMoved_not_misses : ∀ x ∈ ["1", "2"],
    ¬ GitLab.Misses ((gitlabPages gitlabReadThenMoved).listing .issue 0) gitlabReadThenMoved x := by
  intro x hx hmiss
  obtain ⟨l, hr, hl⟩ := gitlab_readThenMoved_readsTo
  have hmem : ∃ y ∈ l, y.id = x := by
    rw [← List.mem_map, hl]
    simpa [or_comm] using hx
  rcases hmiss with hm | ⟨s, hto⟩
  · exact (hr.mem_iff_not_movedUnread
      (gitlabPages_answersFrom gitlabReadThenMoved .issue 0).serves
      (gitlabReadThenMoved_listed x hx) (stillAhead_of_none _ rfl x)).mp hmem hm
  · obtain ⟨l', hfirst, -⟩ := hto.readsFirst
    exact absurd (hr.le_of_readsFirst hfirst) (by decide)

theorem github_readThenMoved_not_misses : ∀ x ∈ ["1", "2"],
    ¬ GitHub.Misses ((githubPages githubReadThenMoved).listing .issue 0) githubReadThenMoved x := by
  intro x hx
  obtain ⟨l, hr, hl⟩ := github_readThenMoved_readsTo
  refine (hr.mem_iff_not_movedUnread
    (githubPages_answersFrom githubReadThenMoved .issue 0).serves
    (githubReadThenMoved_listed x hx) (stillAhead_of_none _ rfl x)).mp ?_
  rw [← List.mem_map, hl]
  simpa [or_comm] using hx

/-- The other issue as it is stored. -/
def gitlabSecondItem : CanonicalItem := gitlab.commonItem second .issue

/-- The same of GitHub. -/
def githubSecondItem : CanonicalItem := github.commonItem githubSecond .issue

/-- **The same for two stored issues** on two pages, each read before the
one that moves does. -/
theorem sweep_keeps_readThenMoved :
    (∀ item ∈ [gitlabItem, gitlabSecondItem],
      SeenBefore (stored [gitlabItem, gitlabSecondItem] : Store GitLab.Payload) item.endpoint
          env.startedAt ∧
        ¬ Tombstoned (stored [gitlabItem, gitlabSecondItem])
          (syncSource (stored [gitlabItem, gitlabSecondItem])
            (gitlab.toSource "" (gitlabPages gitlabReadThenMoved)) none opts env).1
          item.endpoint) ∧
      ∀ item ∈ [githubItem, githubSecondItem],
        SeenBefore (stored [githubItem, githubSecondItem] : Store GitHub.Payload) item.endpoint
            env.startedAt ∧
          ¬ Tombstoned (stored [githubItem, githubSecondItem])
            (syncSource (stored [githubItem, githubSecondItem])
              (github.toSource "" (githubPages githubReadThenMoved)) none opts env).1
            item.endpoint := by
  constructor
  · intro item hitem
    have hid : item.endpoint.externalId ∈ ["1", "2"] ∧
        item.endpoint.sourceId = gitlab.descriptor.sourceId := by
      rcases List.mem_pair.mp hitem with rfl | rfl <;> decide
    constructor
    · rcases List.mem_pair.mp hitem with rfl | rfl <;> exact ⟨_, rfl, rfl, by decide⟩
    · refine ((sweep_keeps_iff code rfl rfl rfl "" item.endpoint).1 gitlab _
        (gitlabPages gitlabReadThenMoved) gitlabKey (gitlabListings gitlabReadThenMoved)
        (gitlabPages_answersFrom gitlabReadThenMoved) (by decide) hid.2 ?_).mpr fun _ => ?_
      · intro kind i
        cases kind with
        | issue => exact Or.inl (gitlabReadThenMoved_listed _ hid.1)
        | changeRequest => exact Or.inr fun _ y hy => by cases hy
      · exact ⟨0, "group/project", .issue, rfl, gitlabReadThenMoved_listed _ hid.1,
          gitlab_readThenMoved_not_misses _ hid.1⟩
  · intro item hitem
    have hid : item.endpoint.externalId ∈ ["1", "2"] ∧
        item.endpoint.sourceId = github.descriptor.sourceId := by
      rcases List.mem_pair.mp hitem with rfl | rfl <;> decide
    constructor
    · rcases List.mem_pair.mp hitem with rfl | rfl <;> exact ⟨_, rfl, rfl, by decide⟩
    · refine ((sweep_keeps_iff code rfl rfl rfl "" item.endpoint).2 github _
        (githubPages githubReadThenMoved) githubKey (githubListings githubReadThenMoved)
        (githubPages_answersFrom githubReadThenMoved) github_readThenMoved_complete hid.2
        ?_).mpr fun _ => ?_
      · intro kind i
        cases kind with
        | issue => exact Or.inl (githubReadThenMoved_listed _ hid.1)
        | changeRequest => exact Or.inr fun _ y hy => by cases hy
      · exact ⟨0, "owner/name", .issue, rfl, githubReadThenMoved_listed _ hid.1,
          github_readThenMoved_not_misses _ hid.1⟩

/-! ## A moving issue -/

/-- The issue, updated while the sweep is reading. -/
def updatedIssue : GitLab.Node := gitlabNode "1" "2026-06-01T10:00:00Z"

/-- The issue is updated between the first request and the second. -/
def movingItems : ℕ → List GitLab.Node
  | 0 => [second, gitlabIssue]
  | _ + 1 => [updatedIssue, second]

/-- The listing of the issue that moves. -/
def moving : Timeline gitlabKey GitLab.Node.id where
  items := movingItems
  sorted
    | 0 => by decide
    | _ + 1 => by
      rw [movingItems]
      decide
  distinct
    | 0 => by decide
    | _ + 1 => by
      rw [movingItems]
      decide
  moves
    | 0, y, hy => by
      simp only [movingItems, List.mem_cons, List.not_mem_nil, or_false] at hy
      rcases hy with rfl | rfl
      · refine Or.inr fun m hm => ?_
        obtain rfl := Nat.le_zero.mp hm
        decide
      · exact Or.inl ⟨second, by decide, rfl, rfl⟩
    | _ + 1, y, hy => Or.inl ⟨y, hy, rfl, rfl⟩

theorem moving_listed : ListedThroughout moving "1"
  | 0 => ⟨gitlabIssue, by decide, rfl⟩
  | _ + 1 => ⟨updatedIssue, List.mem_cons_self, rfl⟩

end TwoIssues

open TwoIssues OneProject in
/-- **A complete sweep can tombstone an issue that is there all along.** It
is on the second page when the first is read, and in front of the first
when the second is. -/
theorem not_sweep_keeps :
    ¬ ∀ (src : GitLabSource) (store : Store GitLab.Payload) (answers : GitLab.Answers)
        (T : GitLab.RefKind → ℕ → Timeline gitlabKey GitLab.Node.id) (opts : SyncOptions)
        (env : RunEnv) (k : ItemEndpoint),
      (∀ kind i, GitLab.AnswersFrom code (T kind i) (answers.listing kind i)) →
      opts.full = true →
      (src.fetch { since := none, full := true } "" answers).complete = true →
      k.sourceId = src.descriptor.sourceId →
      (∃ i project kind, src.projects[i]? = some project ∧
        ListedThroughout (T kind i) k.externalId) →
      ¬ Tombstoned store (syncSource store (src.toSource "" answers) none opts env).1 k := by
  intro h
  refine h gitlab (stored [gitlabItem]) (gitlabPages moving) (gitlabListings moving) opts env
    gitlabItem.endpoint (gitlabPages_answersFrom moving) rfl (by decide) rfl
    ⟨0, "group/project", .issue, rfl, moving_listed⟩ ?_
  have hrow : (stored [gitlabItem] : Store GitLab.Payload).items.get? gitlabItem.endpoint =
      some { item := gitlabItem, normalizedWith := "", lastSeenAt := "2026-06-01T08:30:00.000Z",
             deletedAt := none } := by rfl
  have hdel : ((syncSource (stored [gitlabItem]) (gitlab.toSource "" (gitlabPages moving)) none opts
      env).1.items.get? gitlabItem.endpoint).map (·.deletedAt) = some (some env.sweepAt) := by
    decide
  obtain ⟨row', hrow', hdeleted⟩ := Option.map_eq_some_iff.mp hdel
  exact ⟨_, row', hrow, rfl, hrow', by rw [hdeleted]; exact Option.some_ne_none _⟩

end SymphonyBoard
