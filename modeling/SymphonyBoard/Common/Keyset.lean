import Mathlib.Order.Lattice
import Mathlib.Data.List.Pairwise
import Mathlib.Data.List.Nodup
import SymphonyBoard.Common.Paging
/-!
# Reading a changing listing by key

A listing is kept sorted downwards by a key, and its pages are read by a
cursor that means "behind the last key returned". Between two pages the
listing may change: `Timeline` gives its items at every time, where an
item is either as it was or in front of everything there has been.

An item that is there all along is then read unless it moved while it was
still unread (`mem_iff_not_movedUnread`): a move takes it in front of the
cursor, and the cursor only goes on.
-/

namespace SymphonyBoard

variable {σ E N κ ι : Type*} [LinearOrder κ]

/-- A sorted listing over time. An item that is not as it was one step
before is in front of everything there has been. -/
structure Timeline (key : N → κ) (ident : N → ι) where
  items : ℕ → List N
  sorted : ∀ n, (items n).Pairwise fun a b => key b < key a
  distinct : ∀ n, ((items n).map ident).Nodup
  moves : ∀ n, ∀ y ∈ items (n + 1),
    (∃ y' ∈ items n, ident y' = ident y ∧ key y' = key y) ∨ ∀ m ≤ n, ∀ z ∈ items m, key z < key y

/-- Behind a cursor; everything is behind none. -/
def Behind (cursor : Option κ) (k : κ) : Prop := ∀ c ∈ cursor, k < c

instance (cursor : Option κ) (k : κ) : Decidable (Behind cursor k) :=
  inferInstanceAs (Decidable (∀ c ∈ cursor, k < c))

/-- The page of at most `size` items behind a cursor. -/
def keysetPage (key : N → κ) (size : ℕ) (cursor : Option κ) (items : List N) : Page N :=
  let rest := items.filter fun y => decide (Behind cursor (key y))
  { nodes := rest.take size, hasNextPage := decide (size < rest.length) }

/-- A pager that serves a timeline by key: each state has a time and a
cursor, and the next cursor is the last key of the page. -/
structure ServesTimeline {key : N → κ} {ident : N → ι} (ask : Pager σ E N)
    (T : Timeline key ident) (time : σ → ℕ) (cursor : σ → Option κ) : Prop where
  page : ∀ s page s', ask s = .ok (some (page, s')) →
    ∃ size, 0 < size ∧ page = keysetPage key size (cursor s) (T.items (time s))
  cursor : ∀ s page s', ask s = .ok (some (page, s')) → page.hasNextPage = true →
    cursor s' = page.nodes.getLast?.map key
  time : ∀ s page s', ask s = .ok (some (page, s')) → time s ≤ time s'

/-- `n` pages from a state, each with a next one and none with `x`. -/
inductive UnreadTo (ask : Pager σ E N) (ident : N → ι) (x : ι) : ℕ → σ → σ → Prop
  | refl (s) : UnreadTo ask ident x 0 s s
  | page {n s s' s'' page} (h : ask s = .ok (some (page, s'))) (hmore : page.hasNextPage = true)
      (hx : ∀ y ∈ page.nodes, ident y ≠ x) (hrest : UnreadTo ask ident x n s' s'') :
      UnreadTo ask ident x (n + 1) s s''

/-- A listing that does not change. -/
def Timeline.still (key : N → κ) (ident : N → ι) (l : List N)
    (hsorted : l.Pairwise fun a b => key b < key a) (hdistinct : (l.map ident).Nodup) :
    Timeline key ident where
  items _ := l
  sorted _ := hsorted
  distinct _ := hdistinct
  moves _ y hy := Or.inl ⟨y, hy, rfl, rfl⟩

/-! ## Following the pages -/

theorem UnreadTo.readsFirst {ask : Pager σ E N} {ident : N → ι} {x : ι} {n : ℕ} {s s' : σ}
    (h : UnreadTo ask ident x n s s') :
    ∃ l, ReadsFirst ask s n l ∧ ∀ y ∈ l, ident y ≠ x := by
  induction h with
  | refl s => exact ⟨[], .nil s, fun y hy => by cases hy⟩
  | page h hmore hx _ ih =>
    obtain ⟨l, hl, hxl⟩ := ih
    refine ⟨_, .page h hmore hl, fun y hy => ?_⟩
    rcases List.mem_append.mp hy with hy | hy
    · exact hx y hy
    · exact hxl y hy

theorem ReadsFirst.unreadTo {ask : Pager σ E N} {ident : N → ι} {x : ι} {n : ℕ} {s : σ}
    {l : List N} (h : ReadsFirst ask s n l) (hx : ∀ y ∈ l, ident y ≠ x) :
    ∃ s', UnreadTo ask ident x n s s' := by
  induction h with
  | nil s => exact ⟨s, .refl s⟩
  | page h hmore _ ih =>
    obtain ⟨s', hs'⟩ := ih fun y hy => hx y (List.mem_append_right _ hy)
    exact ⟨s', .page h hmore (fun y hy => hx y (List.mem_append_left _ hy)) hs'⟩

/-! ## Where an item is -/

section Timeline

variable {key : N → κ} {ident : N → ι} (T : Timeline key ident)

theorem Timeline.eq_of_ident {n : ℕ} {y y' : N} (hy : y ∈ T.items n) (hy' : y' ∈ T.items n)
    (h : ident y = ident y') : y = y' :=
  List.inj_on_of_nodup_map (T.distinct n) hy hy' h

/-- **Over time an item stays where it is, or gets in front** of all that
was there before. -/
theorem Timeline.key_eq_or_front {m n : ℕ} (hmn : m ≤ n) {y y' : N} (hy : y ∈ T.items m)
    (hy' : y' ∈ T.items n) (h : ident y' = ident y) :
    key y' = key y ∨ ∀ z ∈ T.items m, key z < key y' := by
  induction hmn generalizing y' with
  | refl => exact Or.inl (by rw [T.eq_of_ident hy' hy h])
  | step hmn ih =>
    rcases T.moves _ y' hy' with ⟨y'', hy'', hid, hkey⟩ | hfront
    · rw [← hkey]
      exact ih hy'' (hid.trans h)
    · exact Or.inr fun z hz => hfront m hmn z hz

/-- An item behind the cursor that is not on the page is behind the page. -/
theorem lt_last_of_not_mem {size : ℕ} (hsize : 0 < size) {cursor : Option κ} {n : ℕ} {y : N}
    (hy : y ∈ T.items n) (hb : Behind cursor (key y))
    (hnot : y ∉ (keysetPage key size cursor (T.items n)).nodes) :
    ∃ z ∈ T.items n, (keysetPage key size cursor (T.items n)).nodes.getLast? = some z ∧
      Behind cursor (key z) ∧ key y < key z := by
  simp only [keysetPage] at hnot ⊢
  generalize hrest : (T.items n).filter (fun y => decide (Behind cursor (key y))) = rest at hnot ⊢
  have hmem : y ∈ rest := by
    rw [← hrest]
    exact List.mem_filter.mpr ⟨hy, decide_eq_true hb⟩
  have hpw : rest.Pairwise fun a b => key b < key a := by
    rw [← hrest]
    exact (T.sorted n).filter _
  rw [← List.take_append_drop size rest] at hmem hpw
  have hdrop : y ∈ rest.drop size := (List.mem_append.mp hmem).resolve_left hnot
  have hne : rest.take size ≠ [] := by
    intro hnil
    rcases List.take_eq_nil_iff.mp hnil with h | h
    · omega
    · rw [h] at hdrop
      simp at hdrop
  have hlast : (rest.take size).getLast hne ∈ rest.take size := List.getLast_mem hne
  have hfil : (rest.take size).getLast hne ∈
      (T.items n).filter fun y => decide (Behind cursor (key y)) := by
    rw [hrest]
    exact List.mem_of_mem_take hlast
  obtain ⟨hz, hbz⟩ := List.mem_filter.mp hfil
  exact ⟨_, hz, List.getLast?_eq_some_getLast hne, of_decide_eq_true hbz,
    (List.pairwise_append.mp hpw).2.2 _ hlast _ hdrop⟩

theorem behind_of_mem_page {size : ℕ} {cursor : Option κ} {items : List N} {y : N}
    (hy : y ∈ (keysetPage key size cursor items).nodes) : y ∈ items ∧ Behind cursor (key y) := by
  obtain ⟨hmem, hb⟩ := List.mem_filter.mp (List.mem_of_mem_take hy)
  exact ⟨hmem, of_decide_eq_true hb⟩

theorem mem_lastPage {size : ℕ} {cursor : Option κ} {items : List N} {y : N} (hy : y ∈ items)
    (hb : Behind cursor (key y)) (hlast : (keysetPage key size cursor items).hasNextPage = false) :
    y ∈ (keysetPage key size cursor items).nodes := by
  simp only [keysetPage, decide_eq_false_iff_not] at hlast ⊢
  rw [List.take_of_length_le (Nat.not_lt.mp hlast)]
  exact List.mem_filter.mpr ⟨hy, decide_eq_true hb⟩

end Timeline

/-! ## Reading past an item -/

section Reading

variable {key : N → κ} {ident : N → ι} {ask : Pager σ E N} {T : Timeline key ident}
  {time : σ → ℕ} {cursor : σ → Option κ} {x : ι}

/-- Where the reader is, `x` is behind the cursor. -/
def StillAhead (T : Timeline key ident) (time : σ → ℕ) (cursor : σ → Option κ) (x : ι) (s : σ) :
    Prop :=
  ∀ y ∈ T.items (time s), ident y = x → Behind (cursor s) (key y)

/-- Where the reader is, the cursor is past `x`. -/
def Passed (T : Timeline key ident) (time : σ → ℕ) (cursor : σ → Option κ) (x : ι) (s : σ) :
    Prop :=
  ∀ y ∈ T.items (time s), ident y = x → ¬ Behind (cursor s) (key y)

/-- The key of `x` is not the same at two states of the reader. -/
def Moved (T : Timeline key ident) (time : σ → ℕ) (x : ι) (s s' : σ) : Prop :=
  ∃ y ∈ T.items (time s), ∃ y' ∈ T.items (time s'), ident y = x ∧ ident y' = x ∧ key y ≠ key y'

/-- `x` moved between two pages that were both read, and was on neither
the first of them nor any page before it. -/
def MovedUnread (ask : Pager σ E N) (T : Timeline key ident) (time : σ → ℕ) (x : ι) (s : σ) :
    Prop :=
  ∃ n s₁ s₂, UnreadTo ask ident x n s s₁ ∧ UnreadTo ask ident x 1 s₁ s₂ ∧ Moved T time x s₁ s₂

/-- **Over one page without it, `x` stays ahead of the reader or is
passed**: passed exactly if it moved. -/
theorem ahead_or_passed (hs : ServesTimeline ask T time cursor)
    (hpresent : ∀ n, ∃ y ∈ T.items n, ident y = x) {s s' : σ} {page : Page N}
    (h : ask s = .ok (some (page, s'))) (hmore : page.hasNextPage = true)
    (hx : ∀ y ∈ page.nodes, ident y ≠ x) (hahead : StillAhead T time cursor x s) :
    (StillAhead T time cursor x s' ∧ ¬ Moved T time x s s') ∨
      (Passed T time cursor x s' ∧ Moved T time x s s') := by
  obtain ⟨size, hsize, hpage⟩ := hs.page s page s' h
  obtain ⟨y, hy, hyx⟩ := hpresent (time s)
  obtain ⟨z, hz, hlast, -, hlt⟩ := lt_last_of_not_mem T hsize hy (hahead y hy hyx)
    fun hmem => hx y (hpage ▸ hmem) hyx
  have hcur : cursor s' = some (key z) := by
    rw [hs.cursor s page s' h hmore, hpage, hlast, Option.map_some]
  obtain ⟨y', hy', hyx'⟩ := hpresent (time s')
  have hmoved : Moved T time x s s' ↔ key y ≠ key y' := by
    constructor
    · rintro ⟨w, hw, w', hw', hwx, hwx', hne⟩
      rwa [T.eq_of_ident hw hy (hwx.trans hyx.symm),
        T.eq_of_ident hw' hy' (hwx'.trans hyx'.symm)] at hne
    · exact fun hne => ⟨y, hy, y', hy', hyx, hyx', hne⟩
  rcases T.key_eq_or_front (hs.time s page s' h) hy hy' (hyx'.trans hyx.symm) with heq | hfront
  · left
    refine ⟨fun w hw hwx => ?_, fun hm => hmoved.mp hm heq.symm⟩
    rw [T.eq_of_ident hw hy' (hwx.trans hyx'.symm), hcur, heq]
    intro c hc
    obtain rfl := Option.some.inj hc
    exact hlt
  · right
    refine ⟨fun w hw hwx hb => ?_, hmoved.mpr (hfront y hy).ne⟩
    rw [T.eq_of_ident hw hy' (hwx.trans hyx'.symm), hcur] at hb
    exact absurd (hb (key z) rfl) (hfront z hz).not_gt

/-- Once passed, `x` stays passed. -/
theorem passed_step (hs : ServesTimeline ask T time cursor)
    (hpresent : ∀ n, ∃ y ∈ T.items n, ident y = x) {s s' : σ} {page : Page N}
    (h : ask s = .ok (some (page, s'))) (hmore : page.hasNextPage = true)
    (hpassed : Passed T time cursor x s) : Passed T time cursor x s' := by
  obtain ⟨size, hsize, hpage⟩ := hs.page s page s' h
  obtain ⟨y, hy, hyx⟩ := hpresent (time s)
  have hnb := hpassed y hy hyx
  -- the page is not empty, and its last key is behind the cursor
  have hne : page.nodes ≠ [] := by
    intro hnil
    rw [hpage] at hmore hnil
    simp only [keysetPage, decide_eq_true_eq] at hmore hnil
    rcases List.take_eq_nil_iff.mp hnil with h0 | h0
    · omega
    · rw [h0] at hmore
      simp at hmore
  have hcur : cursor s' = some (key (page.nodes.getLast hne)) := by
    rw [hs.cursor s page s' h hmore, List.getLast?_eq_some_getLast hne, Option.map_some]
  have hlast : page.nodes.getLast hne ∈
      (keysetPage key size (cursor s) (T.items (time s))).nodes := by
    rw [← hpage]
    exact List.getLast_mem hne
  obtain ⟨hz, hbz⟩ := behind_of_mem_page hlast
  intro y' hy' hyx' hb
  rw [hcur] at hb
  have hlt := hb _ rfl
  refine hnb fun c hc => ?_
  rcases T.key_eq_or_front (hs.time s page s' h) hy hy' (hyx'.trans hyx.symm) with heq | hfront
  · exact (heq ▸ hlt).trans (hbz c hc)
  · exact absurd hlt (hfront _ hz).not_gt

theorem not_mem_of_passed (hs : ServesTimeline ask T time cursor) {s s' : σ} {page : Page N}
    (h : ask s = .ok (some (page, s'))) (hpassed : Passed T time cursor x s) :
    ∀ y ∈ page.nodes, ident y ≠ x := by
  obtain ⟨size, -, hpage⟩ := hs.page s page s' h
  intro y hy hyx
  rw [hpage] at hy
  obtain ⟨hmem, hb⟩ := behind_of_mem_page hy
  exact hpassed y hmem hyx hb

/-- What is passed is never read. -/
theorem ReadsTo.not_mem_of_passed (hs : ServesTimeline ask T time cursor)
    (hpresent : ∀ n, ∃ y ∈ T.items n, ident y = x) {s : σ} {n : ℕ} {l : List N}
    {o : PagesEnd E} (h : ReadsTo ask s n l o) (hpassed : Passed T time cursor x s) :
    ∀ y ∈ l, ident y ≠ x := by
  induction h with
  | last h _ => exact SymphonyBoard.not_mem_of_passed hs h hpassed
  | noListing h => exact fun y hy => by cases hy
  | failed h => exact fun y hy => by cases hy
  | more h hmore _ ih =>
    intro y hy
    rcases List.mem_append.mp hy with hy | hy
    · exact SymphonyBoard.not_mem_of_passed hs h hpassed y hy
    · exact ih (passed_step hs hpresent h hmore hpassed) y hy

theorem ReadsFirst.not_mem_of_passed (hs : ServesTimeline ask T time cursor)
    (hpresent : ∀ n, ∃ y ∈ T.items n, ident y = x) {s : σ} {n : ℕ} {l : List N}
    (h : ReadsFirst ask s n l) (hpassed : Passed T time cursor x s) :
    ∀ y ∈ l, ident y ≠ x := by
  induction h with
  | nil s => exact fun y hy => by cases hy
  | page h hmore _ ih =>
    intro y hy
    rcases List.mem_append.mp hy with hy | hy
    · exact SymphonyBoard.not_mem_of_passed hs h hpassed y hy
    · exact ih (passed_step hs hpresent h hmore hpassed) y hy

/-- What is read was in the listing at some time. -/
theorem mem_items_of_page (hs : ServesTimeline ask T time cursor) {s s' : σ} {page : Page N}
    (h : ask s = .ok (some (page, s'))) {y : N} (hy : y ∈ page.nodes) : ∃ n, y ∈ T.items n := by
  obtain ⟨size, -, hpage⟩ := hs.page s page s' h
  rw [hpage] at hy
  exact ⟨time s, (behind_of_mem_page hy).1⟩

theorem ReadsTo.mem_items (hs : ServesTimeline ask T time cursor) {s : σ} {n : ℕ} {l : List N}
    {o : PagesEnd E} (h : ReadsTo ask s n l o) : ∀ y ∈ l, ∃ n, y ∈ T.items n := by
  induction h with
  | last h _ => exact fun y hy => mem_items_of_page hs h hy
  | noListing h => exact fun y hy => by cases hy
  | failed h => exact fun y hy => by cases hy
  | more h _ _ ih =>
    intro y hy
    rcases List.mem_append.mp hy with hy | hy
    · exact mem_items_of_page hs h hy
    · exact ih y hy

theorem ReadsFirst.mem_items (hs : ServesTimeline ask T time cursor) {s : σ} {n : ℕ} {l : List N}
    (h : ReadsFirst ask s n l) : ∀ y ∈ l, ∃ n, y ∈ T.items n := by
  induction h with
  | nil s => exact fun y hy => by cases hy
  | page h _ _ ih =>
    intro y hy
    rcases List.mem_append.mp hy with hy | hy
    · exact mem_items_of_page hs h hy
    · exact ih y hy

/-- A move while unread starts with a page that has a next one and is
without `x`; it happens over that page or after it. -/
theorem movedUnread_iff {s : σ} : MovedUnread ask T time x s ↔
    ∃ page s', ask s = .ok (some (page, s')) ∧ page.hasNextPage = true ∧
      (∀ y ∈ page.nodes, ident y ≠ x) ∧ (Moved T time x s s' ∨ MovedUnread ask T time x s') := by
  constructor
  · rintro ⟨n, s₁, s₂, hto, hone, hmoved⟩
    cases hto with
    | refl =>
      cases hone with
      | page h hmore hx hrest =>
        cases hrest
        exact ⟨_, _, h, hmore, hx, Or.inl hmoved⟩
    | page h hmore hx hrest =>
      exact ⟨_, _, h, hmore, hx, Or.inr ⟨_, s₁, s₂, hrest, hone, hmoved⟩⟩
  · rintro ⟨page, s', h, hmore, hx, hmoved | ⟨n, s₁, s₂, hto, hone, hmoved⟩⟩
    · exact ⟨0, s, s', .refl s, .page h hmore hx (.refl s'), hmoved⟩
    · exact ⟨n + 1, s₁, s₂, .page h hmore hx hto, hone, hmoved⟩

/-- The same, for a page known to be read first. -/
theorem movedUnread_page_iff {s s' : σ} {page : Page N} (h : ask s = .ok (some (page, s')))
    (hmore : page.hasNextPage = true) :
    MovedUnread ask T time x s ↔
      (∀ y ∈ page.nodes, ident y ≠ x) ∧ (Moved T time x s s' ∨ MovedUnread ask T time x s') := by
  rw [movedUnread_iff]
  constructor
  · rintro ⟨page', s'', h', -, hx, hmoved⟩
    obtain ⟨rfl, rfl⟩ := Prod.mk.inj (Option.some.inj (Except.ok.inj (h.symm.trans h')))
    exact ⟨hx, hmoved⟩
  · rintro ⟨hx, hmoved⟩
    exact ⟨page, s', h, hmore, hx, hmoved⟩

/-- **An item that is there all along is read unless it moved while it
was unread.** -/
theorem ReadsTo.mem_iff_not_movedUnread (hs : ServesTimeline ask T time cursor)
    (hpresent : ∀ n, ∃ y ∈ T.items n, ident y = x) {s : σ} {n : ℕ} {l : List N}
    (h : ReadsTo ask s n l .lastPage) (hahead : StillAhead T time cursor x s) :
    (∃ y ∈ l, ident y = x) ↔ ¬ MovedUnread ask T time x s := by
  generalize ho : (PagesEnd.lastPage : PagesEnd E) = o at h
  induction h with
  | last h hlast =>
    obtain ⟨size, -, hpage⟩ := hs.page _ _ _ h
    obtain ⟨y, hy, hyx⟩ := hpresent (time _)
    constructor
    · rintro - hm
      obtain ⟨page', s'', h', hmore, -, -⟩ := movedUnread_iff.mp hm
      obtain ⟨rfl, rfl⟩ := Prod.mk.inj (Option.some.inj (Except.ok.inj (h.symm.trans h')))
      rw [hlast] at hmore
      cases hmore
    · intro _
      refine ⟨y, ?_, hyx⟩
      rw [hpage] at hlast ⊢
      exact mem_lastPage hy (hahead y hy hyx) hlast
  | noListing h => cases ho
  | failed h => cases ho
  | @more s s' page n l o h hmore hrest ih =>
    rw [movedUnread_page_iff h hmore]
    -- the page shows the item, or the item is ahead of the next cursor or passed by it
    by_cases hx : ∀ y ∈ page.nodes, ident y ≠ x
    · have hskip : (∃ y ∈ page.nodes ++ l, ident y = x) ↔ ∃ y ∈ l, ident y = x := by
        constructor
        · rintro ⟨y, hy, hyx⟩
          exact ⟨y, (List.mem_append.mp hy).resolve_left fun hp => hx y hp hyx, hyx⟩
        · rintro ⟨y, hy, hyx⟩
          exact ⟨y, List.mem_append_right _ hy, hyx⟩
      rw [hskip]
      rcases ahead_or_passed hs hpresent h hmore hx hahead with ⟨ha, hnm⟩ | ⟨hp, hm⟩
      · rw [ih ha ho]
        constructor
        · rintro hn ⟨-, hm | hm⟩
          · exact hnm hm
          · exact hn hm
        · exact fun hn hm => hn ⟨hx, Or.inr hm⟩
      · constructor
        · rintro ⟨y, hy, hyx⟩
          exact absurd hyx (hrest.not_mem_of_passed hs hpresent hp y hy)
        · exact fun hn => absurd ⟨hx, Or.inl hm⟩ hn
    · constructor
      · rintro - ⟨hx', -⟩
        exact hx hx'
      · intro _
        simp only [not_forall, not_not] at hx
        obtain ⟨y, hy, hyx⟩ := hx
        exact ⟨y, List.mem_append_left _ hy, hyx⟩

/-- An item on one of the first pages did not move while it was unread. -/
theorem ReadsFirst.not_movedUnread (hs : ServesTimeline ask T time cursor)
    (hpresent : ∀ n, ∃ y ∈ T.items n, ident y = x) {s : σ} {n : ℕ} {l : List N}
    (h : ReadsFirst ask s n l) (hahead : StillAhead T time cursor x s)
    (hmem : ∃ y ∈ l, ident y = x) : ¬ MovedUnread ask T time x s := by
  induction h with
  | nil s =>
    obtain ⟨y, hy, -⟩ := hmem
    cases hy
  | @page n s s' page l h hmore hrest ih =>
    rw [movedUnread_page_iff h hmore]
    rintro ⟨hx, hm⟩
    obtain ⟨y, hy, hyx⟩ := hmem
    have hy : y ∈ l := (List.mem_append.mp hy).resolve_left fun hp => hx y hp hyx
    rcases ahead_or_passed hs hpresent h hmore hx hahead with ⟨ha, hnm⟩ | ⟨hp, -⟩
    · exact ih ha ⟨y, hy, hyx⟩ (hm.resolve_left hnm)
    · exact hrest.not_mem_of_passed hs hpresent hp y hy hyx

end Reading

end SymphonyBoard
