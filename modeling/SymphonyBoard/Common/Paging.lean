import Mathlib.Data.List.Basic
/-!
# Cursor-paged listings

A reader asks for a listing page by page. `Pager` is one request: in the
state the reader has got to it fails, finds no listing, or gets a page and
the state to go on in. `ReadsTo` follows the pages from a state to where
the listing ends, and says how many pages came before and which nodes were
on them; it is deterministic, so it can be used as a specification of any
loop over the pages.

`Serves` ties a pager to a fixed listing that it hands out in order. A
reader that stops early at a node below some bound has then still seen
every node at or above the bound, as long as the listing is sorted
(`mem_takeWhile_of_sorted`).
-/

namespace SymphonyBoard

variable {σ E N : Type*}

/-- A page of a listing. -/
structure Page (N : Type*) where
  nodes : List N
  hasNextPage : Bool

/-- Reading on from a cursor: the next page and where it ended, or `none` at the end. -/
abbrev Pager (σ E N : Type*) := σ → Except E (Option (Page N × σ))

/-- How following the pages of a listing comes to an end. -/
inductive PagesEnd (E : Type*)
  | lastPage
  | noListing
  | failed (e : E)

/-- From a state, `n` pages with a page after them and then an end, with
all nodes read on the way. -/
inductive ReadsTo (ask : Pager σ E N) : σ → ℕ → List N → PagesEnd E → Prop
  | last {s s' page} (h : ask s = .ok (some (page, s'))) (hlast : page.hasNextPage = false) :
      ReadsTo ask s 0 page.nodes .lastPage
  | noListing {s} (h : ask s = .ok none) : ReadsTo ask s 0 [] .noListing
  | failed {s e} (h : ask s = .error e) : ReadsTo ask s 0 [] (.failed e)
  | more {s s' page n l o} (h : ask s = .ok (some (page, s'))) (hmore : page.hasNextPage = true)
      (hrest : ReadsTo ask s' n l o) : ReadsTo ask s (n + 1) (page.nodes ++ l) o

/-- **A listing ends in one way.** -/
theorem ReadsTo.unique {ask : Pager σ E N} {s : σ} {n n' : ℕ} {l l' : List N}
    {o o' : PagesEnd E} (h : ReadsTo ask s n l o) (h' : ReadsTo ask s n' l' o') :
    n = n' ∧ l = l' ∧ o = o' := by
  induction h generalizing n' l' with
  | last h hlast =>
    cases h' with
    | last h' _ =>
      obtain ⟨rfl, rfl⟩ := Prod.mk.inj (Option.some.inj (Except.ok.inj (h.symm.trans h')))
      exact ⟨rfl, rfl, rfl⟩
    | noListing h' => cases h.symm.trans h'
    | failed h' => cases h.symm.trans h'
    | more h' hmore _ =>
      obtain ⟨rfl, rfl⟩ := Prod.mk.inj (Option.some.inj (Except.ok.inj (h.symm.trans h')))
      rw [hlast] at hmore
      cases hmore
  | noListing h =>
    cases h' with
    | last h' _ => cases h.symm.trans h'
    | noListing h' => exact ⟨rfl, rfl, rfl⟩
    | failed h' => cases h.symm.trans h'
    | more h' _ _ => cases h.symm.trans h'
  | failed h =>
    cases h' with
    | last h' _ => cases h.symm.trans h'
    | noListing h' => cases h.symm.trans h'
    | failed h' =>
      obtain rfl := Except.error.inj (h.symm.trans h')
      exact ⟨rfl, rfl, rfl⟩
    | more h' _ _ => cases h.symm.trans h'
  | more h hmore _ ih =>
    cases h' with
    | last h' hlast =>
      obtain ⟨rfl, rfl⟩ := Prod.mk.inj (Option.some.inj (Except.ok.inj (h.symm.trans h')))
      rw [hlast] at hmore
      cases hmore
    | noListing h' => cases h.symm.trans h'
    | failed h' => cases h.symm.trans h'
    | more h' _ hrest =>
      obtain ⟨rfl, rfl⟩ := Prod.mk.inj (Option.some.inj (Except.ok.inj (h.symm.trans h')))
      obtain ⟨rfl, rfl, rfl⟩ := ih hrest
      exact ⟨rfl, rfl, rfl⟩

/-- `n` pages from a state, each with a next one, and their nodes. -/
inductive ReadsFirst (ask : Pager σ E N) : σ → ℕ → List N → Prop
  | nil (s) : ReadsFirst ask s 0 []
  | page {n s s' page l} (h : ask s = .ok (some (page, s'))) (hmore : page.hasNextPage = true)
      (hrest : ReadsFirst ask s' n l) : ReadsFirst ask s (n + 1) (page.nodes ++ l)

/-- A listing has as many pages before its end as were read of it. -/
theorem ReadsTo.le_of_readsFirst {ask : Pager σ E N} {s : σ} {n m : ℕ} {l l' : List N}
    {o : PagesEnd E} (h : ReadsTo ask s n l o) (h' : ReadsFirst ask s m l') : m ≤ n := by
  induction h' generalizing n l with
  | nil s => exact Nat.zero_le n
  | page h' hmore _ ih =>
    cases h with
    | last h hlast =>
      obtain ⟨rfl, rfl⟩ := Prod.mk.inj (Option.some.inj (Except.ok.inj (h'.symm.trans h)))
      rw [hlast] at hmore
      cases hmore
    | noListing h => cases h'.symm.trans h
    | failed h => cases h'.symm.trans h
    | more h _ hrest =>
      obtain ⟨rfl, rfl⟩ := Prod.mk.inj (Option.some.inj (Except.ok.inj (h'.symm.trans h)))
      exact Nat.succ_le_succ (ih hrest)

theorem ReadsFirst.unique {ask : Pager σ E N} {s : σ} {n : ℕ} {l l' : List N}
    (h : ReadsFirst ask s n l) (h' : ReadsFirst ask s n l') : l = l' := by
  induction h generalizing l' with
  | nil s =>
    cases h'
    rfl
  | page h _ _ ih =>
    cases h' with
    | page h' _ hrest =>
      obtain ⟨rfl, rfl⟩ := Prod.mk.inj (Option.some.inj (Except.ok.inj (h.symm.trans h')))
      rw [ih hrest]

/-- Where every request finds a listing, no pages end without one. -/
theorem ReadsTo.ne_noListing {ask : Pager σ E N} (hask : ∀ s, ask s ≠ .ok none) {s : σ} {n : ℕ}
    {l : List N} {o : PagesEnd E} (h : ReadsTo ask s n l o) : o ≠ .noListing := by
  induction h with
  | last _ _ => exact fun h => by cases h
  | noListing h => exact absurd h (hask _)
  | failed _ => exact fun h => by cases h
  | more _ _ _ ih => exact ih

/-! ## A fixed listing -/

/-- The pager hands out a fixed listing in order: `remaining` is what is
left of it in each state, and a page without a next one takes the rest. -/
structure Serves (ask : Pager σ E N) (remaining : σ → List N) : Prop where
  page : ∀ s page s', ask s = .ok (some (page, s')) → remaining s = page.nodes ++ remaining s'
  last : ∀ s page s', ask s = .ok (some (page, s')) → page.hasNextPage = false →
    remaining s' = []

/-- A reader that keeps what is at or above a bound, and stops at the
first node it does not keep, has kept every such node of a listing that is
sorted downwards. -/
theorem mem_takeWhile_of_sorted {above : N → Prop} {keep : N → Bool}
    {l : List N} (hkeep : ∀ a ∈ l, above a → keep a = true)
    (hsorted : l.Pairwise fun a b => above b → above a) {x : N} (hx : x ∈ l) (habove : above x) :
    x ∈ l.takeWhile keep := by
  induction l with
  | nil => cases hx
  | cons a l ih =>
    obtain ⟨ha, hl⟩ := List.pairwise_cons.mp hsorted
    rcases List.mem_cons.mp hx with rfl | hx'
    · rw [List.takeWhile_cons_of_pos (hkeep _ List.mem_cons_self habove)]
      exact List.mem_cons_self
    · rw [List.takeWhile_cons_of_pos (hkeep a List.mem_cons_self (ha x hx' habove))]
      exact List.mem_cons_of_mem _ (ih (fun b hb => hkeep b (List.mem_cons_of_mem _ hb)) hl hx')

end SymphonyBoard
