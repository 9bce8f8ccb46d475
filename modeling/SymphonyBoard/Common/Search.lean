import Mathlib.Data.List.Perm.Subperm
import SymphonyBoard.Common.OrdMap
/-!
# Breadth-first search under two caps

A search from one start over a list of neighbours: a queue, the distance
each item was found at, and two caps, on the distance and on the number of
items. A search its room did not cut finds exactly the items within the
depth, each at its distance (`get?_search`).
-/

namespace SymphonyBoard

/-- The distances so far, the queue, the links taken, and whether either
cap has turned an item away. -/
structure Search (α τ : Type*) where
  hops : OrdMap α ℕ
  pending : List α
  tree : List τ
  beyondDepth : Bool
  beyondRoom : Bool

section Search

variable {α τ : Type*} [DecidableEq α] (neighbours : α → List (α × τ)) (depth room : ℕ)

/-- Meet a neighbour of an item found at `hop`. -/
def Search.meet (hop : ℕ) (st : Search α τ) (n : α × τ) : Search α τ :=
  if (st.hops.get? n.1).isSome then st
  else if depth < hop + 1 then { st with beyondDepth := true }
  else if room ≤ st.hops.entries.length then { st with beyondRoom := true }
  else
    { st with
      hops := st.hops.set n.1 (hop + 1)
      pending := st.pending ++ [n.1]
      tree := st.tree ++ [n.2] }

/-- Take the next item off the queue and meet its neighbours. -/
def Search.step (st : Search α τ) : Search α τ :=
  match st.pending with
  | [] => st
  | x :: rest =>
    (neighbours x).foldl (Search.meet depth room ((st.hops.get? x).getD 0))
      { st with pending := rest }

/-- So many steps of the search. -/
def Search.run : ℕ → Search α τ → Search α τ
  | 0, st => st
  | n + 1, st => Search.run n (st.step neighbours depth room)

/-- The search at its source, which has been found and is the first frontier. -/
def Search.start (s : α) : Search α τ := ⟨OrdMap.empty.set s 0, [s], [], false, false⟩

/-- The whole search: no more items are taken than there is room for. -/
def search (s : α) : Search α τ := (Search.start s).run neighbours depth room room

/-! ## Distance -/

/-- An edge from one to the other. -/
def Linked (x y : α) : Prop := ∃ n ∈ neighbours x, n.1 = y

/-- Reached from the start over at most so many links. -/
def Within (s : α) : ℕ → α → Prop
  | 0, y => y = s
  | k + 1, y => Within s k y ∨ ∃ x, Within s k x ∧ Linked neighbours x y

/-- Reached over so many links and no fewer. -/
def AtDistance (s : α) (k : ℕ) (y : α) : Prop :=
  Within neighbours s k y ∧ ∀ j < k, ¬Within neighbours s j y

variable {neighbours depth room} {s : α} {st st' : Search α τ}

omit [DecidableEq α] in
theorem Within.mono {j k : ℕ} (hjk : j ≤ k) {y : α} (h : Within neighbours s j y) :
    Within neighbours s k y := by
  induction k with
  | zero =>
    obtain rfl := Nat.le_zero.mp hjk
    exact h
  | succ k ih =>
    by_cases hj : j = k + 1
    · exact hj ▸ h
    · exact Or.inl (ih (by omega))

omit [DecidableEq α] in
theorem within_start (k : ℕ) : Within neighbours s k s := Within.mono (Nat.zero_le k) rfl

omit [DecidableEq α] in
/-- Two lists of neighbours with the same links near the start reach the
same items. -/
theorem within_congr {τ' : Type*} {neighbours' : α → List (α × τ')} {bound : ℕ}
    (h : ∀ k < bound, ∀ x, Within neighbours s k x →
      ∀ y, Linked neighbours x y ↔ Linked neighbours' x y) {k : ℕ} (hk : k ≤ bound) {y : α} :
    Within neighbours s k y ↔ Within neighbours' s k y := by
  induction k generalizing y with
  | zero => exact Iff.rfl
  | succ k ih =>
    have ih := fun z => @ih (by omega) z
    unfold Within
    rw [ih]
    refine or_congr_right (exists_congr fun x => ?_)
    rw [← ih x]
    exact and_congr_right fun hx => h k (by omega) x hx y

omit [DecidableEq α] in
/-- More links reach no less. -/
theorem Within.of_linked {τ' : Type*} {neighbours' : α → List (α × τ')}
    (h : ∀ x y, Linked neighbours x y → Linked neighbours' x y) {k : ℕ} {y : α}
    (hy : Within neighbours s k y) : Within neighbours' s k y := by
  induction k generalizing y with
  | zero => exact hy
  | succ k ih =>
    rcases hy with hy | ⟨x, hx, hxy⟩
    · exact Or.inl (ih hy)
    · exact Or.inr ⟨x, ih hx, h x y hxy⟩

omit [DecidableEq α] in
/-- The nearest distance at which an item is within reach. -/
theorem exists_atDistance {k : ℕ} {y : α} (h : Within neighbours s k y) :
    ∃ j ≤ k, AtDistance neighbours s j y := by
  induction k with
  | zero => exact ⟨0, Nat.le_refl 0, h, fun j hj => absurd hj (Nat.not_lt_zero j)⟩
  | succ k ih =>
    by_cases hk : Within neighbours s k y
    · obtain ⟨j, hj, hat⟩ := ih hk
      exact ⟨j, by omega, hat⟩
    · exact ⟨k + 1, Nat.le_refl _, h, fun j hj hw => hk (hw.mono (by omega))⟩

omit [DecidableEq α] in
/-- Before an item at a distance there is one at every smaller distance. -/
theorem exists_atDistance_of_le {j k : ℕ} (hjk : j ≤ k) {y : α}
    (h : AtDistance neighbours s k y) : ∃ x, AtDistance neighbours s j x := by
  induction k generalizing y with
  | zero =>
    obtain rfl := Nat.le_zero.mp hjk
    exact ⟨y, h⟩
  | succ k ih =>
    by_cases hj : j = k + 1
    · exact ⟨y, hj ▸ h⟩
    · obtain ⟨hwithin, hfirst⟩ := h
      rcases hwithin with hnear | ⟨x, hx, hxy⟩
      · exact absurd hnear (hfirst k (by omega))
      · have hat : AtDistance neighbours s k x := by
          refine ⟨hx, fun i hi hi' => hfirst (i + 1) (by omega) ?_⟩
          exact Or.inr ⟨x, hi', hxy⟩
        exact ih (by omega) hat

/-! ## One item's neighbours -/

/-- What meeting some neighbours of an item at `hop` adds. -/
structure Meets (depth room hop : ℕ) (ns : List (α × τ)) (st st' : Search α τ)
    (new : List α) : Prop where
  kept : ∀ y j, st.hops.get? y = some j → st'.hops.get? y = some j
  found : ∀ y j, st'.hops.get? y = some j →
    st.hops.get? y = some j ∨ j = hop + 1 ∧ hop < depth ∧ y ∈ new ∧ ∃ n ∈ ns, n.1 = y
  pending : st'.pending = st.pending ++ new
  newHop : ∀ y ∈ new, st'.hops.get? y = some (hop + 1)
  size : st'.hops.entries.length = st.hops.entries.length + new.length
  room : st.hops.entries.length ≤ room → st'.hops.entries.length ≤ room
  cut : st.beyondRoom = true → st'.beyondRoom = true
  all : st'.beyondRoom = false → hop < depth → ∀ n ∈ ns, (st'.hops.get? n.1).isSome

theorem meets_meet (hop : ℕ) (st : Search α τ) (n : α × τ) :
    ∃ new, Meets depth room hop [n] st (st.meet depth room hop n) new := by
  unfold Search.meet
  split
  · rename_i hknown
    refine ⟨[], fun _ _ h => h, fun _ _ h => Or.inl h, by simp, by simp, by simp, id, id, ?_⟩
    rintro - - m hm
    rw [List.mem_singleton.mp hm]
    exact hknown
  · rename_i hnew
    split
    · rename_i hfar
      exact ⟨[], fun _ _ h => h, fun _ _ h => Or.inl h, by simp, by simp, by simp, id, id,
        fun _ hdepth => absurd hdepth (by omega)⟩
    · rename_i hnear
      split
      · exact ⟨[], fun _ _ h => h, fun _ _ h => Or.inl h, by simp, by simp, by simp, id,
          fun _ => rfl, fun h => by cases h⟩
      · rename_i hroom
        have hnone : st.hops.get? n.1 = none := by simpa using hnew
        refine ⟨[n.1], ?_, ?_, rfl, ?_, ?_, ?_, id, ?_⟩
        · intro y j h
          have hne : n.1 ≠ y := fun heq => by rw [heq, h] at hnone; cases hnone
          rw [OrdMap.get?_set, if_neg hne]
          exact h
        · intro y j h
          rw [OrdMap.get?_set] at h
          split at h
          · rename_i heq
            exact Or.inr ⟨(Option.some.inj h).symm, by omega, heq ▸ List.mem_singleton_self _, n,
              List.mem_singleton_self n, heq⟩
          · exact Or.inl h
        · intro y hy
          rw [List.mem_singleton.mp hy, OrdMap.get?_set, if_pos rfl]
        · rw [OrdMap.entries_set_of_none _ hnone]
          simp
        · intro hle
          rw [OrdMap.entries_set_of_none _ hnone, List.length_append, List.length_singleton]
          omega
        · rintro - - m hm
          rw [List.mem_singleton.mp hm, OrdMap.get?_set, if_pos rfl]
          rfl

theorem meets_foldl (hop : ℕ) (ns : List (α × τ)) (st : Search α τ) :
    ∃ new, Meets depth room hop ns st (ns.foldl (Search.meet depth room hop) st) new := by
  induction ns generalizing st with
  | nil =>
    exact ⟨[], fun _ _ h => h, fun _ _ h => Or.inl h, by simp, by simp, by simp, id, id,
      by simp⟩
  | cons n ns ih =>
    obtain ⟨new, h⟩ : ∃ new, Meets depth room hop [n] st (st.meet depth room hop n) new :=
      meets_meet hop st n
    obtain ⟨new', h'⟩ := ih (st.meet depth room hop n)
    rw [List.foldl_cons]
    refine ⟨new ++ new', ?_, ?_, ?_, ?_, ?_, ?_, ?_, ?_⟩
    · exact fun y j hy => h'.kept y j (h.kept y j hy)
    · intro y j hy
      rcases h'.found y j hy with hmid | ⟨hj, hdepth, hnew, m, hm, hmy⟩
      · rcases h.found y j hmid with hold | ⟨hj, hdepth, hnew, m, hm, hmy⟩
        · exact Or.inl hold
        · rw [List.mem_singleton.mp hm] at hmy
          exact Or.inr ⟨hj, hdepth, List.mem_append_left _ hnew, n, List.mem_cons_self, hmy⟩
      · exact Or.inr ⟨hj, hdepth, List.mem_append_right _ hnew, m, List.mem_cons_of_mem _ hm, hmy⟩
    · rw [h'.pending, h.pending, List.append_assoc]
    · intro y hy
      rcases List.mem_append.mp hy with hy | hy
      · exact h'.kept y _ (h.newHop y hy)
      · exact h'.newHop y hy
    · rw [h'.size, h.size, List.length_append]
      omega
    · exact fun hle => h'.room (h.room hle)
    · exact fun hcut => h'.cut (h.cut hcut)
    · intro hcut hdepth m hm
      rcases List.mem_cons.mp hm with rfl | hm
      · have hmid : (st.meet depth room hop m).beyondRoom = false := by
          by_contra hmid
          have hlate := h'.cut (by simpa using hmid)
          rw [hcut] at hlate
          cases hlate
        obtain ⟨j, hj⟩ := Option.isSome_iff_exists.mp
          (h.all hmid hdepth m (List.mem_singleton_self m))
        rw [h'.kept _ j hj]
        rfl
      · exact h'.all hcut hdepth m hm

/-! ## The whole search -/

/-- What holds of a search between two items of its queue. -/
structure Searching (neighbours : α → List (α × τ)) (depth room : ℕ) (s : α)
    (st : Search α τ) : Prop where
  start : st.hops.get? s = some 0
  sound : ∀ y k, st.hops.get? y = some k → Within neighbours s k y ∧ k ≤ depth
  queued : ∀ y ∈ st.pending, (st.hops.get? y).isSome
  ordered : st.pending.Pairwise fun x y =>
    ∀ j k, st.hops.get? x = some j → st.hops.get? y = some k → j ≤ k
  band : ∀ x ∈ st.pending, ∀ y j k, st.hops.get? x = some j → st.hops.get? y = some k → k ≤ j + 1
  room : st.hops.entries.length ≤ room
  /-- An item off the queue has its neighbours found, one link further at
  most. -/
  near : st.beyondRoom = false → ∀ x j, x ∉ st.pending → st.hops.get? x = some j → j < depth →
    ∀ y, Linked neighbours x y → ∃ k ≤ j + 1, st.hops.get? y = some k

theorem searching_start (hroom : 0 < room) (s : α) :
    Searching neighbours depth room s (Search.start s) := by
  have hget : ∀ y k, (Search.start s : Search α τ).hops.get? y = some k → y = s ∧ k = 0 := by
    intro y k h
    unfold Search.start at h
    rw [OrdMap.get?_set] at h
    split at h
    · rename_i heq
      exact ⟨heq.symm, (Option.some.inj h).symm⟩
    · cases h
  have hstart : (Search.start s : Search α τ).hops.get? s = some 0 := by
    unfold Search.start
    rw [OrdMap.get?_set, if_pos rfl]
  refine ⟨hstart, ?_, ?_, List.pairwise_singleton _ _, ?_, ?_, ?_⟩
  · intro y k h
    obtain ⟨rfl, rfl⟩ := hget y k h
    exact ⟨rfl, Nat.zero_le _⟩
  · intro y hy
    rw [List.mem_singleton.mp hy, hstart]
    rfl
  · intro x hx y j k hj hk
    have := (hget y k hk).2
    omega
  · exact hroom
  · intro _ x j hx hj
    exact absurd (hget x j hj).1 (by simpa [Search.start] using hx)

/-- **One item off the queue keeps the search going right.** -/
theorem searching_step (h : Searching neighbours depth room s st) :
    Searching neighbours depth room s (st.step neighbours depth room) := by
  unfold Search.step
  split
  · exact h
  · rename_i x rest hpending
    have hx : x ∈ st.pending := hpending ▸ List.mem_cons_self
    obtain ⟨hop, hhop⟩ := Option.isSome_iff_exists.mp (h.queued x hx)
    rw [hhop, Option.getD_some]
    have hordered := hpending ▸ h.ordered
    obtain ⟨hhead, hrest⟩ := List.pairwise_cons.mp hordered
    obtain ⟨hwithin, -⟩ := h.sound x hop hhop
    obtain ⟨new, hmeets⟩ : ∃ new, Meets depth room hop (neighbours x) { st with pending := rest }
      ((neighbours x).foldl (Search.meet depth room hop) { st with pending := rest }) new :=
      meets_foldl hop (neighbours x) { st with pending := rest }
    generalize (neighbours x).foldl (Search.meet depth room hop) { st with pending := rest } = st'
      at hmeets
    have hfound := hmeets.found
    have hkept := hmeets.kept
    simp only at hfound hkept
    -- an item found before is at most one link beyond the head
    have hband : ∀ y k, st.hops.get? y = some k → k ≤ hop + 1 := fun y k hy => h.band x hx y hop k hhop hy
    have hall : ∀ y k, st'.hops.get? y = some k → k ≤ hop + 1 := by
      intro y k hy
      rcases hfound y k hy with hold | ⟨rfl, -⟩
      · exact hband y k hold
      · exact Nat.le_refl _
    have hrestHop : ∀ y ∈ rest, ∃ k, st.hops.get? y = some k ∧ hop ≤ k := by
      intro y hy
      obtain ⟨k, hk⟩ := Option.isSome_iff_exists.mp
        (h.queued y (hpending ▸ List.mem_cons_of_mem _ hy))
      exact ⟨k, hk, hhead y hy hop k hhop hk⟩
    have hat : ∀ y k, st.hops.get? y = some k → ∀ j, st'.hops.get? y = some j → j = k := by
      intro y k hy j hj
      rw [hkept y k hy] at hj
      exact (Option.some.inj hj).symm
    refine ⟨hkept _ _ h.start, ?_, ?_, ?_, ?_, hmeets.room h.room, ?_⟩
    · intro y k hy
      rcases hfound y k hy with hold | ⟨rfl, hdepth, -, n, hn, hny⟩
      · exact h.sound y k hold
      · exact ⟨Or.inr ⟨x, hwithin, n, hn, hny⟩, hdepth⟩
    · intro y hy
      rw [hmeets.pending] at hy
      rcases List.mem_append.mp hy with hy | hy
      · obtain ⟨k, hk, -⟩ := hrestHop y hy
        rw [hkept y k hk]
        rfl
      · rw [hmeets.newHop y hy]
        rfl
    · rw [hmeets.pending, List.pairwise_append]
      refine ⟨?_, ?_, ?_⟩
      · refine hrest.imp_of_mem fun {y z} hy hz hyz j k hj hk => ?_
        obtain ⟨jy, hjy, -⟩ := hrestHop y hy
        obtain ⟨kz, hkz, -⟩ := hrestHop z hz
        rw [hat y jy hjy j hj, hat z kz hkz k hk]
        exact hyz jy kz hjy hkz
      · refine List.pairwise_of_forall_mem_list fun y hy z hz j k hj hk => ?_
        rw [hmeets.newHop y hy] at hj
        rw [hmeets.newHop z hz] at hk
        have := Option.some.inj hj
        have := Option.some.inj hk
        omega
      · intro y hy z hz j k hj hk
        rw [hmeets.newHop z hz] at hk
        have := Option.some.inj hk
        have := hall y j hj
        omega
    · intro y hy z j k hj hk
      have hk' := hall z k hk
      rw [hmeets.pending] at hy
      rcases List.mem_append.mp hy with hy | hy
      · obtain ⟨jy, hjy, hle⟩ := hrestHop y hy
        rw [hat y jy hjy j hj]
        omega
      · rw [hmeets.newHop y hy] at hj
        have := Option.some.inj hj
        omega
    · intro hcut y j hy hj hdepth z hz
      have hcut' : st.beyondRoom = false := by
        by_contra hbefore
        have hlate := hmeets.cut (by simpa using hbefore)
        rw [hcut] at hlate
        cases hlate
      by_cases hyx : y = x
      · subst hyx
        obtain rfl := hat y hop hhop j hj
        obtain ⟨n, hn, rfl⟩ := hz
        obtain ⟨k, hk⟩ := Option.isSome_iff_exists.mp (hmeets.all hcut hdepth n hn)
        exact ⟨k, hall _ k hk, hk⟩
      · have hnotNew : y ∉ new := fun hnew => hy (hmeets.pending ▸ List.mem_append_right _ hnew)
        have hnotRest : y ∉ rest := fun hrest => hy (hmeets.pending ▸ List.mem_append_left _ hrest)
        have hnotPending : y ∉ st.pending := by
          rw [hpending, List.mem_cons]
          exact not_or.mpr ⟨hyx, hnotRest⟩
        rcases hfound y j hj with hold | ⟨-, -, hnew, -⟩
        · obtain ⟨k, hk, hzk⟩ := h.near hcut' y j hnotPending hold hdepth z hz
          exact ⟨k, hk, hkept z k hzk⟩
        · exact absurd hnew hnotNew

theorem searching_run (n : ℕ) (h : Searching neighbours depth room s st) :
    Searching neighbours depth room s (st.run neighbours depth room n) := by
  induction n generalizing st with
  | zero => exact h
  | succ n ih => exact ih (searching_step h)

/-- What is left to do: the queue, and what there is still room for. -/
def Search.left (room : ℕ) (st : Search α τ) : ℕ :=
  room - st.hops.entries.length + st.pending.length

theorem left_step (h : Searching neighbours depth room s st) (hpending : st.pending ≠ []) :
    (st.step neighbours depth room).left room + 1 = st.left room := by
  unfold Search.step
  split
  · rename_i hnil
    exact absurd hnil hpending
  · rename_i x rest hcons
    generalize hhop : (st.hops.get? x).getD 0 = hop
    obtain ⟨new, hmeets⟩ : ∃ new, Meets depth room hop (neighbours x) { st with pending := rest }
      ((neighbours x).foldl (Search.meet depth room hop) { st with pending := rest }) new :=
      meets_foldl hop (neighbours x) { st with pending := rest }
    have hsize := hmeets.size
    have hroom := hmeets.room h.room
    have hbefore := h.room
    have hpendings := congrArg List.length hmeets.pending
    simp only [List.length_append] at hsize hpendings
    have hlength := congrArg List.length hcons
    rw [List.length_cons] at hlength
    unfold Search.left
    omega

theorem run_of_done (n : ℕ) (h : st.pending = []) :
    st.run neighbours depth room n = st := by
  induction n with
  | zero => rfl
  | succ n ih =>
    have hstep : st.step neighbours depth room = st := by
      unfold Search.step
      rw [h]
    unfold Search.run
    rw [hstep, ih]

/-- Enough steps empty the queue. -/
theorem pending_run (n : ℕ) (h : Searching neighbours depth room s st) (hn : st.left room ≤ n) :
    (st.run neighbours depth room n).pending = [] := by
  induction n generalizing st with
  | zero =>
    unfold Search.left at hn
    have hnil : st.pending = [] := List.length_eq_zero_iff.mp (by omega)
    exact hnil
  | succ n ih =>
    by_cases hpending : st.pending = []
    · rw [run_of_done _ hpending]
      exact hpending
    · have hleft := left_step h hpending
      exact ih (searching_step h) (by omega)

/-- While everything on the queue is at a bound or beyond, everything within
the bound has been found. -/
theorem found_within (h : Searching neighbours depth room s st) (hcut : st.beyondRoom = false)
    {bound : ℕ} (hbound : bound ≤ depth)
    (hqueue : ∀ x ∈ st.pending, ∀ j, st.hops.get? x = some j → bound ≤ j) {k : ℕ} (hk : k ≤ bound)
    {y : α} (hy : Within neighbours s k y) : ∃ j ≤ k, st.hops.get? y = some j := by
  induction k generalizing y with
  | zero =>
    obtain rfl := hy
    exact ⟨0, Nat.le_refl 0, h.start⟩
  | succ k ih =>
    rcases hy with hy | ⟨x, hx, hxy⟩
    · obtain ⟨j, hj, hget⟩ := ih (by omega) hy
      exact ⟨j, by omega, hget⟩
    · obtain ⟨j, hj, hget⟩ := ih (by omega) hx
      have hoff : x ∉ st.pending := by
        intro hmem
        have := hqueue x hmem j hget
        omega
      obtain ⟨i, hi, hget'⟩ := h.near hcut x j hoff hget (by omega) y hxy
      exact ⟨i, by omega, hget'⟩

theorem searching_search (hroom : 0 < room) (s : α) :
    Searching neighbours depth room s (search neighbours depth room s) :=
  searching_run room (searching_start hroom s)

/-- The search ends with its queue empty. -/
theorem pending_search (hroom : 0 < room) (s : α) :
    (search neighbours depth room s).pending = [] := by
  have hstart : Searching neighbours depth room s (Search.start s) := searching_start hroom s
  refine pending_run room hstart ?_
  unfold Search.left
  have hone : (Search.start s : Search α τ).hops.entries.length = 1 := rfl
  have hqueue : (Search.start s : Search α τ).pending.length = 1 := rfl
  omega

/-- **A search its room did not cut finds each item within the depth, at its
distance.** -/
theorem get?_search (hroom : 0 < room) (hcut : (search neighbours depth room s).beyondRoom = false)
    {y : α} {k : ℕ} :
    (search neighbours depth room s).hops.get? y = some k ↔
      k ≤ depth ∧ AtDistance neighbours s k y := by
  have hsearch : Searching neighbours depth room s (search neighbours depth room s) :=
    searching_search hroom s
  have hfound : ∀ k ≤ depth, ∀ y, Within neighbours s k y →
      ∃ j ≤ k, (search neighbours depth room s).hops.get? y = some j := by
    intro k hk y hy
    refine found_within hsearch hcut (Nat.le_refl depth) (fun x hx => ?_) hk hy
    rw [pending_search hroom s] at hx
    cases hx
  constructor
  · intro hget
    obtain ⟨hwithin, hdepth⟩ := hsearch.sound y k hget
    refine ⟨hdepth, hwithin, fun j hj hnear => ?_⟩
    obtain ⟨i, hi, hget'⟩ := hfound j (by omega) y hnear
    rw [hget] at hget'
    have := Option.some.inj hget'
    omega
  · rintro ⟨hdepth, hwithin, hfirst⟩
    obtain ⟨j, hj, hget⟩ := hfound k hdepth y hwithin
    have hnear := (hsearch.sound y j hget).1
    have hjk : j = k := by
      by_contra hne
      exact hfirst j (by omega) hnear
    rw [← hjk]
    exact hget

theorem length_search (hroom : 0 < room) :
    (search neighbours depth room s).hops.entries.length ≤ room :=
  (searching_run room (searching_start hroom s)).room

/-! ## What the depth turns away -/

/-- Short of the depth, meeting neighbours turns none away for it. -/
theorem beyondDepth_foldl_of_near {hop : ℕ} (hnear : ¬depth < hop + 1) (ns : List (α × τ))
    (st : Search α τ) :
    (ns.foldl (Search.meet depth room hop) st).beyondDepth = st.beyondDepth := by
  induction ns generalizing st with
  | nil => rfl
  | cons n ns ih =>
    rw [List.foldl_cons, ih]
    unfold Search.meet
    rw [if_neg hnear]
    split
    · rfl
    · split
      · rfl
      · rfl

/-- At the depth, only the new neighbours leave a trace. -/
theorem foldl_meet_of_far {hop : ℕ} (hfar : depth < hop + 1) (ns : List (α × τ))
    (st : Search α τ) :
    ns.foldl (Search.meet depth room hop) st =
      { st with beyondDepth := st.beyondDepth || ns.any fun n => (st.hops.get? n.1).isNone } := by
  induction ns generalizing st with
  | nil => simp
  | cons n ns ih =>
    rw [List.foldl_cons, ih, List.any_cons]
    unfold Search.meet
    cases hget : st.hops.get? n.1 with
    | some k => simp
    | none => simp [hfar]

/-- What the depth has turned away lies one link beyond it, and whatever is
new there to an item off the queue has been turned away. -/
structure Turned (neighbours : α → List (α × τ)) (depth : ℕ) (s : α) (st : Search α τ) : Prop where
  sound : st.beyondRoom = false → st.beyondDepth = true →
    ∃ y, AtDistance neighbours s (depth + 1) y
  all : ∀ x, x ∉ st.pending → st.hops.get? x = some depth → ∀ y, Linked neighbours x y →
    st.hops.get? y = none → st.beyondDepth = true

theorem turned_start (s : α) : Turned neighbours depth s (Search.start s) := by
  refine ⟨fun _ h => absurd h Bool.false_ne_true, fun x hx hget => ?_⟩
  unfold Search.start at hx hget
  rw [OrdMap.get?_set] at hget
  split at hget
  · rename_i heq
    exact absurd (List.mem_singleton.mpr heq.symm) hx
  · cases hget

theorem turned_step (h : Searching neighbours depth room s st) (hturned : Turned neighbours depth s st) :
    Turned neighbours depth s (st.step neighbours depth room) := by
  unfold Search.step
  split
  · exact hturned
  · rename_i x rest hpending
    have hx : x ∈ st.pending := hpending ▸ List.mem_cons_self
    obtain ⟨hop, hhop⟩ := Option.isSome_iff_exists.mp (h.queued x hx)
    rw [hhop, Option.getD_some]
    obtain ⟨new, hmeets⟩ : ∃ new, Meets depth room hop (neighbours x) { st with pending := rest }
      ((neighbours x).foldl (Search.meet depth room hop) { st with pending := rest }) new :=
      meets_foldl hop (neighbours x) { st with pending := rest }
    obtain ⟨hwithin, hdepth⟩ := h.sound x hop hhop
    by_cases hfar : depth < hop + 1
    · -- the head of the queue is at the depth, and so is the rest of it
      obtain rfl : hop = depth := by omega
      rw [foldl_meet_of_far hfar] at hmeets ⊢
      refine ⟨fun hcut hbeyond => ?_, fun z hz hget y hy hnone => ?_⟩
      · rcases Bool.or_eq_true_iff.mp hbeyond with hbefore | hnow
        · exact hturned.sound hcut hbefore
        · obtain ⟨n, hn, hnone⟩ := List.any_eq_true.mp hnow
          have hqueue : ∀ z ∈ st.pending, ∀ j, st.hops.get? z = some j → hop ≤ j := by
            intro z hz j hj
            have hordered := hpending ▸ h.ordered
            rw [hpending] at hz
            rcases List.mem_cons.mp hz with rfl | hz
            · rw [hhop] at hj
              exact Nat.le_of_eq (Option.some.inj hj)
            · exact (List.pairwise_cons.mp hordered).1 z hz hop j hhop hj
          refine ⟨n.1, Or.inr ⟨x, hwithin, n, hn, rfl⟩, fun j hj hnear => ?_⟩
          obtain ⟨i, -, hi⟩ := found_within h hcut (Nat.le_refl hop) hqueue (by omega) hnear
          rw [hi] at hnone
          cases hnone
      · by_cases hzx : z = x
        · obtain ⟨n, hn, rfl⟩ := hzx ▸ hy
          refine Bool.or_eq_true_iff.mpr (Or.inr (List.any_eq_true.mpr ⟨n, hn, ?_⟩))
          rw [Option.isNone_iff_eq_none]
          exact hnone
        · have hoff : z ∉ st.pending := by
            rw [hpending]
            exact fun hmem => hz ((List.mem_cons.mp hmem).resolve_left hzx)
          exact Bool.or_eq_true_iff.mpr (Or.inl (hturned.all z hoff hget y hy hnone))
    · -- the head is nearer, so nothing of it lies beyond the depth
      have hbeyond := @beyondDepth_foldl_of_near _ _ _ _ room _ hfar (neighbours x)
        ({ st with pending := rest } : Search α τ)
      refine ⟨fun hcut hlate => ?_, fun z hz hget y hy hnone => ?_⟩
      · have hcut' : st.beyondRoom = false := by
          by_contra hbefore
          have hlate := hmeets.cut (by simpa using hbefore)
          rw [hcut] at hlate
          cases hlate
        exact hturned.sound hcut' (hbeyond.symm.trans hlate)
      · have hold : st.hops.get? y = none := by
          cases hy' : st.hops.get? y with
          | none => rfl
          | some k =>
            rw [hmeets.kept y k hy'] at hnone
            cases hnone
        rcases hmeets.found z depth hget with hgetOld | ⟨-, -, hnew, -⟩
        · have hzx : z ≠ x := by
            rintro rfl
            have := Option.some.inj (hhop.symm.trans hgetOld)
            omega
          have hoff : z ∉ st.pending := by
            rw [hpending]
            intro hmem
            exact hz (hmeets.pending ▸
              List.mem_append_left _ ((List.mem_cons.mp hmem).resolve_left hzx))
          exact hbeyond.trans (hturned.all z hoff hgetOld y hy hold)
        · exact absurd (hmeets.pending ▸ List.mem_append_right _ hnew) hz

theorem turned_run (n : ℕ) (h : Searching neighbours depth room s st)
    (hturned : Turned neighbours depth s st) :
    Turned neighbours depth s (st.run neighbours depth room n) := by
  induction n generalizing st with
  | zero => exact hturned
  | succ n ih => exact ih (searching_step h) (turned_step h hturned)

/-- **A search its room did not cut says that the depth turned something away
exactly when something lies one link beyond it.** -/
theorem beyondDepth_search (hroom : 0 < room)
    (hcut : (search neighbours depth room s).beyondRoom = false) :
    (search neighbours depth room s).beyondDepth = true ↔
      ∃ y, AtDistance neighbours s (depth + 1) y := by
  have hturned : Turned neighbours depth s (search neighbours depth room s) :=
    turned_run room (searching_start hroom s) (turned_start s)
  refine ⟨hturned.sound hcut, ?_⟩
  rintro ⟨y, hwithin, hfirst⟩
  rcases hwithin with hnear | ⟨x, hx, hxy⟩
  · exact absurd hnear (hfirst depth (Nat.lt_succ_self depth))
  · have hat : AtDistance neighbours s depth x :=
      ⟨hx, fun j hj hxj => hfirst (j + 1) (by omega) (Or.inr ⟨x, hxj, hxy⟩)⟩
    have hget := (get?_search hroom hcut).mpr ⟨Nat.le_refl depth, hat⟩
    refine hturned.all x ?_ hget y hxy ?_
    · rw [pending_search hroom s]
      exact List.not_mem_nil
    · cases hy : (search neighbours depth room s).hops.get? y with
      | none => rfl
      | some k =>
        obtain ⟨hk, hat⟩ := (get?_search hroom hcut).mp hy
        exact absurd hat.1 (hfirst k (by omega))

/-! ## The links taken -/

/-- Every item found, the start apart, hangs by a link taken on one found a
link nearer, and there is no link taken but these. -/
structure Treed (neighbours : α → List (α × τ)) (s : α) (st : Search α τ) : Prop where
  parent : ∀ y k, st.hops.get? y = some k → y = s ∧ k = 0 ∨
    ∃ x j t, k = j + 1 ∧ st.hops.get? x = some j ∧ (y, t) ∈ neighbours x ∧ t ∈ st.tree
  links : ∀ t ∈ st.tree, ∃ x j y, st.hops.get? x = some j ∧ st.hops.get? y = some (j + 1) ∧
    (y, t) ∈ neighbours x

theorem treed_start (s : α) : Treed neighbours s (Search.start s) := by
  refine ⟨fun y k h => Or.inl ?_, fun t ht => absurd ht List.not_mem_nil⟩
  unfold Search.start at h
  rw [OrdMap.get?_set] at h
  split at h
  · rename_i heq
    exact ⟨heq.symm, (Option.some.inj h).symm⟩
  · cases h

theorem treed_meet {x : α} {hop : ℕ} {n : α × τ} (h : Treed neighbours s st)
    (hx : st.hops.get? x = some hop) (hn : n ∈ neighbours x) :
    Treed neighbours s (st.meet depth room hop n) := by
  unfold Search.meet
  split
  · exact h
  · rename_i hnew
    split
    · exact ⟨h.parent, h.links⟩
    · split
      · exact ⟨h.parent, h.links⟩
      · have hnone : st.hops.get? n.1 = none := by simpa using hnew
        have hkept : ∀ y k, st.hops.get? y = some k →
            (st.hops.set n.1 (hop + 1)).get? y = some k := by
          intro y k hy
          have hne : n.1 ≠ y := fun heq => by rw [heq, hy] at hnone; cases hnone
          rw [OrdMap.get?_set, if_neg hne]
          exact hy
        have hfound : (st.hops.set n.1 (hop + 1)).get? n.1 = some (hop + 1) := by
          rw [OrdMap.get?_set, if_pos rfl]
        refine ⟨fun y k hy => ?_, fun t ht => ?_⟩
        · simp only at hy ⊢
          rw [OrdMap.get?_set] at hy
          split at hy
          · rename_i heq
            obtain rfl := Option.some.inj hy
            refine Or.inr ⟨x, hop, n.2, rfl, hkept x hop hx, heq ▸ hn, ?_⟩
            exact List.mem_append_right _ (List.mem_singleton_self _)
          · rcases h.parent y k hy with hstart | ⟨x', j, t, hk, hx', hmem, ht⟩
            · exact Or.inl hstart
            · exact Or.inr ⟨x', j, t, hk, hkept x' j hx', hmem, List.mem_append_left _ ht⟩
        · rcases List.mem_append.mp ht with ht | ht
          · obtain ⟨x', j, y, hx', hy, hmem⟩ := h.links t ht
            exact ⟨x', j, y, hkept x' j hx', hkept y _ hy, hmem⟩
          · rw [List.mem_singleton.mp ht]
            exact ⟨x, hop, n.1, hkept x hop hx, hfound, hn⟩

theorem treed_foldl {x : α} {hop : ℕ} (ns : List (α × τ)) (h : Treed neighbours s st)
    (hx : st.hops.get? x = some hop) (hns : ∀ n ∈ ns, n ∈ neighbours x) :
    Treed neighbours s (ns.foldl (Search.meet depth room hop) st) := by
  induction ns generalizing st with
  | nil => exact h
  | cons n ns ih =>
    have hn := hns n List.mem_cons_self
    obtain ⟨new, hmeets⟩ : ∃ new, Meets depth room hop [n] st (st.meet depth room hop n) new :=
      meets_meet hop st n
    exact ih (treed_meet h hx hn) (hmeets.kept x hop hx)
      fun m hm => hns m (List.mem_cons_of_mem _ hm)

theorem treed_run (n : ℕ) (hsearch : Searching neighbours depth room s st)
    (h : Treed neighbours s st) : Treed neighbours s (st.run neighbours depth room n) := by
  induction n generalizing st with
  | zero => exact h
  | succ n ih =>
    refine ih (searching_step hsearch) ?_
    unfold Search.step
    split
    · exact h
    · rename_i x rest hpending
      obtain ⟨hop, hhop⟩ := Option.isSome_iff_exists.mp
        (hsearch.queued x (hpending ▸ List.mem_cons_self))
      rw [hhop, Option.getD_some]
      have hpopped : Treed neighbours s { st with pending := rest } := ⟨h.parent, h.links⟩
      exact treed_foldl _ hpopped hhop fun n hn => hn

/-- **The links a search takes make a tree on what it finds.** -/
theorem treed_search (hroom : 0 < room) : Treed neighbours s (search neighbours depth room s) :=
  treed_run room (searching_start hroom s) (treed_start s)

/-! ## A search with room for all there is -/

/-- What is found is of a known list, and nothing has been turned away. -/
def Housed (known : List α) (st : Search α τ) : Prop :=
  (∀ y k, st.hops.get? y = some k → y ∈ known) ∧ st.beyondRoom = false

theorem length_lt_of_new {known : List α} {m : OrdMap α ℕ} {y : α} (hy : y ∈ known)
    (hnone : m.get? y = none) (hknown : ∀ x k, m.get? x = some k → x ∈ known) :
    m.entries.length < known.length := by
  have hkeys : y ∉ m.entries.map Prod.fst := by
    intro hmem
    obtain ⟨b, hb, hkey⟩ := List.mem_map.mp hmem
    have hget : m.get? b.1 = some b.2 := OrdMap.mem_entries_iff.mp hb
    rw [hkey, hnone] at hget
    cases hget
  have hsubset : y :: m.entries.map Prod.fst ⊆ known := by
    intro x hx
    rcases List.mem_cons.mp hx with rfl | hx
    · exact hy
    · obtain ⟨b, hb, rfl⟩ := List.mem_map.mp hx
      exact hknown b.1 b.2 (OrdMap.mem_entries_iff.mp hb)
  have hle := (List.subperm_of_subset (List.nodup_cons.mpr ⟨hkeys, m.nodup⟩) hsubset).length_le
  rw [List.length_cons, List.length_map] at hle
  omega

theorem housed_foldl {known : List α} (hlength : known.length ≤ room) {hop : ℕ}
    (ns : List (α × τ)) (hns : ∀ n ∈ ns, n.1 ∈ known) (h : Housed known st) :
    Housed known (ns.foldl (Search.meet depth room hop) st) := by
  induction ns generalizing st with
  | nil => exact h
  | cons n ns ih =>
    refine ih (fun m hm => hns m (List.mem_cons_of_mem _ hm)) ?_
    obtain ⟨hknown, hcut⟩ := h
    unfold Search.meet
    split
    · exact ⟨hknown, hcut⟩
    · rename_i hnew
      split
      · exact ⟨hknown, hcut⟩
      · have hn := hns n List.mem_cons_self
        have hnone : st.hops.get? n.1 = none := by simpa using hnew
        have hlt := length_lt_of_new hn hnone hknown
        rw [if_neg (by omega)]
        refine ⟨fun y k hy => ?_, hcut⟩
        rw [OrdMap.get?_set] at hy
        split at hy
        · rename_i heq
          exact heq ▸ hn
        · exact hknown y k hy

/-- **A search whose room holds everything reachable turns nothing away.** -/
theorem housed_search {known : List α} (hroom : 0 < room) (hlength : known.length ≤ room)
    (hs : s ∈ known) (hknown : ∀ x ∈ known, ∀ n ∈ neighbours x, n.1 ∈ known) :
    Housed known (search neighbours depth room s) := by
  have hrun : ∀ n (st : Search α τ), Searching neighbours depth room s st → Housed known st →
      Housed known (st.run neighbours depth room n) := by
    intro n
    induction n with
    | zero => exact fun st _ h => h
    | succ n ih =>
      intro st hsearch h
      refine ih _ (searching_step hsearch) ?_
      unfold Search.step
      split
      · exact h
      · rename_i x rest hpending
        obtain ⟨hop, hhop⟩ := Option.isSome_iff_exists.mp
          (hsearch.queued x (hpending ▸ List.mem_cons_self))
        exact housed_foldl hlength _ (hknown x (h.1 x hop hhop)) h
  refine hrun room _ (searching_start hroom s) ⟨fun y k hy => ?_, rfl⟩
  have hstart : Treed neighbours s (Search.start s) := treed_start s
  rcases hstart.parent y k hy with ⟨rfl, -⟩ | ⟨_, _, _, _, _, _, ht⟩
  · exact hs
  · exact absurd ht List.not_mem_nil

end Search

end SymphonyBoard
