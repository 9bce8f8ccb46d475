import Mathlib.Algebra.GroupWithZero.Nat
import Mathlib.Algebra.BigOperators.Group.List.Basic
import Mathlib.Algebra.Order.BigOperators.Group.List
import SymphonyBoard.Common.Keyed
/-!
# Tallies

A map from keys to counts, filled by adding at one key after the other. A
count is what was added at its key (`count_tally`), the counts sum to all
that was added (`sum_addAt`), and counting by any key that covers the rows
gives every row once (`sum_countP`). Two maps with the same bindings have
the same entries up to order (`entries_perm`).
-/

namespace SymphonyBoard

/-- A number that each row adds to is what it was and all that is added. -/
theorem of_foldl {σ α : Type*} {f : σ → α → σ} {g : σ → ℕ} {w : α → ℕ}
    (h : ∀ s x, g (f s x) = g s + w x) {l : List α} {s : σ} :
    g (l.foldl f s) = g s + (l.map w).sum := by
  induction l generalizing s with
  | nil => rfl
  | cons x l ih =>
    rw [List.foldl_cons, ih, h, List.map_cons, List.sum_cons]
    omega

/-- A reading that no row changes. -/
theorem of_foldl_same {σ α β : Type*} {f : σ → α → σ} {g : σ → β} (h : ∀ s x, g (f s x) = g s)
    {l : List α} {s : σ} : g (l.foldl f s) = g s := by
  induction l generalizing s with
  | nil => rfl
  | cons x l ih => rw [List.foldl_cons, ih, h]

variable {α K V : Type*} [DecidableEq K]

namespace OrdMap

/-- `m.set(k, (m.get(k) ?? 0) + n)`. -/
def addAt (m : OrdMap K ℕ) (k : K) (n : ℕ) : OrdMap K ℕ := m.upsert k fun v => v.getD 0 + n

/-- The count at a key, 0 where there is none. -/
def count (m : OrdMap K ℕ) (k : K) : ℕ := (m.get? k).getD 0

/-- All that was counted. -/
def sum (m : OrdMap K ℕ) : ℕ := m.values.sum

/-- The rows of a list, counted by a key. -/
def tally (key : α → K) (l : List α) : OrdMap K ℕ :=
  l.foldl (fun m x => m.addAt (key x) 1) empty

@[simp] theorem count_empty (k : K) : (empty : OrdMap K ℕ).count k = 0 := rfl

omit [DecidableEq K] in
@[simp] theorem sum_empty : (empty : OrdMap K ℕ).sum = 0 := rfl

theorem get?_addAt (m : OrdMap K ℕ) (k k' : K) (n : ℕ) :
    (m.addAt k n).get? k' = if k = k' then some (m.count k + n) else m.get? k' := by
  rw [addAt, get?_upsert]
  rfl

theorem count_addAt (m : OrdMap K ℕ) (k k' : K) (n : ℕ) :
    (m.addAt k n).count k' = m.count k' + if k = k' then n else 0 := by
  unfold count
  rw [get?_addAt]
  by_cases h : k = k'
  · subst h
    simp [count]
  · simp [h]

theorem sum_upsertEntry (k : K) (n : ℕ) (l : List (K × ℕ)) :
    ((upsertEntry k (fun v => v.getD 0 + n) l).map Prod.snd).sum = (l.map Prod.snd).sum + n := by
  induction l with
  | nil => simp [upsertEntry]
  | cons b l ih =>
    obtain ⟨kb, vb⟩ := b
    by_cases hk : kb = k
    · simp [upsertEntry, hk]
      omega
    · simp only [upsertEntry, hk, if_false, List.map_cons, List.sum_cons, ih]
      omega

/-- **What is added at a key is added to the sum.** -/
theorem sum_addAt (m : OrdMap K ℕ) (k : K) (n : ℕ) : (m.addAt k n).sum = m.sum + n :=
  sum_upsertEntry k n m.entries

/-- Adding row by row, read at one key. -/
theorem count_foldl_addAt (key : α → K) (weight : α → ℕ) (l : List α) (m : OrdMap K ℕ) (k : K) :
    (l.foldl (fun m x => m.addAt (key x) (weight x)) m).count k =
      m.count k + ((l.filter fun x => key x = k).map weight).sum := by
  induction l generalizing m with
  | nil => simp
  | cons x l ih =>
    rw [List.foldl_cons, ih, count_addAt]
    by_cases hk : key x = k
    · simp [hk]
      omega
    · simp [hk]

theorem sum_foldl_addAt (key : α → K) (weight : α → ℕ) (l : List α) (m : OrdMap K ℕ) :
    (l.foldl (fun m x => m.addAt (key x) (weight x)) m).sum = m.sum + (l.map weight).sum := by
  induction l generalizing m with
  | nil => simp
  | cons x l ih =>
    rw [List.foldl_cons, ih, sum_addAt, List.map_cons, List.sum_cons]
    omega

/-- A key is bound once something was added at it. -/
theorem get?_foldl_addAt (key : α → K) (weight : α → ℕ) (l : List α) (k : K) :
    (l.foldl (fun m x => m.addAt (key x) (weight x)) empty).get? k =
      if k ∈ l.map key then some ((l.filter fun x => key x = k).map weight).sum else none := by
  have hcount := count_foldl_addAt key weight l empty k
  have hfold := get?_foldl_upsert key (fun x (v : Option ℕ) => v.getD 0 + weight x) l empty k
  rw [get?_empty] at hfold
  change (l.foldl (fun m x => m.addAt (key x) (weight x)) empty).get? k = _ at hfold
  unfold count at hcount
  rw [get?_empty, Option.getD_none, Nat.zero_add] at hcount
  split
  · next hmem =>
    obtain ⟨x, hx, hkx⟩ := List.mem_map.mp hmem
    have hne : (l.filter fun x => key x = k) ≠ [] :=
      List.ne_nil_of_mem (List.mem_filter.mpr ⟨hx, by simpa using hkx⟩)
    cases hget : (l.foldl (fun m x => m.addAt (key x) (weight x)) empty).get? k with
    | some v =>
      rw [hget, Option.getD_some] at hcount
      rw [hcount]
    | none =>
      exfalso
      rw [hget] at hfold
      generalize l.filter (fun x => decide (key x = k)) = rows at hfold hne
      induction rows using List.reverseRecOn with
      | nil => exact hne rfl
      | append_singleton rows y _ =>
        rw [List.foldl_append] at hfold
        cases hfold
  · next hmem =>
    have hnil : (l.filter fun x => key x = k) = [] := by
      rw [List.filter_eq_nil_iff]
      intro x hx hkx
      exact hmem (List.mem_map.mpr ⟨x, hx, by simpa using hkx⟩)
    rw [hfold, hnil]
    rfl

theorem count_tally (key : α → K) (l : List α) (k : K) :
    (tally key l).count k = l.countP fun x => key x = k := by
  unfold tally
  rw [count_foldl_addAt key (fun _ => 1), count_empty, Nat.zero_add,
    List.countP_eq_length_filter]
  simp

theorem sum_tally (key : α → K) (l : List α) : (tally key l).sum = l.length := by
  unfold tally
  rw [sum_foldl_addAt key (fun _ => 1), sum_empty, Nat.zero_add]
  simp

omit [DecidableEq K] in
theorem nodup_entries (m : OrdMap K V) : m.entries.Nodup := List.Nodup.of_map _ m.nodup

/-- **Maps with the same bindings** differ in the order of their entries only. -/
theorem entries_perm {m m' : OrdMap K V} (h : ∀ k, m.get? k = m'.get? k) :
    m.entries.Perm m'.entries := by
  rw [List.perm_ext_iff_of_nodup m.nodup_entries m'.nodup_entries]
  rintro ⟨k, v⟩
  rw [mem_entries_iff, mem_entries_iff, h]

end OrdMap

/-! ## Counting by a key that covers the rows -/

theorem sum_indicator (k : K) (keys : List K) :
    (keys.map fun k' => if k = k' then 1 else 0).sum = keys.count k := by
  induction keys with
  | nil => rfl
  | cons k' keys ih =>
    rw [List.map_cons, List.sum_cons, ih, List.count_cons]
    by_cases hk : k = k'
    · subst hk
      simp
      omega
    · have hk' : ¬k' = k := fun hc => hk hc.symm
      simp [hk, hk']

/-- **Every row is counted once** by keys that are distinct and cover the
rows. -/
theorem sum_countP {key : α → K} {l : List α} {keys : List K} (hnodup : keys.Nodup)
    (hcovers : ∀ x ∈ l, key x ∈ keys) :
    (keys.map fun k => l.countP fun x => key x = k).sum = l.length := by
  induction l with
  | nil => simp
  | cons x l ih =>
    have hone : (keys.map fun k => if key x = k then 1 else 0).sum = 1 := by
      rw [sum_indicator]
      exact List.count_eq_one_of_mem hnodup (hcovers x List.mem_cons_self)
    have hsplit : (keys.map fun k => (x :: l).countP fun y => key y = k).sum =
        (keys.map fun k => l.countP fun y => key y = k).sum +
          (keys.map fun k => if key x = k then 1 else 0).sum := by
      rw [← List.sum_map_add]
      congr 1
      refine List.map_congr_left fun k _ => ?_
      rw [List.countP_cons]
      simp
    rw [hsplit, hone, ih fun y hy => hcovers y (List.mem_cons_of_mem _ hy), List.length_cons]

/-- A row added at a position of a list of counts. -/
theorem sum_map_modify {f : α → ℕ} {g : α → α} {n : ℕ} {l : List α}
    (hg : ∀ a ∈ l, f (g a) = f a + n) {i : ℕ} (hi : i < l.length) :
    ((l.modify i g).map f).sum = (l.map f).sum + n := by
  induction l generalizing i with
  | nil => cases hi
  | cons a l ih =>
    cases i with
    | zero =>
      simp only [List.modify_zero_cons, List.map_cons, List.sum_cons, hg a List.mem_cons_self]
      omega
    | succ i =>
      simp only [List.modify_succ_cons, List.map_cons, List.sum_cons,
        ih (fun b hb => hg b (List.mem_cons_of_mem _ hb)) (Nat.lt_of_succ_lt_succ hi)]
      omega

/-- What a change at a position keeps. -/
theorem map_modify_of_eq {β : Type*} {f : α → β} {g : α → α} (hg : ∀ a, f (g a) = f a)
    (l : List α) (i : ℕ) : (l.modify i g).map f = l.map f := by
  induction l generalizing i with
  | nil => simp
  | cons a l ih =>
    cases i with
    | zero => simp [hg]
    | succ i => simp [ih]

end SymphonyBoard
