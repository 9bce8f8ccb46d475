import Mathlib.Algebra.BigOperators.Group.List.Basic
import Mathlib.Algebra.Order.BigOperators.Group.List
import Mathlib.Algebra.Order.Floor.Ring
import Mathlib.Algebra.Order.Group.Unbundled.Basic
import Mathlib.Order.Interval.Set.Basic
import Mathlib.Tactic.FieldSimp
import Mathlib.Tactic.Linarith
/-!
# A column of boxes and a window on it

Boxes stand one under the other: each begins where the one before ends.
A box takes up `[top, top + height)`, and a window shows it when the two
meet. `advance` is a loop that moves an index on while a test holds; over
a column it finds the first box that reaches below the window's top, and
the first that begins at its bottom or under it. Where all boxes have one
height and one gap, the two are found by division.
-/

namespace SymphonyBoard

/-! ## Moving an index on -/

/-- The index after at most `n` moves on from `i`, each made while the
test holds. -/
def advance (p : ℕ → Bool) : ℕ → ℕ → ℕ
  | 0, i => i
  | n + 1, i => if p i then advance p n (i + 1) else i

variable {p : ℕ → Bool} {n i j : ℕ}

theorem le_advance : i ≤ advance p n i := by
  induction n generalizing i with
  | zero => exact Nat.le_refl i
  | succ n ih =>
    unfold advance
    split
    · have hnext : i + 1 ≤ advance p n (i + 1) := ih
      omega
    · exact Nat.le_refl i

theorem advance_le : advance p n i ≤ i + n := by
  induction n generalizing i with
  | zero => exact Nat.le_refl i
  | succ n ih =>
    unfold advance
    split
    · have hnext : advance p n (i + 1) ≤ i + 1 + n := ih
      omega
    · omega

/-- The test held of every index passed. -/
theorem holds_of_lt_advance (hij : i ≤ j) (hj : j < advance p n i) : p j = true := by
  induction n generalizing i with
  | zero =>
    unfold advance at hj
    omega
  | succ n ih =>
    unfold advance at hj
    split at hj
    · rename_i hi
      rcases Nat.eq_or_lt_of_le hij with rfl | hlt
      · exact hi
      · exact ih hlt hj
    · omega

/-- It fails where the index stops before the moves run out. -/
theorem fails_at_advance (h : advance p n i < i + n) : p (advance p n i) = false := by
  induction n generalizing i with
  | zero =>
    unfold advance at h
    omega
  | succ n ih =>
    unfold advance at h ⊢
    split at h
    · rename_i hi
      rw [if_pos hi]
      exact ih (by omega)
    · rename_i hi
      rw [if_neg hi]
      exact Bool.eq_false_iff.mpr hi

/-! ## Columns -/

section Column

variable {ι α : Type*} [AddCommGroup α]

/-- The boxes stand one under the other, the first one at `y`. -/
def Stacked (top height : ι → α) : α → List ι → Prop
  | _, [] => True
  | y, b :: bs => top b = y ∧ Stacked top height (y + height b) bs

variable {top height : ι → α} {y : α} {bs : List ι}

/-- **Tops are prefix sums.** -/
theorem Stacked.top_eq (h : Stacked top height y bs) (hi : i < bs.length) :
    top bs[i] = y + ((bs.map height).take i).sum := by
  induction bs generalizing y i with
  | nil => exact absurd hi (Nat.not_lt_zero i)
  | cons b bs ih =>
    obtain ⟨htop, hrest⟩ := h
    cases i with
    | zero => simpa using htop
    | succ i =>
      have hnext := ih hrest (Nat.lt_of_succ_lt_succ hi)
      simp only [List.getElem_cons_succ, List.map_cons, List.take_succ_cons, List.sum_cons]
      rw [hnext, add_assoc]

variable [LinearOrder α] [IsOrderedAddMonoid α]

theorem Stacked.le_top (h : Stacked top height y bs) (hpos : ∀ b ∈ bs, 0 ≤ height b)
    (hi : i < bs.length) : y ≤ top bs[i] := by
  rw [h.top_eq hi]
  have hsum : 0 ≤ ((bs.map height).take i).sum := by
    refine List.sum_nonneg fun x hx => ?_
    obtain ⟨b, hb, rfl⟩ := List.mem_map.mp (List.mem_of_mem_take hx)
    exact hpos b hb
  exact le_add_of_nonneg_right hsum

/-- Lower in the list is lower in the column. -/
theorem Stacked.top_mono (h : Stacked top height y bs) (hpos : ∀ b ∈ bs, 0 ≤ height b)
    (hij : i ≤ j) (hj : j < bs.length) : top bs[i] ≤ top bs[j] := by
  induction bs generalizing y i j with
  | nil => exact absurd hj (Nat.not_lt_zero j)
  | cons b bs ih =>
    have hpos' : ∀ b' ∈ bs, 0 ≤ height b' := fun b' hb' => hpos b' (List.mem_cons_of_mem b hb')
    cases i with
    | zero =>
      have hle := h.le_top hpos hj
      simpa [h.1] using hle
    | succ i =>
      obtain ⟨k, rfl⟩ : ∃ k, j = k + 1 := ⟨j - 1, by omega⟩
      simpa using ih h.2 hpos' (by omega) (Nat.lt_of_succ_lt_succ hj)

end Column

/-! ## Windows -/

/-- A box and a window meet. -/
def Overlaps {α : Type*} [Preorder α] (box window : Set α) : Prop := (box ∩ window).Nonempty

theorem Overlaps.lt {α : Type*} [Preorder α] {a b c d : α} (h : Overlaps (Set.Ico a b) (Set.Ico c d)) :
    a < d ∧ c < b ∧ a < b := by
  obtain ⟨x, ⟨hax, hxb⟩, hcx, hxd⟩ := h
  exact ⟨lt_of_le_of_lt hax hxd, lt_of_le_of_lt hcx hxb, lt_of_le_of_lt hax hxb⟩

section Grid

variable {K : Type*} [Field K] [LinearOrder K] [IsStrictOrderedRing K] [FloorRing K]
variable {stride height top extent : K} {k : ℤ}

/-- A box of the grid that ends below the window's top is not before the
one the top falls in. -/
theorem floor_le_of_ends_below (hheight : height ≤ stride) (hstride : 0 < stride)
    (h : top < k * stride + height) : ⌊top / stride⌋ ≤ k := by
  have hlt : top / stride < (k : K) + 1 := by
    rw [div_lt_iff₀ hstride]
    linarith
  have hfloor : ⌊top / stride⌋ < k + 1 := Int.floor_lt.mpr (by exact_mod_cast hlt)
  omega

/-- A box of the grid that begins above the window's bottom is among as
many as the window is strides long, and two more. -/
theorem lt_of_begins_above (hstride : 0 < stride) (h : k * stride < top + extent) :
    k < ⌊top / stride⌋ + (⌈extent / stride⌉ + 1) := by
  have hlt : (k : K) < top / stride + extent / stride := by
    rw [← add_div, lt_div_iff₀ hstride]
    exact h
  have hfloor : top / stride < ⌊top / stride⌋ + 1 := Int.lt_floor_add_one _
  have hceil : extent / stride ≤ ⌈extent / stride⌉ := Int.le_ceil _
  have hcast : (k : K) < ((⌊top / stride⌋ + (⌈extent / stride⌉ + 1) : ℤ) : K) := by
    push_cast
    linarith
  exact_mod_cast hcast

end Grid

end SymphonyBoard
