import Mathlib.Order.Lattice
import Mathlib.Order.MinMax
import Mathlib.Data.List.Range
import Mathlib.Algebra.BigOperators.Group.List.Basic
import Mathlib.Algebra.GroupWithZero.Nat
/-!
# Tilings of an interval

Half-open intervals that follow each other from `lo` to `hi` without a gap.
Every point between is in exactly one of them (`Tiles.countP_eq`), so what
is counted piece by piece sums to what is counted of the whole
(`Tiles.sum_countP`). The marks of a sequence that does not go back, clipped
to `lo` and `hi`, tile what is between (`tiles_clipped`).
-/

namespace SymphonyBoard

variable {α β : Type*} [LinearOrder α]

/-- The pieces follow each other from `lo` to `hi`, none of them empty. -/
def Tiles : α → α → List (α × α) → Prop
  | lo, hi, [] => lo = hi
  | lo, hi, p :: l => p.1 = lo ∧ lo < p.2 ∧ Tiles p.2 hi l

/-- A piece has its lower end, not its upper. -/
def InPiece (x : α) (p : α × α) : Prop := p.1 ≤ x ∧ x < p.2

instance (x : α) (p : α × α) : Decidable (InPiece x p) := inferInstanceAs (Decidable (_ ∧ _))

variable {lo mid hi x : α} {l m : List (α × α)}

theorem Tiles.le (h : Tiles lo hi l) : lo ≤ hi := by
  induction l generalizing lo with
  | nil => exact le_of_eq h
  | cons p l ih => exact le_trans h.2.1.le (ih h.2.2)

theorem Tiles.append (h : Tiles lo mid l) (h' : Tiles mid hi m) : Tiles lo hi (l ++ m) := by
  induction l generalizing lo with
  | nil =>
    obtain rfl : lo = mid := h
    exact h'
  | cons p l ih => exact ⟨h.1, h.2.1, ih h.2.2⟩

/-- **A point is in one piece**, or outside. -/
theorem Tiles.countP_eq (h : Tiles lo hi l) (x : α) :
    l.countP (fun p => decide (InPiece x p)) = if InPiece x (lo, hi) then 1 else 0 := by
  induction l generalizing lo with
  | nil =>
    obtain rfl : lo = hi := h
    rw [if_neg fun hx => absurd hx.2 (not_lt_of_ge hx.1)]
    rfl
  | cons p l ih =>
    obtain ⟨a, b⟩ := p
    obtain ⟨rfl, hne, hrest⟩ := h
    have hle : b ≤ hi := hrest.le
    rw [List.countP_cons, ih hrest]
    by_cases hx : InPiece x (a, b)
    · have hout : ¬InPiece x (b, hi) := fun h => absurd h.1 (not_le_of_gt hx.2)
      rw [if_neg hout, if_pos (decide_eq_true hx), if_pos ⟨hx.1, lt_of_lt_of_le hx.2 hle⟩]
    · rw [if_neg (c := decide (InPiece x (a, b)) = true) (by simpa using hx), Nat.add_zero]
      refine if_congr ⟨fun h => ⟨le_trans hne.le h.1, h.2⟩, fun h => ⟨?_, h.2⟩⟩ rfl rfl
      exact le_of_not_gt fun hb => hx ⟨h.1, hb⟩

/-- What the rows stamped in a piece weigh. -/
def weighIn (stamp : β → Option α) (weight : β → ℕ) (rows : List β) (p : α × α) : ℕ :=
  ((rows.filter fun y => (stamp y).any fun x => decide (InPiece x p)).map weight).sum

theorem weighIn_cons (stamp : β → Option α) (weight : β → ℕ) (y : β) (rows : List β) (p : α × α) :
    weighIn stamp weight (y :: rows) p =
      (if (stamp y).any fun x => decide (InPiece x p) then weight y else 0) +
        weighIn stamp weight rows p := by
  unfold weighIn
  rw [List.filter_cons]
  split
  · rw [List.map_cons, List.sum_cons]
  · rw [Nat.zero_add]

theorem weighIn_eq_sum (stamp : β → Option α) (weight : β → ℕ) (rows : List β) (p : α × α) :
    weighIn stamp weight rows p =
      (rows.map fun y => if (stamp y).any fun x => decide (InPiece x p) then weight y else 0).sum := by
  induction rows with
  | nil => rfl
  | cons y rows ih => rw [weighIn_cons, ih, List.map_cons, List.sum_cons]

theorem sum_map_if (f : β → Bool) (w : ℕ) (rows : List β) :
    (rows.map fun y => if f y then w else 0).sum = rows.countP f * w := by
  induction rows with
  | nil => simp
  | cons y rows ih =>
    rw [List.map_cons, List.sum_cons, ih, List.countP_cons, Nat.add_mul, Nat.add_comm]
    cases f y with
    | false => simp
    | true => simp

/-- **What is weighed piece by piece sums to the whole.** -/
theorem Tiles.sum_weighIn (h : Tiles lo hi l) (stamp : β → Option α) (weight : β → ℕ)
    (rows : List β) :
    (l.map (weighIn stamp weight rows)).sum = weighIn stamp weight rows (lo, hi) := by
  induction rows with
  | nil =>
    have hnone : weighIn stamp weight [] = fun _ => 0 := rfl
    rw [hnone]
    simp
  | cons y rows ih =>
    rw [List.map_congr_left fun p _ => weighIn_cons stamp weight y rows p, List.sum_map_add, ih,
      weighIn_cons]
    congr 1
    cases hstamp : stamp y with
    | none => simp
    | some x =>
      -- the row is weighed in the one piece its stamp is in
      simp only [Option.any_some]
      rw [sum_map_if (fun p => decide (InPiece x p)), h.countP_eq x]
      by_cases hx : InPiece x (lo, hi)
      · simp [hx]
      · simp [hx]

/-! ## Clipped marks -/

/-- The pieces between the marks of a sequence, clipped to `lo` and `hi`. -/
def clippedPiece (lo hi : α) (g : ℕ → α) (i : ℕ) : α × α := (max (g i) lo, min (g (i + 1)) hi)

/-- Marks that do not go back, with what is between them. -/
theorem tiles_marks {c : ℕ → α} {k : ℕ} (hmono : ∀ i < k, c i ≤ c (i + 1)) :
    Tiles (c 0) (c k) (((List.range k).map fun i => (c i, c (i + 1))).filter fun p => p.1 < p.2) := by
  induction k with
  | zero => rfl
  | succ k ih =>
    have hrest := ih fun i hi => hmono i (Nat.lt_succ_of_lt hi)
    rw [List.range_succ, List.map_append, List.filter_append]
    refine hrest.append ?_
    rcases (hmono k (Nat.lt_succ_self k)).lt_or_eq with hlt | heq
    · rw [List.map_singleton, List.filter_cons_of_pos (by simpa using hlt)]
      exact ⟨rfl, hlt, rfl⟩
    · rw [List.map_singleton, List.filter_cons_of_neg (by simp [heq])]
      exact heq

/-- A piece that is not empty lies between the same two clamped marks. -/
theorem clippedPiece_eq {g : ℕ → α} {i : ℕ} (h : max (g i) lo < min (g (i + 1)) hi) :
    clippedPiece lo hi g i = (max lo (min (g i) hi), max lo (min (g (i + 1)) hi)) := by
  have hhere : g i ≤ hi :=
    (lt_of_le_of_lt (le_max_left _ _) (lt_of_lt_of_le h (min_le_right _ _))).le
  have hnext : lo ≤ min (g (i + 1)) hi := (lt_of_le_of_lt (le_max_right _ _) h).le
  rw [clippedPiece, min_eq_left hhere, max_comm, max_eq_right hnext]

theorem clippedPiece_lt_iff {g : ℕ → α} {i : ℕ} :
    max (g i) lo < min (g (i + 1)) hi ↔
      max lo (min (g i) hi) < max lo (min (g (i + 1)) hi) := by
  constructor
  · intro h
    obtain ⟨hfst, hsnd⟩ := Prod.mk.inj (clippedPiece_eq h)
    rwa [hfst, hsnd] at h
  · intro h
    have hnext : lo < min (g (i + 1)) hi := by
      refine (lt_max_iff.mp (lt_of_le_of_lt (le_max_left _ _) h)).resolve_left (lt_irrefl lo)
    rw [max_eq_right hnext.le] at h
    have hhere : g i < hi := by
      have hmin := lt_of_lt_of_le (lt_of_le_of_lt (le_max_right _ _) h) (min_le_right _ _)
      exact (min_lt_iff.mp hmin).resolve_right (lt_irrefl hi)
    rwa [min_eq_left hhere.le, max_comm] at h

/-- **Marks that do not go back tile what is between** the first and the
last, clipped to it. -/
theorem tiles_clipped (lo hi : α) {g : ℕ → α} {k : ℕ} (hle : lo ≤ hi) (hfirst : g 0 ≤ lo)
    (hlast : hi ≤ g k)
    (hmono : ∀ i < k, g i ≤ g (i + 1)) :
    Tiles lo hi (((List.range k).map (clippedPiece lo hi g)).filter fun p => p.1 < p.2) := by
  have hmarks := tiles_marks (c := fun i => max lo (min (g i) hi)) (k := k) fun i hi' =>
    max_le_max le_rfl (min_le_min (hmono i hi') le_rfl)
  have hlo : max lo (min (g 0) hi) = lo := max_eq_left (le_trans (min_le_left _ _) hfirst)
  have hhi : max lo (min (g k) hi) = hi := by rw [min_eq_right hlast, max_eq_right hle]
  simp only [hlo, hhi] at hmarks
  have hsame : ((List.range k).map (clippedPiece lo hi g)).filter (fun p => p.1 < p.2) =
      ((List.range k).map fun i => (max lo (min (g i) hi), max lo (min (g (i + 1)) hi))).filter
        fun p => p.1 < p.2 := by
    rw [List.filter_map, List.filter_map]
    have hkeep : ∀ i ∈ List.range k, ((fun p : α × α => decide (p.1 < p.2)) ∘ clippedPiece lo hi g) i =
        ((fun p : α × α => decide (p.1 < p.2)) ∘
          fun i => (max lo (min (g i) hi), max lo (min (g (i + 1)) hi))) i :=
      fun i _ => decide_eq_decide.mpr clippedPiece_lt_iff
    rw [← List.filter_congr hkeep]
    refine List.map_congr_left fun i hi' => clippedPiece_eq ?_
    exact of_decide_eq_true (List.mem_filter.mp hi').2
  rw [hsame]
  exact hmarks

end SymphonyBoard
