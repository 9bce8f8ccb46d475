import Mathlib.Algebra.Order.Field.Basic
import Mathlib.Data.List.Pairwise
import Mathlib.Tactic.Linarith
/-!
# Shelves

Boxes placed side by side on a shelf, with a gap between neighbours, until
the next one would stick out; then a new shelf begins under the tallest box
of the old one, a gap below. `separated_placements`: whatever the boxes
and the width of the shelves are, two boxes stand on one shelf with the gap
between them, or the later one stands the gap below the earlier.
-/

namespace SymphonyBoard

variable {K ι : Type*} [Field K] [LinearOrder K]

/-- Where the next box goes, and how tall the boxes of the shelf are. -/
structure Shelf (K : Type*) where
  cursorX : K
  cursorY : K
  rowHeight : K

/-- A new shelf, for a box that would stick out of one that has boxes. -/
def Shelf.wrap (target gap : K) (s : Shelf K) (width : K) : Shelf K :=
  if 0 < s.cursorX ∧ target < s.cursorX + width then
    { cursorX := 0, cursorY := s.cursorY + (s.rowHeight + gap), rowHeight := 0 }
  else s

/-- The shelf with a box at its cursor. -/
def Shelf.put (gap : K) (s : Shelf K) (width height : K) : Shelf K :=
  { s with cursorX := s.cursorX + (width + gap), rowHeight := max s.rowHeight height }

variable (width height : ι → K) (target gap : K)

/-- The shelf after a box. -/
def Shelf.step (s : Shelf K) (b : ι) : Shelf K :=
  (s.wrap target gap (width b)).put gap (width b) (height b)

/-- Every box with the cursor it is put at. -/
def placements : Shelf K → List ι → List (ι × K × K)
  | _, [] => []
  | s, b :: bs =>
    (b, (s.wrap target gap (width b)).cursorX, (s.wrap target gap (width b)).cursorY) ::
      placements (s.step width height target gap b) bs

/-- The second box stands the gap to the right of the first on one shelf,
or the gap below it. -/
def Separated (p q : ι × K × K) : Prop :=
  (p.2.2 = q.2.2 ∧ p.2.1 + width p.1 + gap ≤ q.2.1) ∨ p.2.2 + height p.1 + gap ≤ q.2.2

/-- A place at the shelf's cursor or to its right, or under the shelf. -/
def Beyond (s : Shelf K) (p : ι × K × K) : Prop :=
  (s.cursorY = p.2.2 ∧ s.cursorX ≤ p.2.1) ∨ s.cursorY + s.rowHeight + gap ≤ p.2.2

variable {width height target gap} {s : Shelf K} {bs : List ι}

theorem map_fst_placements (s : Shelf K) (bs : List ι) :
    (placements width height target gap s bs).map Prod.fst = bs := by
  induction bs generalizing s with
  | nil => rfl
  | cons b bs ih => rw [placements, List.map_cons, ih]

variable [IsStrictOrderedRing K]

/-- A new shelf is under the old one. -/
theorem beyond_of_wrap {w : K} {p : ι × K × K} (hgap : 0 ≤ gap)
    (h : Beyond gap (s.wrap target gap w) p) : Beyond gap s p := by
  unfold Shelf.wrap at h
  split at h
  · right
    rcases h with ⟨hy, -⟩ | hy
    · simp only at hy
      linarith
    · simp only at hy
      linarith
  · exact h

/-- The cursor moves to the right, and the shelf gets no lower. -/
theorem beyond_of_put {w t : K} {p : ι × K × K} (hw : 0 ≤ w) (hgap : 0 ≤ gap)
    (h : Beyond gap (s.put gap w t) p) : Beyond gap s p := by
  rcases h with ⟨hy, hx⟩ | hy
  · left
    refine ⟨hy, ?_⟩
    simp only [Shelf.put] at hx
    linarith
  · right
    have hmax : s.rowHeight ≤ max s.rowHeight t := le_max_left _ _
    simp only [Shelf.put] at hy
    linarith

/-- All places from a shelf on are beyond its cursor. -/
theorem beyond_placements (hgap : 0 ≤ gap) (hwidth : ∀ b ∈ bs, 0 ≤ width b) :
    ∀ p ∈ placements width height target gap s bs, Beyond gap s p := by
  induction bs generalizing s with
  | nil =>
    intro p hp
    exact absurd hp List.not_mem_nil
  | cons b bs ih =>
    have hb : 0 ≤ width b := hwidth b (List.mem_cons_self ..)
    have hbs : ∀ b' ∈ bs, 0 ≤ width b' := fun b' h => hwidth b' (List.mem_cons_of_mem b h)
    intro p hp
    rcases List.mem_cons.mp hp with rfl | hp
    · have hhere : Beyond gap (s.wrap target gap (width b))
          (b, (s.wrap target gap (width b)).cursorX, (s.wrap target gap (width b)).cursorY) :=
        Or.inl ⟨rfl, le_rfl⟩
      exact beyond_of_wrap hgap hhere
    · have hlater := ih hbs p hp
      exact beyond_of_wrap hgap (beyond_of_put hb hgap hlater)

/-- **No two boxes come closer than the gap.** -/
theorem separated_placements (hgap : 0 ≤ gap) (hwidth : ∀ b ∈ bs, 0 ≤ width b) :
    (placements width height target gap s bs).Pairwise (Separated width height gap) := by
  induction bs generalizing s with
  | nil => exact List.Pairwise.nil
  | cons b bs ih =>
    have hbs : ∀ b' ∈ bs, 0 ≤ width b' := fun b' h => hwidth b' (List.mem_cons_of_mem b h)
    refine List.pairwise_cons.mpr ⟨fun q hq => ?_, ih hbs⟩
    -- what comes after the box is beyond the shelf that has it
    rcases beyond_placements hgap hbs q hq with ⟨hy, hx⟩ | hy
    · left
      refine ⟨hy, ?_⟩
      simp only [Shelf.step, Shelf.put] at hx
      show (s.wrap target gap (width b)).cursorX + width b + gap ≤ q.2.1
      linarith
    · right
      have hmax : height b ≤ max (s.wrap target gap (width b)).rowHeight (height b) :=
        le_max_right _ _
      simp only [Shelf.step, Shelf.put] at hy
      show (s.wrap target gap (width b)).cursorY + height b + gap ≤ q.2.2
      linarith

end SymphonyBoard
