import Mathlib.Data.Int.Init
import Mathlib.Order.Lattice
import Mathlib.Tactic.ByContra
/-!
# Where a function of time passes a level

A clock read against a time line that is not its own: `f t` is what the
clock shows at instant `t`, in any linear order, and it may go back or
leap. It passes a level `g` at `s` when it is below `g` before `s` and not
below from `s` on. `crossesAt_iff` is the local test, and
`between_iff_crossesAt` says that the instants between two marks are those
the clock spends between two levels just when both marks are crossings,
for a clock that steps over neither level to the other side.
-/

namespace SymphonyBoard

variable {α : Type*} [LinearOrder α]

/-- The clock is below `g` before `s`, and not below it from `s` on. -/
def CrossesAt (f : ℤ → α) (g : α) (s : ℤ) : Prop := ∀ t, s ≤ t ↔ g ≤ f t

/-- Once it has come to `g`, the clock never shows less. -/
def CrossesOnce (f : ℤ → α) (g : α) : Prop := ∀ t t', t ≤ t' → g ≤ f t → g ≤ f t'

/-- No single tick takes the clock from below `g` to `g'` or beyond, or
from `g'` or beyond to below `g`. -/
def NoStepOver (f : ℤ → α) (g g' : α) : Prop :=
  ∀ t, (f (t - 1) < g → f t < g') ∧ (g' ≤ f (t - 1) → g ≤ f t)

variable {f : ℤ → α} {g g' : α} {s s' t t' : ℤ}

/-- **The local test**: a clock that does not come back to a level passes
it at `s` when it is below just before `s` and not below at `s`. -/
theorem crossesAt_iff : CrossesAt f g s ↔ CrossesOnce f g ∧ f (s - 1) < g ∧ g ≤ f s := by
  constructor
  · intro h
    refine ⟨?_, ?_, (h s).mp (Int.le_refl s)⟩
    · intro t t' htt hg
      exact (h t').mp (Int.le_trans ((h t).mpr hg) htt)
    · by_contra hn
      have hs := (h (s - 1)).mpr (not_lt.mp hn)
      omega
  · rintro ⟨honce, hbelow, hat⟩ t
    constructor
    · intro hst
      exact honce s t hst hat
    · intro hg
      by_contra hn
      have hts : t ≤ s - 1 := by omega
      exact absurd (honce t (s - 1) hts hg) (not_le.mpr hbelow)

/-- A clock passes a level at one instant. -/
theorem CrossesAt.unique (h : CrossesAt f g s) (h' : CrossesAt f g s') : s = s' := by
  have hle : s ≤ s' := (h s').mpr ((h' s').mp (Int.le_refl s'))
  have hge : s' ≤ s := (h' s).mpr ((h s).mp (Int.le_refl s))
  omega

/-- A higher level is passed later. -/
theorem CrossesAt.mono (h : CrossesAt f g s) (h' : CrossesAt f g' s') (hg : g ≤ g') : s ≤ s' :=
  (h s').mpr (le_trans hg ((h' s').mp (Int.le_refl s')))

/-- The instants between two crossings are those between the two levels. -/
theorem CrossesAt.between (h : CrossesAt f g s) (h' : CrossesAt f g' s') :
    s ≤ t ∧ t < s' ↔ g ≤ f t ∧ f t < g' := by
  rw [h t, ← not_le, h' t, not_le]

section NoStepOver

variable (hstep : NoStepOver f g g')

include hstep

/-- A clock above both levels that is at no time between them stays above. -/
theorem NoStepOver.above (hs : g' ≤ f t) (htt : t ≤ t')
    (hout : ∀ u, t ≤ u → u ≤ t' → ¬(g ≤ f u ∧ f u < g')) : g' ≤ f t' := by
  induction t', htt using Int.leInduction with
  | base => exact hs
  | succ u hu ih =>
    have hprev := ih fun v hv hvu => hout v hv (by omega)
    have hlow : g ≤ f (u + 1) := (hstep (u + 1)).2 (by rwa [Int.add_sub_cancel])
    exact not_lt.mp fun hlt => hout (u + 1) (by omega) (Int.le_refl _) ⟨hlow, hlt⟩

/-- A clock below both levels that is at no time between them stays below. -/
theorem NoStepOver.below (hs : f t < g) (htt : t ≤ t')
    (hout : ∀ u, t ≤ u → u ≤ t' → ¬(g ≤ f u ∧ f u < g')) : f t' < g := by
  induction t', htt using Int.leInduction with
  | base => exact hs
  | succ u hu ih =>
    have hprev := ih fun v hv hvu => hout v hv (by omega)
    have hhigh : f (u + 1) < g' := (hstep (u + 1)).1 (by rwa [Int.add_sub_cancel])
    exact not_le.mp fun hle => hout (u + 1) (by omega) (Int.le_refl _) ⟨hle, hhigh⟩

/-- A clock that is below the levels and later above them is between them
in the meantime. -/
theorem NoStepOver.exists_between (hgg : g ≤ g') (hs : f t < g) (hs' : g' ≤ f t') (htt : t ≤ t') :
    ∃ u, t ≤ u ∧ u ≤ t' ∧ g ≤ f u ∧ f u < g' := by
  by_contra hn
  have hbelow := hstep.below hs htt fun u hu hut hb => hn ⟨u, hu, hut, hb⟩
  exact absurd hs' (not_le.mpr (lt_of_lt_of_le hbelow hgg))

/-- **Two marks hold the instants the clock spends between two levels just
when it passes each level at its mark**, for a clock that comes from below
and ends above. -/
theorem between_iff_crossesAt (hgg : g ≤ g') {lo hi : ℤ} (hlo : ∀ t, t ≤ lo → f t < g)
    (hhi : ∀ t, hi ≤ t → g' ≤ f t) :
    (∀ t, s ≤ t ∧ t < s' ↔ g ≤ f t ∧ f t < g') ↔ CrossesAt f g s ∧ CrossesAt f g' s' := by
  constructor
  · intro h
    -- the clock is between the levels at some time, so the marks are in order
    have hss : s < s' := by
      have hlow := hlo (min lo hi) (Int.min_le_left lo hi)
      have hhigh := hhi (max lo hi) (Int.le_max_right lo hi)
      obtain ⟨u, -, -, hu⟩ := hstep.exists_between hgg hlow hhigh (by omega)
      have := (h u).mpr hu
      omega
    have habove : ∀ t, s' ≤ t → g' ≤ f t := by
      intro t ht
      have hout : ∀ u, t ≤ u → u ≤ max t hi → ¬(g ≤ f u ∧ f u < g') := by
        intro u hu _ hb
        have := (h u).mpr hb
        omega
      by_contra hn
      have hbelow : f t < g :=
        not_le.mp fun hle => hout t (Int.le_refl t) (by omega) ⟨hle, not_le.mp hn⟩
      have hlast := hstep.below hbelow (Int.le_max_left t hi) hout
      exact absurd (hhi _ (Int.le_max_right t hi)) (not_le.mpr (lt_of_lt_of_le hlast hgg))
    have hbelow : ∀ t, t < s → f t < g := by
      intro t ht
      refine hstep.below (hlo (min lo t) (Int.min_le_left lo t)) (Int.min_le_right lo t) ?_
      intro u _ hut hb
      have := (h u).mpr hb
      omega
    refine ⟨fun t => ⟨fun hst => ?_, fun hg => ?_⟩, fun t => ⟨habove t, fun hg => ?_⟩⟩
    · by_cases ht : t < s'
      · exact ((h t).mp ⟨hst, ht⟩).1
      · exact le_trans hgg (habove t (by omega))
    · by_contra hn
      exact absurd hg (not_le.mpr (hbelow t (by omega)))
    · by_contra hn
      by_cases hst : s ≤ t
      · exact absurd hg (not_le.mpr ((h t).mp ⟨hst, by omega⟩).2)
      · exact absurd (le_trans hgg hg) (not_le.mpr (hbelow t (by omega)))
  · rintro ⟨h, h'⟩ t
    exact h.between h'

end NoStepOver

end SymphonyBoard
