import SymphonyBoard.Common.Compare
/-!
# The first rows of a list that was cut before

`IsFirst cmp n all rows`: the rows are a first `n` of `all` in the order of
the comparator, whichever of equal rows they are. Where rows were cut away
before the first `n` of the kept ones were taken, these are a first `n` of
all exactly when every cut row has `n` kept ones that do not come after it
(`isFirst_take_sortBy_iff`).
-/

namespace SymphonyBoard

variable {α : Type*} {cmp : α → α → Ordering}

/-- A first `n` of all: sorted, as many as there can be, and none of the
others before any of them. -/
structure IsFirst (cmp : α → α → Ordering) (n : ℕ) (all rows : List α) : Prop where
  sorted : rows.Pairwise fun a b => (cmp a b).isLE
  length : rows.length = min n all.length
  first : ∃ rest, all.Perm (rows ++ rest) ∧ ∀ a ∈ rows, ∀ b ∈ rest, (cmp a b).isLE

/-- In a sorted list, what `n` rows meet and earlier rows inherit, the first
`n` meet. -/
theorem forall_mem_take_of_le_countP {p : α → Bool} {l : List α} {n : ℕ}
    (hsorted : l.Pairwise fun a b => p b → p a) (h : n ≤ l.countP p) : ∀ a ∈ l.take n, p a := by
  induction l generalizing n with
  | nil => simp
  | cons a l ih =>
    obtain ⟨ha, hl⟩ := List.pairwise_cons.mp hsorted
    cases n with
    | zero => simp
    | succ n =>
      have hpa : p a := by
        by_contra hpa
        have hnone : l.countP p = 0 := List.countP_eq_zero.mpr fun b hb hpb => hpa (ha b hb hpb)
        rw [List.countP_cons_of_neg hpa, hnone] at h
        omega
      rw [List.countP_cons_of_pos hpa] at h
      intro b hb
      rcases List.mem_cons.mp hb with rfl | hb
      · exact hpa
      · exact ih hl (by omega) b hb

/-- **The first of the kept are the first of all** exactly when no cut row
has fewer than `n` kept ones at or before it. -/
theorem isFirst_take_sortBy_iff [h : Std.TransCmp cmp] {all kept cut : List α} {n : ℕ}
    (hall : all.Perm (kept ++ cut)) (hcut : cut ≠ [] → n ≤ kept.length) :
    IsFirst cmp n all ((sortBy cmp kept).take n) ↔
      ∀ b ∈ cut, n ≤ kept.countP fun a => (cmp a b).isLE := by
  have hkept := sortBy_perm cmp kept
  have hsplit : kept.Perm ((sortBy cmp kept).take n ++ (sortBy cmp kept).drop n) := by
    rw [List.take_append_drop]
    exact hkept.symm
  have hlength : ((sortBy cmp kept).take n).length = min n all.length := by
    rw [List.length_take, length_sortBy, hall.length_eq, List.length_append]
    by_cases hnil : cut = []
    · simp [hnil]
    · have := hcut hnil
      omega
  constructor
  · rintro ⟨-, -, rest, hperm, hfirst⟩ b hb
    have hrest : rest.Perm ((sortBy cmp kept).drop n ++ cut) := by
      refine (List.perm_append_left_iff ((sortBy cmp kept).take n)).mp ?_
      rw [← List.append_assoc]
      exact hperm.symm.trans (hall.trans (hsplit.append_right _))
    have hmem : b ∈ rest := hrest.mem_iff.mpr (List.mem_append_right _ hb)
    have htaken : ((sortBy cmp kept).take n).countP (fun a => (cmp a b).isLE) = n := by
      rw [List.countP_eq_length.mpr fun a ha => hfirst a ha b hmem, List.length_take,
        length_sortBy, min_eq_left (hcut (List.ne_nil_of_mem hb))]
    rw [hsplit.countP_eq, List.countP_append]
    omega
  · intro hcount
    have hsorted := @pairwise_sortBy _ cmp _ kept
    refine ⟨hsorted.sublist (List.take_sublist _ _), hlength,
      (sortBy cmp kept).drop n ++ cut, ?_, fun a ha b hb => ?_⟩
    · rw [← List.append_assoc]
      exact hall.trans (hsplit.append_right _)
    · rcases List.mem_append.mp hb with hb | hb
      · rw [← List.take_append_drop n (sortBy cmp kept), List.pairwise_append] at hsorted
        exact hsorted.2.2 a ha b hb
      · have hinherit : (sortBy cmp kept).Pairwise fun a a' => (cmp a' b).isLE → (cmp a b).isLE :=
          hsorted.imp fun hle hle' => h.isLE_trans hle hle'
        refine forall_mem_take_of_le_countP hinherit ?_ a ha
        rw [hkept.countP_eq]
        exact hcount b hb

end SymphonyBoard
