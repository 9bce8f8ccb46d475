import SymphonyBoard.Common.Compare
/-!
# Sorting is stable

A stable sort keeps equal rows as they were, so what is filtered out
beforehand or afterwards makes no difference (`filter_sortBy`).
-/

namespace SymphonyBoard

variable {α : Type} {r : α → α → Prop} [DecidableRel r] {a : α} {l : List α}

/-- A row not after any of a list is put first. -/
theorem orderedInsert_of_forall (h : ∀ b ∈ l, r a b) : l.orderedInsert r a = a :: l := by
  cases l with
  | nil => rfl
  | cons b l => exact List.orderedInsert_cons_of_le r l (h b List.mem_cons_self)

theorem filter_orderedInsert (p : α → Bool) (htrans : ∀ a b c, r a b → r b c → r a c)
    (hl : l.Pairwise r) :
    (l.orderedInsert r a).filter p =
      if p a then (l.filter p).orderedInsert r a else l.filter p := by
  induction l with
  | nil => rw [List.orderedInsert_nil, List.filter_cons, List.filter_nil]; rfl
  | cons b l ih =>
    obtain ⟨hb, hl⟩ := List.pairwise_cons.mp hl
    by_cases hab : r a b
    · -- the row goes first, before whatever is kept of the rest
      have hfirst : ∀ c ∈ (b :: l).filter p, r a c := by
        intro c hc
        rcases List.mem_cons.mp (List.mem_filter.mp hc).1 with rfl | hc
        · exact hab
        · exact htrans a b c hab (hb c hc)
      rw [List.orderedInsert_cons_of_le r l hab, orderedInsert_of_forall hfirst, List.filter_cons]
    · rw [List.orderedInsert_of_not_le r l hab, List.filter_cons, ih hl, List.filter_cons]
      by_cases hpa : p a = true
      · by_cases hpb : p b = true
        · rw [if_pos hpb, if_pos hpb, if_pos hpa, if_pos hpa, List.orderedInsert_of_not_le r _ hab]
        · rw [if_neg hpb, if_neg hpb]
      · rw [if_neg hpa, if_neg hpa]

/-- **Filtering commutes with sorting.** -/
theorem filter_sortBy {cmp : α → α → Ordering} [h : Std.TransCmp cmp] (p : α → Bool)
    (l : List α) : (sortBy cmp l).filter p = sortBy cmp (l.filter p) := by
  have htrans : ∀ a b c, (cmp a b).isLE = true → (cmp b c).isLE = true → (cmp a c).isLE = true :=
    fun a b c hab hbc => h.isLE_trans hab hbc
  induction l with
  | nil => simp [sortBy]
  | cons a l ih =>
    have hsorted : (sortBy cmp l).Pairwise fun a b => (cmp a b).isLE = true := pairwise_sortBy l
    rw [sortBy_eq_insertionSort] at ih hsorted ⊢
    rw [List.insertionSort_cons, filter_orderedInsert p htrans hsorted, ih, List.filter_cons]
    split
    · rw [sortBy_eq_insertionSort, sortBy_eq_insertionSort, List.insertionSort_cons]
    · rfl

end SymphonyBoard
