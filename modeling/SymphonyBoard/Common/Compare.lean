import Mathlib.Data.List.Pairwise
import Mathlib.Data.List.Sort
/-!
# Comparators and sorted lists

The parts of an `ORDER BY`: a comparator on a key (`on`), one that puts
nulls first or last (`withNulls`), and their lexicographic composition
(`compareLex`). Sorting by a comparator that tells the rows apart leaves no
choice, so two such comparators sort a list alike exactly when they agree
on every two of its rows (`sortBy_eq_iff`).
-/

namespace SymphonyBoard

variable {α κ : Type*}

/-! ## Keys and nulls -/

/-- Rows compared by a key. -/
def on (cmp : κ → κ → Ordering) (key : α → κ) (a b : α) : Ordering := cmp (key a) (key b)

instance transCmp_on (cmp : κ → κ → Ordering) [h : Std.TransCmp cmp] (key : α → κ) :
    Std.TransCmp (on cmp key) where
  eq_swap := h.eq_swap
  isLE_trans := h.isLE_trans

/-- Where an `ORDER BY` key puts its nulls. -/
inductive Nulls
  | first
  | last
deriving DecidableEq, Repr

/-- A null before a value. -/
def Nulls.order : Nulls → Ordering
  | first => .lt
  | last => .gt

/-- An order on values that may be absent. -/
def withNulls (nulls : Nulls) (cmp : κ → κ → Ordering) : Option κ → Option κ → Ordering
  | none, none => .eq
  | none, some _ => nulls.order
  | some _, none => nulls.order.swap
  | some a, some b => cmp a b

instance transCmp_withNulls (nulls : Nulls) (cmp : κ → κ → Ordering) [h : Std.TransCmp cmp] :
    Std.TransCmp (withNulls nulls cmp) where
  eq_swap {a b} := by
    cases a with
    | none => cases b <;> cases nulls <;> rfl
    | some a =>
      cases b with
      | none => cases nulls <;> rfl
      | some b => exact h.eq_swap
  isLE_trans {a b c} hab hbc := by
    cases a with
    | none =>
      cases c with
      | none => rfl
      | some c =>
        -- a null is before a value, or it is not and then `b` is one of the two
        cases b with
        | none => exact hbc
        | some b => cases nulls <;> first | rfl | cases hab
    | some a =>
      cases b with
      | none =>
        cases c with
        | none => exact hab
        | some c =>
          cases nulls with
          | first => exact absurd hab Bool.false_ne_true
          | last => exact absurd hbc Bool.false_ne_true
      | some b =>
        cases c with
        | none => cases nulls <;> first | rfl | cases hbc
        | some c => exact h.isLE_trans hab hbc

theorem withNulls_eq_iff {nulls : Nulls} {cmp : κ → κ → Ordering}
    (h : ∀ a b, cmp a b = .eq ↔ a = b) (a b : Option κ) :
    withNulls nulls cmp a b = .eq ↔ a = b := by
  cases a <;> cases b <;> cases nulls <;> simp [withNulls, Nulls.order, h]

/-- Two places for the nulls of a key leave the order alone where both rows
have a value there or neither has. -/
theorem withNulls_then_eq_iff {cmp : κ → κ → Ordering} (h : ∀ a b, cmp a b = .eq ↔ a = b)
    (a b : Option κ) (x y : Ordering) :
    (withNulls .first cmp a b).then x = (withNulls .last cmp a b).then y ↔
      a.isNone = b.isNone ∧ (a = b → x = y) := by
  cases a with
  | none => cases b <;> simp [withNulls, Nulls.order]
  | some a =>
    cases b with
    | none => simp [withNulls, Nulls.order]
    | some b =>
      simp only [withNulls, Option.isNone_some, true_and, Option.some.injEq, ← h a b]
      cases cmp a b <;> simp

theorem then_eq_then_iff (o x y : Ordering) : o.then x = o.then y ↔ (o = .eq → x = y) := by
  cases o <;> simp

/-! ## Sorting -/

/-- The list in the order of the comparator, equal rows as they were. -/
def sortBy (cmp : α → α → Ordering) (l : List α) : List α :=
  l.mergeSort fun a b => (cmp a b).isLE

theorem sortBy_perm (cmp : α → α → Ordering) (l : List α) : (sortBy cmp l).Perm l :=
  List.mergeSort_perm l _

theorem length_sortBy (cmp : α → α → Ordering) (l : List α) :
    (sortBy cmp l).length = l.length := (sortBy_perm cmp l).length_eq

theorem mem_sortBy {cmp : α → α → Ordering} {l : List α} {a : α} : a ∈ sortBy cmp l ↔ a ∈ l :=
  (sortBy_perm cmp l).mem_iff

section Sorted

variable {cmp cmp' : α → α → Ordering} [h : Std.TransCmp cmp] [h' : Std.TransCmp cmp'] {l : List α}

theorem isLE_total (a b : α) : (cmp a b).isLE || (cmp b a).isLE := by
  rw [h.eq_swap (a := b)]
  cases cmp a b <;> rfl

theorem pairwise_sortBy (l : List α) :
    (sortBy cmp l).Pairwise fun a b => (cmp a b).isLE = true := by
  have htrans : ∀ a b c, (cmp a b).isLE = true → (cmp b c).isLE = true → (cmp a c).isLE = true :=
    fun a b c hab hbc => h.isLE_trans hab hbc
  have htotal : ∀ a b, ((cmp a b).isLE || (cmp b a).isLE) = true := isLE_total
  exact List.pairwise_mergeSort htrans htotal l

/-- A sort by hand, which computes. -/
theorem sortBy_eq_insertionSort (l : List α) :
    sortBy cmp l = l.insertionSort fun a b => (cmp a b).isLE = true := by
  have htrans : ∀ a b c, (cmp a b).isLE = true → (cmp b c).isLE = true → (cmp a c).isLE = true :=
    fun a b c hab hbc => h.isLE_trans hab hbc
  have htotal : ∀ a b, ((cmp a b).isLE || (cmp b a).isLE) = true := isLE_total
  induction l with
  | nil => simp [sortBy]
  | cons a l ih =>
    obtain ⟨before, after, hsorted, hrest, hbefore⟩ := List.mergeSort_cons htrans htotal a l
    have hpairwise : (before ++ a :: after).Pairwise fun a b => (cmp a b).isLE = true :=
      hsorted ▸ List.pairwise_mergeSort htrans htotal (a :: l)
    rw [List.insertionSort_cons, ← ih]
    unfold sortBy
    rw [hsorted, hrest]
    clear hsorted hrest ih
    induction before with
    | nil =>
      cases after with
      | nil => rfl
      | cons b after =>
        have hab : (cmp a b).isLE = true := (List.pairwise_cons.mp hpairwise).1 b List.mem_cons_self
        rw [List.nil_append, List.nil_append, List.orderedInsert, if_pos hab]
    | cons b before ih =>
      have hba : ¬(cmp a b).isLE = true := by
        simpa using hbefore b List.mem_cons_self
      rw [List.cons_append, List.cons_append, List.orderedInsert, if_neg hba,
        ← ih (fun c hc => hbefore c (List.mem_cons_of_mem _ hc)) (List.pairwise_cons.mp hpairwise).2]

omit h in
/-- A comparator that tells the rows of a list apart puts one of two before
the other. -/
theorem eq_lt_of_isLE (heq : ∀ a ∈ l, ∀ b ∈ l, cmp a b = .eq → a = b) {a b : α} (ha : a ∈ l)
    (hb : b ∈ l) (hne : a ≠ b) (hle : (cmp a b).isLE = true) : cmp a b = .lt := by
  cases hab : cmp a b with
  | lt => rfl
  | eq => exact absurd (heq a ha b hb hab) hne
  | gt =>
    rw [hab] at hle
    cases hle

/-- **Two comparators sort a list alike exactly when they agree on it**,
where both tell its rows apart. -/
theorem sortBy_eq_iff (heq : ∀ a ∈ l, ∀ b ∈ l, cmp a b = .eq → a = b)
    (heq' : ∀ a ∈ l, ∀ b ∈ l, cmp' a b = .eq → a = b) :
    sortBy cmp l = sortBy cmp' l ↔ ∀ a ∈ l, ∀ b ∈ l, cmp a b = cmp' a b := by
  have hself : ∀ a, cmp a a = .eq := fun a => Ordering.eq_eq_of_eq_swap h.eq_swap
  have hself' : ∀ a, cmp' a a = .eq := fun a => Ordering.eq_eq_of_eq_swap h'.eq_swap
  constructor
  · intro hsort
    have hle' : (sortBy cmp l).Pairwise fun a b => (cmp' a b).isLE = true :=
      hsort ▸ pairwise_sortBy l
    have hpair : (sortBy cmp l).Pairwise fun a b => cmp a b = cmp' a b := by
      refine ((pairwise_sortBy l).and hle').imp_of_mem fun {a b} ha hb hle => ?_
      have ha := mem_sortBy.mp ha
      have hb := mem_sortBy.mp hb
      by_cases hab : a = b
      · subst hab
        rw [hself, hself']
      · rw [eq_lt_of_isLE heq ha hb hab hle.1, eq_lt_of_isLE heq' ha hb hab hle.2]
    have hflip : (sortBy cmp l).Pairwise fun a b => cmp b a = cmp' b a :=
      hpair.imp fun hab => by rw [h.eq_swap, hab, ← h'.eq_swap]
    have hall := hpair.forall_of_forall_of_flip (fun a _ => by rw [hself, hself']) hflip
    exact fun a ha b hb => hall (mem_sortBy.mpr ha) (mem_sortBy.mpr hb)
  · intro hagree
    refine List.Perm.eq_of_pairwise ?_ (pairwise_sortBy l) ?_
      ((sortBy_perm cmp l).trans (sortBy_perm cmp' l).symm)
    · intro a b ha hb hab hba
      have ha := mem_sortBy.mp ha
      have hb := mem_sortBy.mp hb
      by_contra hne
      rw [h.eq_swap, eq_lt_of_isLE heq ha hb hne hab] at hba
      cases hba
    · refine (pairwise_sortBy l).imp_of_mem fun ha hb hle => ?_
      rw [hagree _ (mem_sortBy.mp ha) _ (mem_sortBy.mp hb)]
      exact hle

omit h' in
/-- **Sorting depends on the rows alone**, where the comparator tells them
apart. -/
theorem sortBy_eq_of_perm {l' : List α} (hperm : l.Perm l')
    (heq : ∀ a ∈ l, ∀ b ∈ l, cmp a b = .eq → a = b) : sortBy cmp l = sortBy cmp l' := by
  refine List.Perm.eq_of_pairwise ?_ (pairwise_sortBy l) (pairwise_sortBy l')
    ((sortBy_perm cmp l).trans (hperm.trans (sortBy_perm cmp l').symm))
  intro a b ha hb hab hba
  have ha := mem_sortBy.mp ha
  have hb := hperm.mem_iff.mpr (mem_sortBy.mp hb)
  by_contra hne
  rw [h.eq_swap, eq_lt_of_isLE heq ha hb hne hab] at hba
  cases hba

omit h' in
/-- **A sorted list keeps to a relation** when the rows it puts first do, the
relation holding of the rows it does not tell apart. -/
theorem pairwise_sortBy_iff {R : α → α → Prop}
    (heq : ∀ a ∈ l, ∀ b ∈ l, cmp a b = .eq → R a b) :
    (sortBy cmp l).Pairwise R ↔ ∀ a ∈ l, ∀ b ∈ l, cmp a b = .lt → R a b := by
  constructor
  · intro hpair a ha b hb hlt
    have hself : ∀ x ∈ sortBy cmp l, cmp x x = .lt → R x x := fun x _ hx => by
      rw [show cmp x x = .eq from Ordering.eq_eq_of_eq_swap h.eq_swap] at hx
      cases hx
    have hforth : (sortBy cmp l).Pairwise fun x y => cmp x y = .lt → R x y := by
      refine hpair.imp fun hxy => ?_
      exact fun _ => hxy
    -- of two rows the one put last is not before the other
    have hback : (sortBy cmp l).Pairwise fun x y => cmp y x = .lt → R y x :=
      (pairwise_sortBy l).imp fun hle hyx => by
        rw [h.eq_swap, hyx] at hle
        cases hle
    exact hforth.forall_of_forall_of_flip hself hback (mem_sortBy.mpr ha) (mem_sortBy.mpr hb) hlt
  · intro hlt
    refine (pairwise_sortBy l).imp_of_mem fun {a b} ha hb hle => ?_
    have ha := mem_sortBy.mp ha
    have hb := mem_sortBy.mp hb
    cases hab : cmp a b with
    | lt => exact hlt a ha b hb hab
    | eq => exact heq a ha b hb hab
    | gt =>
      rw [hab] at hle
      cases hle

omit h' in
/-- The first of the sorted rows is one of them, before every other. -/
theorem head?_sortBy_eq_some {a : α} (ha : (sortBy cmp l).head? = some a) :
    a ∈ l ∧ ∀ b ∈ l, (cmp a b).isLE = true := by
  obtain ⟨rest, hrest⟩ := List.head?_eq_some_iff.mp ha
  have hsorted : (a :: rest).Pairwise fun a b => (cmp a b).isLE = true :=
    hrest ▸ pairwise_sortBy l
  have hfirst := (List.pairwise_cons.mp hsorted).1
  have hself : (cmp a a).isLE = true := by
    rw [show cmp a a = .eq from Ordering.eq_eq_of_eq_swap h.eq_swap]
    rfl
  have hmem : ∀ b, b ∈ l ↔ b = a ∨ b ∈ rest := by
    intro b
    rw [← List.mem_cons, ← hrest]
    exact mem_sortBy.symm
  refine ⟨(hmem a).mpr (Or.inl rfl), fun b hb => ?_⟩
  rcases (hmem b).mp hb with rfl | hb
  · exact hself
  · exact hfirst b hb

omit h h' in
theorem head?_sortBy_eq_none : (sortBy cmp l).head? = none ↔ l = [] := by
  rw [List.head?_eq_none_iff, ← List.length_eq_zero_iff, length_sortBy, List.length_eq_zero_iff]

omit h' in
/-- It depends on the rows alone, where the comparator tells them apart. -/
theorem head?_sortBy_eq {l' : List α} (hmem : ∀ a, a ∈ l ↔ a ∈ l')
    (heq : ∀ a ∈ l, ∀ b ∈ l, cmp a b = .eq → a = b) :
    (sortBy cmp l).head? = (sortBy cmp l').head? := by
  cases ha : (sortBy cmp l).head? with
  | none =>
    obtain rfl := head?_sortBy_eq_none.mp ha
    have hl' : l' = [] := List.eq_nil_iff_forall_not_mem.mpr fun b hb =>
      List.not_mem_nil ((hmem b).mpr hb)
    rw [hl', ha]
  | some a =>
    obtain ⟨hal, hale⟩ := head?_sortBy_eq_some ha
    cases hb : (sortBy cmp l').head? with
    | none =>
      rw [head?_sortBy_eq_none.mp hb] at hmem
      exact absurd ((hmem a).mp hal) List.not_mem_nil
    | some b =>
      obtain ⟨hbl, hble⟩ := head?_sortBy_eq_some hb
      have hbl := (hmem b).mpr hbl
      refine congrArg some (heq a hal b hbl ?_)
      have hba := hble a ((hmem a).mp hal)
      rw [h.eq_swap] at hba
      have hab := hale b hbl
      cases hcmp : cmp a b with
      | eq => rfl
      | lt =>
        rw [hcmp] at hba
        cases hba
      | gt =>
        rw [hcmp] at hab
        cases hab

end Sorted

end SymphonyBoard
