import Mathlib.Data.List.Dedup
import Mathlib.Data.List.Induction
import Mathlib.Logic.Relation
/-!
# Covering pairs

Of a relation without cycles the pairs that no longer way replaces are the
covering ones. They reach what the relation reaches (`transGen_covers`),
and a relation that reaches the same has them all (`covers_of_transGen`):
the covering pairs are the transitive reduction, and the only one.
-/

namespace SymphonyBoard

open Relation

section Covering

variable {α : Type*} {R S : α → α → Prop} {x y z : α}

/-- A relation without a way from anything back to itself. -/
def Acyclic (R : α → α → Prop) : Prop := ∀ x, ¬TransGen R x x

/-- `y` comes right after `x`: nothing is between them. -/
def Covers (R : α → α → Prop) (x y : α) : Prop := R x y ∧ ¬∃ z, TransGen R x z ∧ TransGen R z y

open Classical in
/-- What is between two elements, of a list. -/
noncomputable def between (R : α → α → Prop) (l : List α) (x y : α) : List α :=
  l.filter fun z => TransGen R x z ∧ TransGen R z y

/-- Less is between an element and one on the way. -/
theorem length_between_lt {l : List α} (h : Acyclic R) (hz : z ∈ l) (hxz : TransGen R x z)
    (hzy : TransGen R z y) :
    (between R l x z).length < (between R l x y).length ∧
      (between R l z y).length < (between R l x y).length := by
  classical
  have hmem : z ∈ between R l x y := List.mem_filter.mpr ⟨hz, decide_eq_true ⟨hxz, hzy⟩⟩
  have hleft : between R l x z = (between R l x y).filter fun w =>
      TransGen R x w ∧ TransGen R w z := by
    rw [between, between, List.filter_filter]
    refine List.filter_congr fun w _ => ?_
    rw [Bool.eq_iff_iff, Bool.and_eq_true, decide_eq_true_eq, decide_eq_true_eq]
    exact ⟨fun hw => ⟨hw, hw.1, hw.2.trans hzy⟩, fun hw => hw.1⟩
  have hright : between R l z y = (between R l x y).filter fun w =>
      TransGen R z w ∧ TransGen R w y := by
    rw [between, between, List.filter_filter]
    refine List.filter_congr fun w _ => ?_
    rw [Bool.eq_iff_iff, Bool.and_eq_true, decide_eq_true_eq, decide_eq_true_eq]
    exact ⟨fun hw => ⟨hw, hxz.trans hw.1, hw.2⟩, fun hw => hw.1⟩
  constructor
  · rw [hleft]
    refine List.length_filter_lt_length_iff_exists.mpr ⟨z, hmem, ?_⟩
    rw [decide_eq_true_eq]
    exact fun hw => h z hw.2
  · rw [hright]
    refine List.length_filter_lt_length_iff_exists.mpr ⟨z, hmem, ?_⟩
    rw [decide_eq_true_eq]
    exact fun hw => h z hw.1

/-- **The covering pairs reach what the relation reaches**, if it is on
finitely many elements. -/
theorem transGen_covers {l : List α} (h : Acyclic R) (hl : ∀ x y, R x y → x ∈ l ∧ y ∈ l) :
    TransGen (Covers R) x y ↔ TransGen R x y := by
  constructor
  · exact TransGen.mono (fun a b (hab : Covers R a b) => hab.1) x y
  · intro hxy
    -- on the number of elements between the two
    induction hn : (between R l x y).length using Nat.strongRecOn generalizing x y with
    | ind n ih =>
      by_cases hmid : ∃ z, TransGen R x z ∧ TransGen R z y
      · obtain ⟨z, hxz, hzy⟩ := hmid
        have hz : z ∈ l := by
          obtain ⟨w, hzw, -⟩ := TransGen.head'_iff.mp hzy
          exact (hl z w hzw).1
        obtain ⟨hlt, hlt'⟩ := length_between_lt h hz hxz hzy
        exact (ih _ (hn ▸ hlt) hxz rfl).trans (ih _ (hn ▸ hlt') hzy rfl)
      · refine TransGen.single ⟨?_, hmid⟩
        obtain ⟨c, hxc, hcy⟩ := TransGen.head'_iff.mp hxy
        rcases reflTransGen_iff_eq_or_transGen.mp hcy with rfl | hcy
        · exact hxc
        · exact absurd ⟨c, TransGen.single hxc, hcy⟩ hmid

/-- **A part of the relation that reaches as far has every covering
pair.** -/
theorem covers_of_transGen (hsub : ∀ x y, S x y → R x y)
    (hreach : TransGen R x y → TransGen S x y) (h : Covers R x y) : S x y := by
  obtain ⟨c, hxc, hcy⟩ := TransGen.head'_iff.mp (hreach (TransGen.single h.1))
  rcases reflTransGen_iff_eq_or_transGen.mp hcy with rfl | hcy
  · exact hxc
  · exact absurd ⟨c, TransGen.single (hsub x c hxc), TransGen.mono hsub c y hcy⟩ h.2

/-- A pair is not a covering one if its end is reached by another first
step. -/
theorem not_covers_iff (h : Acyclic R) (hxy : R x y) :
    ¬Covers R x y ↔ ∃ via, R x via ∧ via ≠ y ∧ TransGen R via y := by
  constructor
  · intro hnot
    obtain ⟨z, hxz, hzy⟩ := not_not.mp fun hmid => hnot ⟨hxy, hmid⟩
    obtain ⟨via, hxvia, hviaz⟩ := TransGen.head'_iff.mp hxz
    have hviay : TransGen R via y := TransGen.trans_right hviaz hzy
    refine ⟨via, hxvia, ?_, hviay⟩
    rintro rfl
    exact h via hviay
  · rintro ⟨via, hxvia, -, hviay⟩ hcovers
    exact hcovers.2 ⟨via, TransGen.single hxvia, hviay⟩

end Covering

/-! ## Lists without repeats -/

section Lists

variable {α : Type*}

theorem eraseDups_nodup [BEq α] [LawfulBEq α] (l : List α) : l.eraseDups.Nodup := by
  induction hlength : l.length using Nat.strongRecOn generalizing l with
  | ind n ih =>
    cases l with
    | nil => exact List.nodup_nil
    | cons a l =>
      rw [List.eraseDups_cons]
      have hshort := List.length_filter_le (fun other => !other == a) l
      rw [List.length_cons] at hlength
      refine List.nodup_cons.mpr ⟨?_, ih _ (by omega) _ rfl⟩
      simp [List.mem_eraseDups]

/-- One more element: a repeat, or the last of the list. -/
theorem eraseDups_snoc [DecidableEq α] [BEq α] [LawfulBEq α] (l : List α) (a : α) :
    (l ++ [a]).eraseDups = if a ∈ l then l.eraseDups else l.eraseDups ++ [a] := by
  rw [List.eraseDups_append, List.removeAll]
  by_cases ha : a ∈ l
  · rw [if_pos ha, List.filter_cons_of_neg (by simpa using ha)]
    simp
  · rw [if_neg ha, List.filter_cons_of_pos (by simpa using ha)]
    simp [List.eraseDups_cons]

/-- The repeats of a part of a list are repeats of the list. -/
theorem eraseDups_filter [DecidableEq α] [BEq α] [LawfulBEq α] (l : List α) (q : α → Bool) :
    (l.filter q).eraseDups = l.eraseDups.filter q := by
  induction l using List.reverseRecOn with
  | nil => simp
  | append_singleton l a ih =>
    rw [List.filter_append, eraseDups_snoc]
    cases hq : q a with
    | false =>
      rw [List.filter_cons_of_neg (by simp [hq]), List.filter_nil, List.append_nil, ih]
      split
      · rfl
      · rw [List.filter_append, List.filter_cons_of_neg (by simp [hq]), List.filter_nil,
          List.append_nil]
    | true =>
      rw [List.filter_cons_of_pos hq, List.filter_nil, eraseDups_snoc, ih]
      by_cases ha : a ∈ l
      · rw [if_pos ha, if_pos (List.mem_filter.mpr ⟨ha, hq⟩)]
      · rw [if_neg ha, if_neg (fun h => ha (List.mem_filter.mp h).1), List.filter_append,
          List.filter_cons_of_pos hq, List.filter_nil]

/-- A sublist of a list without repeats is what of it is in the sublist. -/
theorem eq_filter_of_sublist [DecidableEq α] {l l' : List α} (h : l.Sublist l')
    (hnodup : l'.Nodup) : l = l'.filter fun x => x ∈ l := by
  induction h with
  | slnil => rfl
  | @cons l l' a hsub ih =>
    obtain ⟨ha, hl'⟩ := List.nodup_cons.mp hnodup
    rw [List.filter_cons_of_neg (by simpa using fun hmem => ha (hsub.subset hmem))]
    exact ih hl'
  | @cons_cons l l' a hsub ih =>
    obtain ⟨ha, hl'⟩ := List.nodup_cons.mp hnodup
    rw [List.filter_cons_of_pos (by simp)]
    refine congrArg (a :: ·) ((ih hl').trans (List.filter_congr fun x hx => ?_))
    have hne : x ≠ a := fun heq => ha (heq ▸ hx)
    simp [hne]

end Lists

section Pairs

variable {α : Type*} [DecidableEq α]

/-- The pairs other than self pairs, each once, in the order they first come
in. -/
def distinctPairs (pairs : List (α × α)) : List (α × α) :=
  (pairs.filter fun p => p.1 ≠ p.2).eraseDups

theorem nodup_distinctPairs (pairs : List (α × α)) : (distinctPairs pairs).Nodup :=
  eraseDups_nodup _

theorem ne_of_mem_distinctPairs {pairs : List (α × α)} {p : α × α} (h : p ∈ distinctPairs pairs) :
    p.1 ≠ p.2 := by
  rw [distinctPairs, List.mem_eraseDups, List.mem_filter] at h
  exact of_decide_eq_true h.2

theorem distinctPairs_snoc (pairs : List (α × α)) (p : α × α) :
    distinctPairs (pairs ++ [p]) = if p.1 = p.2 ∨ p ∈ distinctPairs pairs then distinctPairs pairs
      else distinctPairs pairs ++ [p] := by
  unfold distinctPairs
  rw [List.filter_append]
  by_cases hself : p.1 = p.2
  · rw [if_pos (Or.inl hself), List.filter_cons_of_neg (by simpa using hself), List.filter_nil,
      List.append_nil]
  · rw [List.filter_cons_of_pos (by simpa using hself), List.filter_nil, eraseDups_snoc]
    simp only [hself, false_or, List.mem_eraseDups]

end Pairs

end SymphonyBoard
