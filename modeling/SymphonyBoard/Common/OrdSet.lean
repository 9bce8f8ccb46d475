import SymphonyBoard.Common.Keyed
import Mathlib.Algebra.Group.Nat.Even
/-!
# Sets that keep their order

A set with its members in the order they came in, as JavaScript's `Set`
keeps them. Toggling a member takes it out, or puts it in at the end; after
a run of toggles a member is in the set when it was and has been toggled an
even number of times, or was not and an odd number (`mem_foldl_toggle`).
`toggleAt` toggles one of a family of sets.
-/

namespace SymphonyBoard

/-- A set in the order its members were added. -/
structure OrdSet (α : Type) where
  values : List α
  nodup : values.Nodup

namespace OrdSet

variable {α D : Type}

instance : Membership α (OrdSet α) := ⟨fun s a => a ∈ s.values⟩

theorem mem_def {s : OrdSet α} {a : α} : a ∈ s ↔ a ∈ s.values := Iff.rfl

theorem ext_values {s t : OrdSet α} (h : s.values = t.values) : s = t := by
  cases s
  cases t
  cases h
  rfl

/-- The same members, in whatever order. -/
def Same (s t : OrdSet α) : Prop := ∀ a, a ∈ s ↔ a ∈ t

theorem Same.of_eq {s t : OrdSet α} (h : s = t) : s.Same t := fun _ => by rw [h]

variable [DecidableEq α] [DecidableEq D]

instance (a : α) (s : OrdSet α) : Decidable (a ∈ s) := inferInstanceAs (Decidable (a ∈ s.values))

/-- `new Set(values)`. -/
def ofList (l : List α) : OrdSet α :=
  ⟨firstOfEach id l, by simpa only [List.map_id] using @nodup_firstOfEach _ _ _ id l⟩

@[simp] theorem mem_ofList {l : List α} {a : α} : a ∈ ofList l ↔ a ∈ l := by
  have h := @mem_map_firstOfEach α α _ id l a
  rwa [List.map_id, List.map_id] at h

theorem ofList_values (s : OrdSet α) : ofList s.values = s := by
  refine ext_values (firstOfEach_of_nodup ?_)
  rw [List.map_id]
  exact s.nodup

/-- `Set.add`. -/
def add (s : OrdSet α) (a : α) : OrdSet α :=
  if h : a ∈ s.values then s
  else ⟨s.values ++ [a], by
    rw [List.nodup_append]
    exact ⟨s.nodup, List.nodup_singleton a, fun b hb c hc heq =>
      h (List.mem_singleton.mp hc ▸ heq ▸ hb)⟩⟩

theorem mem_add {s : OrdSet α} {a b : α} : b ∈ s.add a ↔ b = a ∨ b ∈ s := by
  unfold add
  split
  · rename_i h
    constructor
    · exact Or.inr
    · rintro (rfl | hb)
      · exact h
      · exact hb
  · rw [mem_def, List.mem_append, List.mem_singleton]
    exact or_comm

/-- One member more, or one fewer. -/
def toggle (s : OrdSet α) (a : α) : OrdSet α :=
  if h : a ∈ s.values then ⟨s.values.filter (· ≠ a), s.nodup.filter _⟩
  else ⟨s.values ++ [a], by
    rw [List.nodup_append]
    exact ⟨s.nodup, List.nodup_singleton a, fun b hb c hc heq =>
      h (List.mem_singleton.mp hc ▸ heq ▸ hb)⟩⟩

theorem mem_toggle {s : OrdSet α} {a b : α} : b ∈ s.toggle a ↔ if b = a then a ∉ s else b ∈ s := by
  unfold toggle
  by_cases h : a ∈ s.values
  · rw [dif_pos h, mem_def, List.mem_filter]
    split
    · rename_i heq
      subst heq
      simp [mem_def, h]
    · rename_i hne
      simp [mem_def, hne]
  · rw [dif_neg h, mem_def, List.mem_append, List.mem_singleton]
    split
    · rename_i heq
      subst heq
      simp [mem_def, h]
    · rename_i hne
      simp [mem_def, hne]

/-- Toggle a member of one set of a family. -/
def toggleAt (sets : D → OrdSet α) (toggled : D × α) : D → OrdSet α :=
  fun d => if d = toggled.1 then (sets d).toggle toggled.2 else sets d

theorem mem_toggleAt {sets : D → OrdSet α} {toggled : D × α} {d : D} {a : α} :
    a ∈ toggleAt sets toggled d ↔ if (d, a) = toggled then a ∉ sets d else a ∈ sets d := by
  obtain ⟨d', a'⟩ := toggled
  unfold toggleAt
  dsimp only
  by_cases hd : d = d'
  · subst hd
    rw [if_pos rfl, mem_toggle]
    by_cases ha : a = a'
    · subst ha
      rw [if_pos rfl, if_pos rfl]
    · rw [if_neg ha, if_neg fun h => ha (Prod.mk.inj h).2]
  · rw [if_neg hd, if_neg fun h => hd (Prod.mk.inj h).1]

/-- **What a run of toggles leaves.** -/
theorem mem_foldl_toggle (toggles : List (D × α)) (sets : D → OrdSet α) (d : D) (a : α) :
    a ∈ toggles.foldl toggleAt sets d ↔ (a ∈ sets d ↔ Even (toggles.count (d, a))) := by
  induction toggles generalizing sets with
  | nil => simp
  | cons t toggles ih =>
    rw [List.foldl_cons, ih, mem_toggleAt, List.count_cons]
    by_cases ht : (d, a) = t
    · subst ht
      rw [if_pos rfl, if_pos (beq_self_eq_true _), Nat.even_add_one]
      tauto
    · rw [if_neg ht, if_neg (by simpa using fun h => ht h.symm), Nat.add_zero]

end OrdSet

end SymphonyBoard
