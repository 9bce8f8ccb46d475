import Mathlib.Data.List.Infix
/-!
# Greedy heads

A pattern that starts with "anything" matches the longest head that leaves
something its tail matches: the tail is taken at the last place it fits.
-/

namespace SymphonyBoard

variable {α β : Type*} (fits : List α → Option β)

/-- The longest head of a list such that the tail fits what is left. -/
def greedyHead : List α → Option (List α × β)
  | [] => (fits []).map fun b => ([], b)
  | a :: l =>
    match greedyHead l with
    | some (head, b) => some (a :: head, b)
    | none => (fits (a :: l)).map fun b => ([], b)

variable {fits} {l head rest : List α} {b : β}

theorem greedyHead_eq_none : greedyHead fits l = none ↔ ∀ s, s <:+ l → fits s = none := by
  induction l with
  | nil =>
    unfold greedyHead
    rw [Option.map_eq_none_iff]
    refine ⟨fun h s hs => List.suffix_nil.mp hs ▸ h, fun h => h [] List.suffix_rfl⟩
  | cons a l ih =>
    unfold greedyHead
    cases hl : greedyHead fits l with
    | some found =>
      rw [hl] at ih
      refine iff_of_false (Option.some_ne_none _) fun h => ?_
      have hnone := ih.mpr fun s hs => h s (hs.trans (List.suffix_cons a l))
      cases hnone
    | none =>
      rw [hl] at ih
      simp only [Option.map_eq_none_iff]
      refine ⟨fun h s hs => ?_, fun h => h _ List.suffix_rfl⟩
      rcases List.suffix_cons_iff.mp hs with rfl | hs
      · exact h
      · exact ih.mp rfl s hs

/-- **The tail fits what the head leaves, and nothing shorter.** -/
theorem greedyHead_eq_some : greedyHead fits l = some (head, b) ↔
    ∃ rest, l = head ++ rest ∧ fits rest = some b ∧
      ∀ s, s <:+ rest → s ≠ rest → fits s = none := by
  induction l generalizing head b with
  | nil =>
    unfold greedyHead
    rw [Option.map_eq_some_iff]
    constructor
    · rintro ⟨b', hb, hpair⟩
      obtain ⟨rfl, rfl⟩ := Prod.mk.inj hpair
      exact ⟨[], rfl, hb, fun s hs hne => absurd (List.suffix_nil.mp hs) hne⟩
    · rintro ⟨rest, hl, hb, -⟩
      obtain ⟨rfl, rfl⟩ := List.append_eq_nil_iff.mp hl.symm
      exact ⟨b, hb, rfl⟩
  | cons a l ih =>
    unfold greedyHead
    cases hl : greedyHead fits l with
    | some found =>
      obtain ⟨head', b'⟩ := found
      rw [hl] at ih
      constructor
      · intro h
        obtain ⟨rfl, rfl⟩ := Prod.mk.inj (Option.some.inj h)
        obtain ⟨rest, hrest, hb, hlast⟩ := ih.mp rfl
        exact ⟨rest, by rw [hrest, List.cons_append], hb, hlast⟩
      · rintro ⟨rest, hcons, hb, hlast⟩
        cases head with
        | nil =>
          -- the tail fits a shorter rest as well
          obtain ⟨rest', hrest', hb', -⟩ := ih.mp rfl
          rw [List.nil_append] at hcons
          have hsuffix : rest' <:+ rest := by
            rw [← hcons, hrest']
            exact ⟨a :: head', rfl⟩
          have hne : rest' ≠ rest := by
            intro heq
            have hlength := congrArg List.length hcons
            rw [hrest', heq, List.length_cons, List.length_append] at hlength
            omega
          rw [hlast rest' hsuffix hne] at hb'
          cases hb'
        | cons c head =>
          obtain ⟨rfl, hl'⟩ := List.cons.inj hcons
          have hsome := ih.mpr ⟨rest, hl', hb, hlast⟩
          obtain ⟨rfl, rfl⟩ := Prod.mk.inj (Option.some.inj hsome)
          rfl
    | none =>
      have hnone := greedyHead_eq_none.mp hl
      simp only [Option.map_eq_some_iff]
      constructor
      · rintro ⟨b', hb, hpair⟩
        obtain ⟨rfl, rfl⟩ := Prod.mk.inj hpair
        refine ⟨a :: l, rfl, hb, fun s hs hne => hnone s ?_⟩
        exact (List.suffix_cons_iff.mp hs).resolve_left hne
      · rintro ⟨rest, hcons, hb, -⟩
        cases head with
        | nil => exact ⟨b, by rw [hcons]; exact hb, rfl⟩
        | cons c head =>
          obtain ⟨-, hl'⟩ := List.cons.inj hcons
          rw [hnone rest ⟨head, hl'.symm⟩] at hb
          cases hb

end SymphonyBoard
