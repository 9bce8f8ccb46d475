import Mathlib.Data.List.Infix
/-!
# Blocks that end in a delimiter

A stream of blocks, each followed by the delimiter `d`, cut back into
blocks from the left. A block is `Whole` when the delimiter first occurs
where the block ends. `blocks_append` is the rule for a reader that is fed
in pieces: what it cut from a text stays cut when more text comes, and the
rest is all it has to keep. `blocks_take_stream` says what it has after any
number of letters.
-/

namespace SymphonyBoard

variable {α : Type*} [DecidableEq α] (d : List α)

/-- What stands before the first `d`, and what after it. -/
def cutAtMark : List α → Option (List α × List α)
  | [] => none
  | a :: l =>
    if d <+: a :: l then some ([], (a :: l).drop d.length)
    else (cutAtMark l).map fun p => (a :: p.1, p.2)

/-- The blocks cut off one after the other, at most `n` of them, and what
is left. -/
def blocksOf : ℕ → List α → List (List α) × List α
  | 0, l => ([], l)
  | n + 1, l =>
    match cutAtMark d l with
    | none => ([], l)
    | some (block, rest) => (block :: (blocksOf n rest).1, (blocksOf n rest).2)

/-- Every block of a text, and the text after the last delimiter. -/
def blocks (l : List α) : List (List α) × List α := blocksOf d l.length l

/-- The delimiter first occurs where the block ends. -/
def Whole (block : List α) : Prop := cutAtMark d (block ++ d) = some (block, [])

/-- The blocks, each followed by the delimiter. -/
def stream (bs : List (List α)) : List α := bs.flatMap (· ++ d)

/-- How much of the first `n` letters of a stream is blocks with their
delimiters. -/
def wholeLength : List (List α) → ℕ → ℕ
  | [], _ => 0
  | block :: bs, n =>
    let width := block.length + d.length
    if width ≤ n then width + wholeLength bs (n - width) else 0

variable {d} {l m block rest : List α} {bs : List (List α)} {n : ℕ}

/-! ## Cutting -/

theorem eq_of_cutAtMark (h : cutAtMark d l = some (block, rest)) : l = block ++ d ++ rest := by
  induction l generalizing block with
  | nil => exact absurd h (by simp [cutAtMark])
  | cons a l ih =>
    unfold cutAtMark at h
    split at h
    · rename_i hd
      obtain ⟨t, ht⟩ := hd
      obtain ⟨rfl, rfl⟩ := Prod.mk.inj (Option.some.inj h)
      rw [← ht, List.drop_left, List.nil_append]
    · obtain ⟨⟨b, r⟩, hcut, hp⟩ := Option.map_eq_some_iff.mp h
      obtain ⟨rfl, rfl⟩ := Prod.mk.inj hp
      rw [ih hcut]
      simp

/-- **A cut stays when more text comes.** -/
theorem cutAtMark_append (h : cutAtMark d l = some (block, rest)) (m : List α) :
    cutAtMark d (l ++ m) = some (block, rest ++ m) := by
  induction l generalizing block with
  | nil => exact absurd h (by simp [cutAtMark])
  | cons a l ih =>
    have hlength := congrArg List.length (eq_of_cutAtMark h)
    simp only [List.length_append] at hlength
    have hfits : d.length ≤ (a :: l).length := by omega
    unfold cutAtMark at h
    rw [List.cons_append, cutAtMark]
    split at h
    · rename_i hd
      obtain ⟨rfl, rfl⟩ := Prod.mk.inj (Option.some.inj h)
      have hd' : d <+: a :: (l ++ m) := hd.trans (List.prefix_append (a :: l) m)
      rw [if_pos hd', ← List.cons_append, List.drop_append_of_le_length hfits]
    · rename_i hd
      have hd' : ¬d <+: a :: (l ++ m) := fun hd' =>
        hd (List.prefix_of_prefix_length_le hd' (List.prefix_append (a :: l) m) hfits)
      obtain ⟨⟨b, r⟩, hcut, hp⟩ := Option.map_eq_some_iff.mp h
      obtain ⟨rfl, rfl⟩ := Prod.mk.inj hp
      rw [if_neg hd', ih hcut]
      rfl

theorem Whole.cut (h : Whole d block) (m : List α) :
    cutAtMark d (block ++ d ++ m) = some (block, m) := cutAtMark_append h m

/-- A text too short for the first block and its delimiter has no
delimiter. -/
theorem Whole.uncut (h : Whole d block) (hl : l <+: block ++ d)
    (hshort : l.length < block.length + d.length) : cutAtMark d l = none := by
  obtain ⟨t, ht⟩ := hl
  cases hcut : cutAtMark d l with
  | none => rfl
  | some p =>
    have happend := cutAtMark_append hcut t
    rw [ht, h] at happend
    have hblock : p.1 = block := (Prod.mk.inj (Option.some.inj happend)).1.symm
    have hlength := congrArg List.length (eq_of_cutAtMark hcut)
    simp only [List.length_append, hblock] at hlength
    omega

/-! ## Blocks -/

theorem length_rest_lt (hd : d ≠ []) (h : cutAtMark d l = some (block, rest)) :
    rest.length < l.length := by
  have hlength := congrArg List.length (eq_of_cutAtMark h)
  have hpos : 0 < d.length := List.length_pos_iff.mpr hd
  simp only [List.length_append] at hlength
  omega

/-- As many cuts as letters are enough. -/
theorem blocksOf_of_le (hd : d ≠ []) (h : l.length ≤ n) : blocksOf d n l = blocks d l := by
  unfold blocks
  induction n using Nat.strong_induction_on generalizing l with
  | _ n ih =>
    cases hcut : cutAtMark d l with
    | none =>
      cases n <;> cases hl : l.length <;> simp [blocksOf, hcut]
    | some p =>
      have hlt := length_rest_lt hd hcut
      obtain ⟨n, rfl⟩ : ∃ k, n = k + 1 := ⟨n - 1, by omega⟩
      obtain ⟨k, hk⟩ : ∃ k, l.length = k + 1 := ⟨l.length - 1, by omega⟩
      rw [hk]
      simp only [blocksOf, hcut]
      rw [ih n (by omega) (l := p.2) (by omega), ← ih k (by omega) (l := p.2) (by omega)]

theorem blocks_of_cutAtMark_none (h : cutAtMark d l = none) : blocks d l = ([], l) := by
  unfold blocks
  cases l.length <;> simp [blocksOf, h]

theorem blocks_of_cutAtMark (hd : d ≠ []) (h : cutAtMark d l = some (block, rest)) :
    blocks d l = (block :: (blocks d rest).1, (blocks d rest).2) := by
  have hlt := length_rest_lt hd h
  rw [← blocksOf_of_le hd (Nat.le_succ l.length)]
  simp only [blocksOf, h]
  rw [blocksOf_of_le hd hlt.le]

/-- **Feeding**: what was cut from a text stays cut, and only the rest
matters to what comes. -/
theorem blocks_append (hd : d ≠ []) (l m : List α) :
    blocks d (l ++ m) =
      ((blocks d l).1 ++ (blocks d ((blocks d l).2 ++ m)).1, (blocks d ((blocks d l).2 ++ m)).2) := by
  induction hn : l.length using Nat.strong_induction_on generalizing l with
  | _ n ih =>
    cases hcut : cutAtMark d l with
    | none => rw [blocks_of_cutAtMark_none hcut, List.nil_append]
    | some p =>
      have hlt := length_rest_lt hd hcut
      rw [blocks_of_cutAtMark hd hcut, blocks_of_cutAtMark hd (cutAtMark_append hcut m),
        ih p.2.length (by omega) p.2 rfl]
      rfl

/-! ## Streams -/

theorem blocks_nil : blocks d [] = ([], []) := rfl

/-- **What a reader has of a stream**: the blocks that are there whole, and
beyond them no more than it takes. -/
theorem blocks_take_stream (hd : d ≠ []) (hbs : ∀ block ∈ bs, Whole d block) (n : ℕ)
    (hn : n ≤ (stream d bs).length) :
    (blocks d ((stream d bs).take n)).1 <+: bs ∧
      (blocks d ((stream d bs).take n)).2.length + wholeLength d bs n = n := by
  induction bs generalizing n with
  | nil =>
    obtain rfl : n = 0 := Nat.le_zero.mp hn
    exact ⟨List.prefix_rfl, rfl⟩
  | cons block bs ih =>
    have hblock := hbs block (List.mem_cons_self ..)
    have hrest : ∀ b ∈ bs, Whole d b := fun b hb => hbs b (List.mem_cons_of_mem block hb)
    have hstream : stream d (block :: bs) = block ++ d ++ stream d bs := rfl
    have hwidth : (block ++ d).length = block.length + d.length := List.length_append
    rw [hstream] at hn ⊢
    rw [List.length_append] at hn
    unfold wholeLength
    by_cases hfits : block.length + d.length ≤ n
    · rw [if_pos hfits, List.take_append, List.take_of_length_le (by omega),
        blocks_of_cutAtMark hd (hblock.cut _), hwidth]
      obtain ⟨hcomes, hlength⟩ := ih hrest (n - (block.length + d.length)) (by omega)
      refine ⟨(List.prefix_cons_inj block).mpr hcomes, ?_⟩
      simp only
      omega
    · have htake : (block ++ d ++ stream d bs).take n = (block ++ d).take n :=
        List.take_append_of_le_length (by omega)
      have hlength : ((block ++ d).take n).length = n := by
        rw [List.length_take]
        omega
      have htaken : (block ++ d).take n <+: block ++ d := List.take_prefix n (block ++ d)
      have hnone := hblock.uncut htaken (by omega)
      rw [if_neg hfits, htake, blocks_of_cutAtMark_none hnone]
      exact ⟨⟨block :: bs, rfl⟩, by simpa using hlength⟩

/-- **A whole stream is cut back into its blocks.** -/
theorem blocks_stream (hd : d ≠ []) (hbs : ∀ block ∈ bs, Whole d block) :
    blocks d (stream d bs) = (bs, []) := by
  induction bs with
  | nil => rfl
  | cons block bs ih =>
    have hblock := hbs block (List.mem_cons_self ..)
    have hrest : ∀ b ∈ bs, Whole d b := fun b hb => hbs b (List.mem_cons_of_mem block hb)
    have hcut : cutAtMark d (stream d (block :: bs)) = some (block, stream d bs) := hblock.cut _
    rw [blocks_of_cutAtMark hd hcut, ih hrest]

end SymphonyBoard
