import Mathlib.Tactic.ByContra
/-!
# Soft deletion by last-seen marks

The rows of a table carry when they were last seen and since when they are
gone. A pass writes some rows, which marks them with its start and makes
them live, and then tombstones the live rows in its reach that were last
seen before its start. Where every row was last seen before the pass, what
is live in its reach afterwards is what it wrote (`MarkPass.Result.live_iff`).
-/

namespace SymphonyBoard

variable {K T : Type*}

/-- When a row was last seen, and since when it is gone. -/
structure Mark (T : Type*) where
  lastSeenAt : T
  deletedAt : Option T

/-- The row is there and not gone. -/
def LiveMark (marks : K → Option (Mark T)) (k : K) : Prop :=
  ∃ m, marks k = some m ∧ m.deletedAt = none

/-- One pass over a table: what it writes, and what its sweep may
tombstone. -/
structure MarkPass (K T : Type*) where
  startedAt : T
  sweepAt : T
  writes : K → Prop
  reaches : K → Prop

namespace MarkPass

variable [LT T]

/-- The pass tombstones a row: it does not write it, reaches it, and the
row is live and last seen before the start. -/
def Sweeps (p : MarkPass K T) (k : K) (m : Mark T) : Prop :=
  ¬ p.writes k ∧ p.reaches k ∧ m.deletedAt = none ∧ m.lastSeenAt < p.startedAt

/-- What a pass makes of a table. -/
structure Result (p : MarkPass K T) (before after : K → Option (Mark T)) : Prop where
  written : ∀ k, p.writes k → after k = some ⟨p.startedAt, none⟩
  swept : ∀ k m, before k = some m → p.Sweeps k m →
    after k = some { m with deletedAt := some p.sweepAt }
  kept : ∀ k, ¬ p.writes k → (∀ m, before k = some m → ¬ p.Sweeps k m) → after k = before k

namespace Result

variable {p : MarkPass K T} {before after : K → Option (Mark T)} (h : p.Result before after)
include h

/-- A written row is live, gone before or not. -/
theorem live_of_writes {k : K} (hk : p.writes k) : LiveMark after k :=
  ⟨_, h.written k hk, rfl⟩

/-- Out of its reach a pass changes only what it writes. -/
theorem kept_of_not_reaches {k : K} (hw : ¬ p.writes k) (hr : ¬ p.reaches k) :
    after k = before k :=
  h.kept k hw fun _ _ hs => hr hs.2.1

/-- A row that is not written is the old one, as the sweep left it. -/
theorem cases_of_not_writes {k : K} (hw : ¬ p.writes k) :
    after k = before k ∨
      ∃ m, before k = some m ∧ p.Sweeps k m ∧
        after k = some { m with deletedAt := some p.sweepAt } := by
  by_cases hs : ∃ m, before k = some m ∧ p.Sweeps k m
  · obtain ⟨m, hm, hs⟩ := hs
    exact Or.inr ⟨m, hm, hs, h.swept k m hm hs⟩
  · exact Or.inl (h.kept k hw fun m hm hm' => hs ⟨m, hm, hm'⟩)

/-- **What is live after a pass is what it wrote**, in its reach, where
every row was last seen before. -/
theorem live_iff (hbefore : ∀ k m, before k = some m → m.lastSeenAt < p.startedAt) {k : K}
    (hr : p.reaches k) : LiveMark after k ↔ p.writes k := by
  constructor
  · rintro ⟨m, hm, hlive⟩
    by_contra hw
    rcases h.cases_of_not_writes hw with heq | ⟨m', -, -, hswept⟩
    · -- a live row that was kept would have been swept
      rw [heq] at hm
      have hs := h.swept k m hm ⟨hw, hr, hlive, hbefore k m hm⟩
      rw [heq, hm] at hs
      have hdel := congrArg Mark.deletedAt (Option.some.inj hs)
      rw [hlive] at hdel
      cases hdel
    · rw [hswept] at hm
      obtain rfl := Option.some.inj hm
      cases hlive
  · exact h.live_of_writes

/-- The rows last seen at or after the start are the written ones. -/
theorem seen_iff (hirrefl : ¬ p.startedAt < p.startedAt)
    (hbefore : ∀ k m, before k = some m → m.lastSeenAt < p.startedAt) {k : K} :
    (∃ m, after k = some m ∧ ¬ m.lastSeenAt < p.startedAt) ↔ p.writes k := by
  constructor
  · rintro ⟨m, hm, hseen⟩
    by_contra hw
    rcases h.cases_of_not_writes hw with heq | ⟨m', hm', -, hswept⟩
    · exact hseen (hbefore k m (heq ▸ hm))
    · rw [hswept] at hm
      obtain rfl := Option.some.inj hm
      exact hseen (hbefore k m' hm')
  · intro hw
    exact ⟨_, h.written k hw, hirrefl⟩

/-- A pass with no reach tombstones nothing. -/
theorem deletedAt_of_no_reach (hr : ∀ k, ¬ p.reaches k) {k : K} {m : Mark T}
    (hm : after k = some m) {t : T} (ht : m.deletedAt = some t) : before k = some m := by
  by_cases hw : p.writes k
  · rw [h.written k hw] at hm
    obtain rfl := Option.some.inj hm
    cases ht
  · rw [← h.kept_of_not_reaches hw (hr k)]
    exact hm

/-- Every row was last seen by the pass or before it. -/
theorem lastSeenAt_cases {k : K} {m : Mark T} (hm : after k = some m) :
    m.lastSeenAt = p.startedAt ∨ ∃ m₀, before k = some m₀ ∧ m.lastSeenAt = m₀.lastSeenAt := by
  by_cases hw : p.writes k
  · rw [h.written k hw] at hm
    exact Or.inl (by rw [← Option.some.inj hm])
  · rcases h.cases_of_not_writes hw with heq | ⟨m₀, hm₀, -, hswept⟩
    · exact Or.inr ⟨m, heq ▸ hm, rfl⟩
    · rw [hswept] at hm
      exact Or.inr ⟨m₀, hm₀, by rw [← Option.some.inj hm]⟩

end Result

end MarkPass

end SymphonyBoard
