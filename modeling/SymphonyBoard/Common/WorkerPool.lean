import Mathlib.Data.List.Nodup
import Mathlib.Data.List.Perm.Basic
import Mathlib.Tactic.Common
/-!
# A bounded pool of workers

Workers take the items of a list in order, at most so many at a time, and
end in any order. An item ends when it is taken, or later; either way it
reads and changes what the workers share. An execution is a list of events,
`take` by an idle worker and `settle` of an item in flight.

`Pool.ended_perm` says that a finished execution has ended every item once,
`Pool.induction` is the invariant rule, `Pool.ended_cases` says how an item
came to its result, and `Pool.exists_step` with `Pool.length_le_remaining`
say that no execution is stuck and none runs on.
-/

namespace SymphonyBoard

/-- What the workers do: an item ends as it is taken, or `onSettle` says
what comes of it. -/
structure PoolTask (σ R : Type) where
  onTake : ℕ → σ → Option (σ × R)
  onSettle : ℕ → σ → σ × R

/-- A worker takes a job, or the call of one settles. -/
inductive PoolEvent
  | take
  | settle (i : ℕ)
deriving DecidableEq, Repr

/-- How far the workers are: the next item, the items in flight, the ended
items with their results, and what the workers share. -/
structure Pool (σ R : Type) where
  next : ℕ
  inFlight : List ℕ
  ended : List (ℕ × R)
  shared : σ

namespace Pool

variable {σ R : Type} (task : PoolTask σ R) (n workers : ℕ)

/-- Nothing has been taken. -/
def start (shared : σ) : Pool σ R := ⟨0, [], [], shared⟩

/-- One event; `none` where it cannot happen. -/
def step (p : Pool σ R) : PoolEvent → Option (Pool σ R)
  | .take =>
    if p.next < n ∧ p.inFlight.length < workers then
      match task.onTake p.next p.shared with
      | some (shared, r) =>
        some { p with next := p.next + 1, ended := p.ended ++ [(p.next, r)], shared }
      | none => some { p with next := p.next + 1, inFlight := p.inFlight ++ [p.next] }
    else none
  | .settle i =>
    if i ∈ p.inFlight then
      let (shared, r) := task.onSettle i p.shared
      some { p with inFlight := p.inFlight.erase i, ended := p.ended ++ [(i, r)], shared }
    else none

/-- The pool after some events, if each was possible. -/
def run : Pool σ R → List PoolEvent → Option (Pool σ R)
  | p, [] => some p
  | p, e :: es => (step task n workers p e).bind fun p' => run p' es

/-- Every item is taken and has ended. -/
def Finished (p : Pool σ R) : Prop := p.next = n ∧ p.inFlight = []

instance (p : Pool σ R) : Decidable (p.Finished n) := inferInstanceAs (Decidable (_ ∧ _))

/-- The results, in the order of the items. -/
def results (p : Pool σ R) : List R := (List.range n).filterMap fun i => p.ended.lookup i

variable {task n workers} {p p' : Pool σ R} {e : PoolEvent} {es : List PoolEvent}

/-! ## Steps -/

/-- **What an event does.** An item is taken and ends, or is taken and
waits, or ends after waiting. -/
theorem step_cases (h : step task n workers p e = some p') :
    (∃ shared r, e = .take ∧ p.next < n ∧ task.onTake p.next p.shared = some (shared, r) ∧
      p' = { p with next := p.next + 1, ended := p.ended ++ [(p.next, r)], shared }) ∨
    (e = .take ∧ p.next < n ∧ p.inFlight.length < workers ∧
      task.onTake p.next p.shared = none ∧
      p' = { p with next := p.next + 1, inFlight := p.inFlight ++ [p.next] }) ∨
    (∃ i ∈ p.inFlight, e = .settle i ∧
      p' = { p with
        inFlight := p.inFlight.erase i
        ended := p.ended ++ [(i, (task.onSettle i p.shared).2)]
        shared := (task.onSettle i p.shared).1 }) := by
  cases e with
  | take =>
    simp only [step] at h
    by_cases hroom : p.next < n ∧ p.inFlight.length < workers
    · rw [if_pos hroom] at h
      cases ht : task.onTake p.next p.shared with
      | some r =>
        rw [ht] at h
        exact Or.inl ⟨r.1, r.2, rfl, hroom.1, rfl, (Option.some.inj h).symm⟩
      | none =>
        rw [ht] at h
        exact Or.inr (Or.inl ⟨rfl, hroom.1, hroom.2, rfl, (Option.some.inj h).symm⟩)
    · rw [if_neg hroom] at h
      cases h
  | settle i =>
    simp only [step] at h
    by_cases hi : i ∈ p.inFlight
    · rw [if_pos hi] at h
      exact Or.inr (Or.inr ⟨i, hi, rfl, (Option.some.inj h).symm⟩)
    · rw [if_neg hi] at h
      cases h

/-- **The invariant rule.** What holds at the start and is kept by each of
the three steps holds after every execution. -/
theorem induction (inv : Pool σ R → Prop) (hstart : inv p)
    (hstep : ∀ p p' e, inv p → step task n workers p e = some p' → inv p')
    (hrun : run task n workers p es = some p') : inv p' := by
  induction es generalizing p with
  | nil => exact Option.some.inj hrun ▸ hstart
  | cons e es ih =>
    obtain ⟨q, hq, hrest⟩ := Option.bind_eq_some_iff.mp hrun
    exact ih (hstep p q e hstart hq) hrest

/-! ## Every item once -/

/-- The items taken are those in flight and those ended, each once. -/
def Accounted (n : ℕ) (p : Pool σ R) : Prop :=
  (p.inFlight ++ p.ended.map Prod.fst).Perm (List.range p.next) ∧ p.next ≤ n

theorem accounted_start (n : ℕ) (shared : σ) : (start shared : Pool σ R).Accounted n :=
  ⟨List.Perm.refl _, Nat.zero_le n⟩

theorem accounted_step (hp : p.Accounted n) (h : step task n workers p e = some p') :
    p'.Accounted n := by
  obtain ⟨hperm, hle⟩ := hp
  rcases step_cases h with ⟨shared, r, -, hlt, -, rfl⟩ | ⟨-, hlt, -, -, rfl⟩ | ⟨i, hi, -, rfl⟩
  · refine ⟨?_, hlt⟩
    rw [List.map_append, ← List.append_assoc, List.range_succ]
    exact hperm.append_right [p.next]
  · refine ⟨?_, hlt⟩
    rw [List.append_assoc, List.range_succ]
    have hmiddle : (p.inFlight ++ ([p.next] ++ p.ended.map Prod.fst)).Perm
        (p.next :: (p.inFlight ++ p.ended.map Prod.fst)) := List.perm_middle
    exact hmiddle.trans ((hperm.cons p.next).trans (List.perm_append_singleton _ _).symm)
  · refine ⟨?_, hle⟩
    rw [List.map_append, ← List.append_assoc]
    have hback : (p.inFlight.erase i ++ p.ended.map Prod.fst ++ [i]).Perm
        (p.inFlight ++ p.ended.map Prod.fst) := by
      refine (List.perm_append_singleton i _).trans ?_
      rw [← List.cons_append]
      exact (List.perm_cons_erase hi).symm.append_right _
    exact hback.trans hperm

/-- **A finished execution has ended every item, each once.** -/
theorem ended_perm {shared : σ} (hrun : run task n workers (start shared) es = some p)
    (hfinished : p.Finished n) : (p.ended.map Prod.fst).Perm (List.range n) := by
  have hacc : p.Accounted n :=
    induction (Accounted n) (accounted_start n shared)
      (fun p p' e hp h => accounted_step hp h) hrun
  have hperm := hacc.1
  rw [hfinished.1, hfinished.2, List.nil_append] at hperm
  exact hperm

theorem lt_of_mem_ended (hp : p.Accounted n) {i : ℕ} {r : R} (h : (i, r) ∈ p.ended) : i < n := by
  have hmem : i ∈ List.range p.next :=
    hp.1.subset (List.mem_append_right _ (List.mem_map_of_mem h))
  exact Nat.lt_of_lt_of_le (List.mem_range.mp hmem) hp.2

theorem mem_ended_of_lookup {i : ℕ} {r : R} (h : p.ended.lookup i = some r) :
    (i, r) ∈ p.ended := by
  obtain ⟨before, after, heq, -⟩ := List.lookup_eq_some_iff.mp h
  rw [heq]
  exact List.mem_append_right _ List.mem_cons_self

/-- A finished execution has a result for every item. -/
theorem exists_lookup {shared : σ} (hrun : run task n workers (start shared) es = some p)
    (hfinished : p.Finished n) {i : ℕ} (hi : i < n) : ∃ r, p.ended.lookup i = some r := by
  have hkey : i ∈ p.ended.map Prod.fst :=
    (ended_perm hrun hfinished).mem_iff.mpr (List.mem_range.mpr hi)
  obtain ⟨⟨j, r⟩, hmem, rfl⟩ := List.mem_map.mp hkey
  cases hlook : p.ended.lookup j with
  | none =>
    have hno := List.lookup_eq_none_iff.mp hlook (j, r) hmem
    simp at hno
  | some r' => exact ⟨r', rfl⟩

/-- An item has one result. -/
theorem ended_unique {shared : σ} (hrun : run task n workers (start shared) es = some p) {i : ℕ}
    {r r' : R} (h : (i, r) ∈ p.ended) (h' : (i, r') ∈ p.ended) : r = r' := by
  have hacc : p.Accounted n :=
    induction (Accounted n) (accounted_start n shared)
      (fun p p' e hp h => accounted_step hp h) hrun
  have hnodup : (p.ended.map Prod.fst).Nodup :=
    (List.nodup_append.mp (hacc.1.nodup_iff.mpr List.nodup_range)).2.1
  exact (Prod.mk.inj (List.inj_on_of_nodup_map hnodup h h' rfl)).2

/-! ## No more than the workers -/

theorem inFlight_step (hp : p.inFlight.length ≤ workers)
    (h : step task n workers p e = some p') : p'.inFlight.length ≤ workers := by
  rcases step_cases h with ⟨shared, r, -, -, -, rfl⟩ | ⟨-, -, hroom, -, rfl⟩ | ⟨i, hi, -, rfl⟩
  · exact hp
  · rw [List.length_append, List.length_singleton]
    exact hroom
  · exact Nat.le_trans List.length_erase_le hp

/-- **At most so many items are in flight as there are workers.** -/
theorem inFlight_le {shared : σ} (hrun : run task n workers (start shared) es = some p) :
    p.inFlight.length ≤ workers :=
  induction (fun p => p.inFlight.length ≤ workers) (Nat.zero_le _)
    (fun _ _ _ hp h => inFlight_step hp h) hrun

/-- Executions compose. -/
theorem run_append {es' : List PoolEvent} (hrun : run task n workers p es = some p') :
    run task n workers p (es ++ es') = run task n workers p' es' := by
  induction es generalizing p with
  | nil => rw [List.nil_append, Option.some.inj hrun]
  | cons e es ih =>
    obtain ⟨q, hq, hrest⟩ := Option.bind_eq_some_iff.mp hrun
    rw [List.cons_append, run, hq]
    exact ih hrest

/-- One more event of an execution. -/
theorem run_concat (hrun : run task n workers p es = some p')
    {q : Pool σ R} (h : step task n workers p' e = some q) :
    run task n workers p (es ++ [e]) = some q := by
  rw [run_append hrun, run, h]
  rfl

/-! ## How an item came to its result -/

/-- Nothing is in flight that ends as it is taken. -/
def Waiting (task : PoolTask σ R) (p : Pool σ R) : Prop :=
  ∀ i ∈ p.inFlight, ∃ shared, task.onTake i shared = none

theorem waiting_step (hp : p.Waiting task) (h : step task n workers p e = some p') :
    p'.Waiting task := by
  rcases step_cases h with ⟨shared, r, -, -, -, rfl⟩ | ⟨-, -, -, htake, rfl⟩ | ⟨j, hj, -, rfl⟩
  · exact hp
  · intro i hi
    rcases List.mem_append.mp hi with hi | hi
    · exact hp i hi
    · rw [List.mem_singleton.mp hi]
      exact ⟨p.shared, htake⟩
  · exact fun i hi => hp i (List.mem_of_mem_erase hi)

theorem mem_ended_step (h : step task n workers p e = some p') {x : ℕ × R} (hx : x ∈ p.ended) :
    x ∈ p'.ended := by
  rcases step_cases h with ⟨shared, r, -, -, -, rfl⟩ | ⟨-, -, -, -, rfl⟩ | ⟨j, hj, -, rfl⟩
  · exact List.mem_append_left _ hx
  · exact hx
  · exact List.mem_append_left _ hx

theorem mem_ended_run (h : run task n workers p es = some p') {x : ℕ × R} (hx : x ∈ p.ended) :
    x ∈ p'.ended :=
  induction (x ∈ ended ·) hx (fun _ _ _ hq hstep => mem_ended_step hstep hq) h

/-- **Where a result comes from.** It was there, or the item ended as it was
taken, or one of the events settled it. -/
theorem ended_cases (hp : p.Waiting task) (hrun : run task n workers p es = some p') {i : ℕ} {r : R}
    (h : (i, r) ∈ p'.ended) :
    (i, r) ∈ p.ended ∨ (∃ shared shared', task.onTake i shared = some (shared', r)) ∨
      (.settle i ∈ es ∧ (∃ shared, task.onTake i shared = none) ∧
        ∃ shared, (task.onSettle i shared).2 = r) := by
  induction es generalizing p with
  | nil =>
    obtain rfl := Option.some.inj hrun
    exact Or.inl h
  | cons e es ih =>
    obtain ⟨q, hq, hrest⟩ := Option.bind_eq_some_iff.mp hrun
    rcases ih (waiting_step hp hq) hrest with hmem | htake | ⟨hsettle, hresult⟩
    · rcases step_cases hq with ⟨shared, r', -, -, htake, rfl⟩ | ⟨-, -, -, -, rfl⟩ | ⟨j, hj, rfl, rfl⟩
      · rcases List.mem_append.mp hmem with hmem | hmem
        · exact Or.inl hmem
        · cases List.mem_singleton.mp hmem
          exact Or.inr (Or.inl ⟨p.shared, shared, htake⟩)
      · exact Or.inl hmem
      · rcases List.mem_append.mp hmem with hmem | hmem
        · exact Or.inl hmem
        · cases List.mem_singleton.mp hmem
          exact Or.inr (Or.inr ⟨List.mem_cons_self, hp i hj, p.shared, rfl⟩)
    · exact Or.inr (Or.inl htake)
    · exact Or.inr (Or.inr ⟨List.mem_cons_of_mem _ hsettle, hresult⟩)

/-- A settled item has ended with what `onSettle` says. -/
theorem ended_of_settle (hrun : run task n workers p es = some p') {i : ℕ}
    (h : .settle i ∈ es) : ∃ shared, (i, (task.onSettle i shared).2) ∈ p'.ended := by
  induction es generalizing p with
  | nil => cases h
  | cons e es ih =>
    obtain ⟨q, hq, hrest⟩ := Option.bind_eq_some_iff.mp hrun
    rcases List.mem_cons.mp h with rfl | h
    · rcases step_cases hq with ⟨-, -, he, -⟩ | ⟨he, -⟩ | ⟨j, -, he, rfl⟩
      · cases he
      · cases he
      · cases he
        exact ⟨p.shared, mem_ended_run hrest (List.mem_append_right _ List.mem_cons_self)⟩
    · exact ih hrest h

/-! ## Every execution ends -/

/-- An unfinished pool with a worker can go on. -/
theorem exists_step (hworkers : 0 < workers) (hp : p.Accounted n) (hnot : ¬ p.Finished n) :
    ∃ e p', step task n workers p e = some p' := by
  cases hflight : p.inFlight with
  | cons i rest =>
    have hi : i ∈ p.inFlight := hflight ▸ List.mem_cons_self
    refine ⟨.settle i,
      { p with
        inFlight := p.inFlight.erase i
        ended := p.ended ++ [(i, (task.onSettle i p.shared).2)]
        shared := (task.onSettle i p.shared).1 }, ?_⟩
    simp only [step]
    rw [if_pos hi]
  | nil =>
    have hlt : p.next < n := Nat.lt_of_le_of_ne hp.2 fun heq => hnot ⟨heq, hflight⟩
    refine ⟨.take, ?_⟩
    simp only [step]
    rw [if_pos ⟨hlt, by rw [hflight]; exact hworkers⟩]
    cases task.onTake p.next p.shared with
    | some r => exact ⟨_, rfl⟩
    | none => exact ⟨_, rfl⟩

/-- How many events can still come: an item that is not taken has two. -/
def remaining (n : ℕ) (p : Pool σ R) : ℕ := 2 * (n - p.next) + p.inFlight.length

theorem remaining_step (h : step task n workers p e = some p') :
    p'.remaining n < p.remaining n := by
  rcases step_cases h with ⟨shared, r, -, hlt, -, rfl⟩ | ⟨-, hlt, -, -, rfl⟩ | ⟨i, hi, -, rfl⟩
  · simp only [remaining]
    omega
  · simp only [remaining, List.length_append, List.length_singleton]
    omega
  · have hpos := List.length_pos_of_mem hi
    simp only [remaining, List.length_erase_of_mem hi]
    omega

/-- No execution runs on. -/
theorem length_le_remaining (h : run task n workers p es = some p') :
    es.length ≤ p.remaining n := by
  induction es generalizing p with
  | nil => exact Nat.zero_le _
  | cons e es ih =>
    obtain ⟨q, hq, hrest⟩ := Option.bind_eq_some_iff.mp h
    have hless := remaining_step hq
    have hle := ih hrest
    rw [List.length_cons]
    omega

/-- **Every execution can be finished.** -/
theorem exists_finished (hworkers : 0 < workers) (hp : p.Accounted n) :
    ∃ es p', run task n workers p es = some p' ∧ p'.Finished n := by
  induction hk : p.remaining n using Nat.strongRecOn generalizing p with
  | ind k ih =>
    by_cases hfinished : p.Finished n
    · exact ⟨[], p, rfl, hfinished⟩
    · obtain ⟨e, q, hq⟩ := exists_step hworkers hp hfinished
      obtain ⟨es, p', hrun, hend⟩ := ih (q.remaining n) (hk ▸ remaining_step hq)
        (accounted_step hp hq) rfl
      refine ⟨e :: es, p', ?_, hend⟩
      rw [run, hq]
      exact hrun

end Pool

end SymphonyBoard
